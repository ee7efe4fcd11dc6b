import Admission.Store.Memory
/-!
# What can be seen of a table

A counter whose window is over is still stored, but no reading of the table shows it. What can be
seen at an instant is the view `Counters.live?`. This file gives the law of the view for every
operation, at every instant from the operation on.

* `live?_of_le`: a later view is an earlier one with what is over left out
* `live?_purge`: purging cannot be seen
* `live?_hit_of_live`, `live?_hit_of_not_live`: a hit within a window counts one more and keeps its
  end, any other hit opens a window
* `liveCount_hit`: at the instant of a hit, the count of its key and of no other is one more
-/

namespace Admission

namespace Counter

/-- The counter with one more increment in its window. -/
def succ (counter : Counter) : Counter := { counter with count := counter.count + 1 }

/-- The counter of a window that an increment opens now. -/
def opened (now : Nat) (period : Duration) : Counter := ⟨1, deadline now period⟩

theorem isOver_of_le {counter : Counter} {now later : Nat} (hle : now ≤ later)
    (h : counter.isOver now = true) : counter.isOver later = true := by
  unfold isOver at *
  cases he : counter.endsAt with
  | none => simp [he] at h
  | some instant =>
    simp only [he, decide_eq_true_eq] at h ⊢
    omega

theorem isOver_eq_false_of_le {counter : Counter} {now later : Nat} (hle : now ≤ later)
    (h : counter.isOver later = false) : counter.isOver now = false := by
  cases hn : counter.isOver now with
  | false => rfl
  | true => rw [isOver_of_le hle hn] at h; exact h

/-- What is left open now and later is what is left open later. -/
theorem filter_isOver_of_le {now later : Nat} (hle : now ≤ later) (counter : Option Counter) :
    ((counter.filter fun c => !c.isOver now).filter fun c => !c.isOver later) =
      counter.filter fun c => !c.isOver later := by
  rw [Option.filter_filter]
  congr 1
  funext c
  cases ho : c.isOver later with
  | true => simp
  | false => simp [isOver_eq_false_of_le hle ho]

@[simp]
theorem isOver_succ (counter : Counter) (now : Nat) :
    counter.succ.isOver now = counter.isOver now := rfl

/-- A window is open before its period is over. -/
theorem isOver_deadline_of_lt (count : Nat) {start now : Nat} {period : Duration}
    (h : now < start + period.nanos) :
    (Counter.mk count (deadline start period)).isOver now = false := by
  unfold isOver deadline
  by_cases hrange : start + period.nanos < clockEnd
  · simp only [if_pos hrange, decide_eq_false_iff_not]
    omega
  · simp [if_neg hrange]

end Counter

namespace Counters

variable {table : Counters} {now later : Nat} {key other : String}

/-! ## The view -/

theorem live?_eq_some_iff {counter : Counter} :
    table.live? now key = some counter ↔
      table.find? key = some counter ∧ counter.isOver now = false := by
  simp [live?, Option.filter_eq_some_iff]

/-- **What is seen later is what is seen now, less what is over by then.** -/
theorem live?_of_le (hle : now ≤ later) :
    table.live? later key = (table.live? now key).filter fun c => !c.isOver later := by
  unfold live?
  rw [Counter.filter_isOver_of_le hle]

theorem live?_congr {table' : Counters} (h : table'.find? key = table.find? key) :
    table'.live? now key = table.live? now key := by
  unfold live?
  rw [h]

/-- **Purging cannot be seen.** -/
theorem live?_purge (hle : now ≤ later) :
    (table.purge now).live? later key = table.live? later key := by
  show ((table.purge now).find? key).filter _ = _
  rw [find?_purge, ← live?_of_le hle]

/-! ## One increment -/

theorem hitOf_of_live {counter : Counter} (h : table.live? now key = some counter) :
    table.hitOf now key = counter.succ := by
  obtain ⟨hf, ho⟩ := live?_eq_some_iff.mp h
  simp [hitOf, hf, Counter.hit, ho, Counter.succ]

theorem hitOf_of_not_live (h : table.live? now key = none) : table.hitOf now key = ⟨1, none⟩ := by
  unfold hitOf
  cases hf : table.find? key with
  | none => rfl
  | some counter =>
    cases ho : counter.isOver now with
    | true => simp [Counter.hit, ho]
    | false => rw [live?_eq_some_iff.mpr ⟨hf, ho⟩] at h; cases h

theorem isOver_hitOf (table : Counters) (now : Nat) (key : String) :
    (table.hitOf now key).isOver now = false := by
  cases h : table.live? now key with
  | none => rw [hitOf_of_not_live h]; rfl
  | some counter =>
    rw [hitOf_of_live h, Counter.isOver_succ]
    exact (live?_eq_some_iff.mp h).2

theorem live?_incr :
    (table.incr now key).2.live? later other =
      if other = key then (some (table.hitOf now key)).filter fun c => !c.isOver later
      else table.live? later other := by
  unfold live?
  rw [find?_incr]
  split <;> rfl

/-- The end of an open window can be set anew, whatever it was. -/
theorem live?_expire_of_live {counter : Counter} {period : Duration}
    (h : table.live? now key = some counter) :
    (table.expire now key period).live? later key =
      (some { counter with endsAt := deadline now period }).filter fun c => !c.isOver later := by
  rw [live?, find?_expire, if_pos rfl, (live?_eq_some_iff.mp h).1]
  rfl

/-- The count of a key within its window; without a window it is zero. -/
def liveCount (table : Counters) (now : Nat) (key : String) : Nat := (table.count? now key).getD 0

theorem liveCount_congr {table' : Counters} (h : table'.find? key = table.find? key) :
    table'.liveCount now key = table.liveCount now key := by
  rw [liveCount, liveCount, count?, count?, live?_congr h]

/-- **An increment tells the count within the window, itself included.** -/
theorem count_hitOf (table : Counters) (now : Nat) (key : String) :
    (table.hitOf now key).count = table.liveCount now key + 1 := by
  unfold liveCount count?
  cases h : table.live? now key with
  | none => rw [hitOf_of_not_live h]; rfl
  | some counter => rw [hitOf_of_live h]; rfl

end Counters

namespace Store.Memory

open Counters

variable (memory : Memory) {later : Nat} {key other : String} {period : Duration}

/-! ## One hit -/

theorem hit_eq (key : String) (period : Duration) :
    memory.hit key period =
      if (memory.table.hitOf memory.now key).count = 1
      then (memory.table.incr memory.now key).2.expire memory.now key period
      else (memory.table.incr memory.now key).2 := rfl

/-- A hit leaves the counter of every other key alone. -/
theorem find?_hit_of_ne (ho : other ≠ key) :
    (memory.hit key period).find? other = memory.table.find? other := by
  rw [hit_eq]
  split <;> simp [ho]

/-- The stored counter of a key after a hit: its end is set if the hit counted first. -/
theorem find?_hit_self (key : String) (period : Duration) :
    (memory.hit key period).find? key =
      if memory.table.liveCount memory.now key = 0
      then some { memory.table.hitOf memory.now key with endsAt := deadline memory.now period }
      else some (memory.table.hitOf memory.now key) := by
  rw [hit_eq, count_hitOf]
  by_cases h : memory.table.liveCount memory.now key = 0 <;> simp [h]

theorem find?_hit_of_live {counter : Counter}
    (hl : memory.table.live? memory.now key = some counter)
    (hc : 0 < counter.count) : (memory.hit key period).find? key = some counter.succ := by
  have hn : memory.table.liveCount memory.now key ≠ 0 := by
    simp only [liveCount, count?, hl, Option.map_some, Option.getD_some]
    omega
  rw [find?_hit_self, if_neg hn, hitOf_of_live hl]

theorem find?_hit_of_not_live (hl : memory.table.live? memory.now key = none) :
    (memory.hit key period).find? key = some (.opened memory.now period) := by
  have hn : memory.table.liveCount memory.now key = 0 := by simp [liveCount, count?, hl]
  rw [find?_hit_self, if_pos hn, hitOf_of_not_live hl]
  rfl

theorem live?_hit_of_ne (ho : other ≠ key) :
    (memory.hit key period).live? later other = memory.table.live? later other :=
  live?_congr (find?_hit_of_ne memory ho)

/-- **A hit within a window counts one more and leaves its end.** -/
theorem live?_hit_of_live {counter : Counter}
    (hl : memory.table.live? memory.now key = some counter)
    (hc : 0 < counter.count) :
    (memory.hit key period).live? later key =
      (some counter.succ).filter fun c => !c.isOver later := by
  rw [live?, find?_hit_of_live memory hl hc]

/-- **Any other hit opens a window.** -/
theorem live?_hit_of_not_live (hl : memory.table.live? memory.now key = none) :
    (memory.hit key period).live? later key =
      (some (.opened memory.now period)).filter fun c => !c.isOver later := by
  rw [live?, find?_hit_of_not_live memory hl]

/-- **A hit is one more in the count of its key at once, and in no other count.** -/
theorem liveCount_hit (key other : String) (hp : 0 < period.nanos) :
    (memory.hit key period).liveCount memory.now other =
      memory.table.liveCount memory.now other + if other = key then 1 else 0 := by
  by_cases ho : other = key
  · subst ho
    have hcount := count_hitOf memory.table memory.now other
    have hopen := isOver_hitOf memory.table memory.now other
    rw [if_pos rfl, ← hcount, liveCount, count?, live?, find?_hit_self]
    split
    · rw [Option.filter_some, Counter.isOver_deadline_of_lt _ (by omega)]
      rfl
    · simp [Option.filter_some, hopen]
  · rw [if_neg ho, liveCount_congr (find?_hit_of_ne memory ho), Nat.add_zero]

end Store.Memory

end Admission
