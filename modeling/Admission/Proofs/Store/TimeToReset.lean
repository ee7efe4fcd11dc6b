import Mathlib.Data.List.Induction
import Admission.Proofs.Store.Commands
/-!
# The time to the next window

Two readings tell about the window of a key: its count, and the time until it is over. While the
count is told, the time is exact: it is how long it takes until the next increment of the key counts
from one again, and it is told for no window that never ends. Once the window is over no count is
told; but the time is told to be zero as long as the counter is stored, and nothing is told only
when it is not.

1. `count_pos_of_find?`: a stored counter has counted
2. `told_eq_one_iff`: hence an increment tells one exactly if nothing is seen of its key
3. `timeToReset_of_live`: while a window is open, the time to its end is the time to that increment
4. `timeToReset_and_count`: the two readings against each other

In step 3 anything may happen to other keys before the next increment, and the store may be purged.
-/

namespace Admission

namespace Counters

variable {table : Counters} {now later : Nat} {key : String} {counter : Counter}

theorem count?_eq_none_iff : table.count? now key = none ↔ table.live? now key = none :=
  Option.map_eq_none_iff

theorem count?_ne_none_iff : table.count? now key ≠ none ↔
    ∃ counter, table.live? now key = some counter := by
  rw [ne_eq, count?_eq_none_iff]
  exact Option.ne_none_iff_exists'

/-- **Where no count is told, the time is zero for a stored counter** and is not told for others. -/
theorem timeToReset?_of_not_live (h : table.live? now key = none) :
    table.timeToReset? now key = (table.find? key).map fun _ => 0 := by
  unfold timeToReset?
  cases hf : table.find? key with
  | none => rfl
  | some counter =>
    have hover : counter.isOver now = true := by
      rw [live?, hf, Option.filter_eq_none_iff] at h
      simpa using h
    unfold Counter.isOver at hover
    cases hends : counter.endsAt with
    | none => simp [hends] at hover
    | some instant =>
      simp only [hends, decide_eq_true_eq] at hover
      simp [hends, Nat.sub_eq_zero_of_le hover]

theorem timeToReset?_of_live (h : table.live? now key = some counter) :
    table.timeToReset? now key = counter.endsAt.map (· - now) := by
  rw [timeToReset?, (live?_eq_some_iff.mp h).1]

end Counters

namespace Store

open Counters

variable {history : List Issued} {issued : Issued} {table : Counters} {key : String} {now : Nat}
  {counter : Counter}

/-! ## Stored counters have counted -/

theorem count_pos_left (h : ∀ key counter, table.find? key = some counter → 0 < counter.count)
    (hf : (issued.left table).find? key = some counter) : 0 < counter.count := by
  obtain ⟨time, command⟩ := issued
  have hhit (k : String) : 0 < (table.hitOf time k).count := by
    rw [count_hitOf]
    exact Nat.succ_pos _
  cases command with
  | incr k =>
    rw [left_incr, find?_incr] at hf
    split at hf
    · exact Option.some.inj hf ▸ hhit k
    · exact h key counter hf
  | expire k period =>
    rw [left_expire, find?_expire] at hf
    split at hf
    · obtain ⟨old, hold, rfl⟩ := Option.map_eq_some_iff.mp hf
      exact h k old hold
    · exact h key counter hf
  | hit k period =>
    rw [left_hit] at hf
    by_cases hk : key = k
    · subst hk
      rw [Memory.find?_hit_self] at hf
      split at hf <;> exact Option.some.inj hf ▸ hhit key
    · rw [Memory.find?_hit_of_ne _ hk] at hf
      exact h key counter hf
  | count k => exact h key counter hf
  | purge =>
    rw [left_purge, find?_purge] at hf
    exact h key counter (live?_eq_some_iff.mp hf).1
  | clear => cases hf

/-- **A stored counter has counted.** -/
theorem count_pos_of_find? (history : List Issued)
    (hf : (leftBy history .empty).find? key = some counter) : 0 < counter.count := by
  induction history using List.reverseRecOn generalizing key counter with
  | nil => cases hf
  | append_singleton history last ih =>
    rw [leftBy_append_singleton] at hf
    exact count_pos_left (fun _ _ => ih) hf

/-! ## The next increment -/

/-- **An increment tells one exactly if nothing is seen of its key.** -/
theorem told_eq_one_iff (history : List Issued) (h : issued.command.increments key = true) :
    issued.told (leftBy history .empty) = .counted (.ok 1) ↔
      (leftBy history .empty).live? issued.time key = none := by
  rw [told_of_increments h, Told.counted.injEq, Except.ok.injEq]
  cases hlive : (leftBy history .empty).live? issued.time key with
  | none => simp [hitOf_of_not_live hlive]
  | some counter =>
    have hpos := count_pos_of_find? history (live?_eq_some_iff.mp hlive).1
    simp only [hitOf_of_live hlive, Counter.succ, reduceCtorEq, iff_false]
    omega

/-- After a history, the next increment of the key, from an instant on, tells one exactly if its own
instant satisfies a condition, whatever other keys undergo meanwhile and whenever purges come. -/
def RestartsWhen (history : List Issued) (key : String) (now : Nat) (condition : Nat → Prop) :
    Prop :=
  ∀ (meanwhile : List Issued) (next : Issued), next.command.increments key = true →
    now ≤ next.time →
    (∀ issued ∈ meanwhile, issued.command.passes key = true ∧ issued.time ≤ next.time) →
      (next.told (leftBy (history ++ meanwhile) .empty) = .counted (.ok 1) ↔ condition next.time)

/-- While a window is open, the next increment tells one exactly if the window is over by then. -/
theorem restartsWhen_isOver (hlive : (leftBy history .empty).live? now key = some counter) :
    RestartsWhen history key now fun later => counter.isOver later = true := by
  intro meanwhile next hincrements hle hmeanwhile
  rw [told_eq_one_iff _ hincrements, leftBy_append,
    live?_leftBy_of_passes (fun issued h => (hmeanwhile issued h).1)
      (fun issued h => (hmeanwhile issued h).2),
    live?_of_le hle, hlive, Option.filter_some]
  show _ ↔ counter.isOver next.time = true
  cases counter.isOver next.time <;> simp

/-- **While a window is open, the time to its end is told exactly**, and only if it has an end. -/
theorem timeToReset_of_live (hlive : (leftBy history .empty).live? now key = some counter) :
    (∀ left, (leftBy history .empty).timeToReset? now key = some left →
      0 < left ∧ RestartsWhen history key now (now + left ≤ ·)) ∧
    ((leftBy history .empty).timeToReset? now key = none →
      RestartsWhen history key now fun _ => False) := by
  have hopen := (live?_eq_some_iff.mp hlive).2
  have hrestarts := restartsWhen_isOver hlive
  rw [timeToReset?_of_live hlive]
  unfold Counter.isOver at hopen hrestarts
  cases hends : counter.endsAt with
  | none => simpa [hends] using hrestarts
  | some instant =>
    simp only [hends, decide_eq_false_iff_not, Nat.not_le, decide_eq_true_eq] at hopen hrestarts
    refine ⟨fun left hleft => ?_, fun hnone => by cases hnone⟩
    obtain rfl : instant - now = left := Option.some.inj hleft
    refine ⟨by omega, ?_⟩
    rw [Nat.add_sub_cancel' (Nat.le_of_lt hopen)]
    exact hrestarts

/--
**The time to the next window against the count.** After every history and at every instant: where
no count is told for a key, the time is told to be zero if a counter is still stored for it, and not
told exactly if none is. Where a count is told, a time that is told is longer than nothing and is
the time until the next increment of the key tells one, and if none is told, no later increment
tells one.
-/
theorem timeToReset_and_count (history : List Issued) (key : String) (now : Nat) :
    ((leftBy history .empty).count? now key = none →
      (leftBy history .empty).timeToReset? now key =
        ((leftBy history .empty).find? key).map fun _ => 0) ∧
    ((leftBy history .empty).count? now key ≠ none →
      (∀ left, (leftBy history .empty).timeToReset? now key = some left →
        0 < left ∧ RestartsWhen history key now (now + left ≤ ·)) ∧
      ((leftBy history .empty).timeToReset? now key = none →
        RestartsWhen history key now fun _ => False)) := by
  constructor
  · intro hcount
    exact timeToReset?_of_not_live (count?_eq_none_iff.mp hcount)
  · intro hcount
    obtain ⟨counter, hlive⟩ := count?_ne_none_iff.mp hcount
    exact timeToReset_of_live hlive

/-- A window that is open, one that is over and still stored, and one that never ends. -/
def openOverEndless : List Issued :=
  [⟨0, .hit "over" (.ofSecs 1)⟩, ⟨0, .hit "endless" (.ofSecs 0xFFFFFFFFFFFFFFFF)⟩,
    ⟨500_000_000, .hit "open" (.ofSecs 1)⟩]

/-- Half a second before its end, a window tells half a second, and the next increment tells one
from its very end on; beside it an endless window and one that is over. -/
theorem timeToReset_and_count_of_three_windows :
    (leftBy openOverEndless .empty).timeToReset? 1_000_000_000 "over" = some 0 ∧
      RestartsWhen openOverEndless "open" 1_000_000_000 (1_500_000_000 ≤ ·) ∧
      RestartsWhen openOverEndless "endless" 1_000_000_000 fun _ => False := by
  refine ⟨?_, ?_, ?_⟩
  · rw [(timeToReset_and_count openOverEndless "over" 1_000_000_000).1 (by decide +kernel)]
    decide +kernel
  · obtain ⟨htold, -⟩ :=
      (timeToReset_and_count openOverEndless "open" 1_000_000_000).2 (by decide +kernel)
    exact (htold 500_000_000 (by decide +kernel)).2
  · obtain ⟨-, hnone⟩ :=
      (timeToReset_and_count openOverEndless "endless" 1_000_000_000).2 (by decide +kernel)
    exact hnone (by decide +kernel)

/-- **A time is told where no count is**: for a counter that is stored after the end of its window,
in a store that knows hits, purges and clearings only. -/
theorem not_timeToReset_none_of_count_none :
    ¬ ∀ history key now, Ordered history → (∀ issued ∈ history, issued.time ≤ now) →
      (∀ issued ∈ history, issued.command.HasPeriod ∧ (issued.command = .purge ∨
        issued.command = .clear ∨ ∃ other period, issued.command = .hit other period)) →
      (leftBy history .empty).count? now key = none →
        (leftBy history .empty).timeToReset? now key = none := by
  intro h
  have hnone := h [⟨0, .hit "a" (.ofSecs 1)⟩] "a" 1_000_000_000 (by decide) (by decide)
    (by simp [Command.HasPeriod, Duration.ofSecs]) (by decide +kernel)
  revert hnone
  decide +kernel

end Store

end Admission
