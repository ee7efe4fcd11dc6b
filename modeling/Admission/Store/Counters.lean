import Admission.Duration
/-!
# Counters in memory

A table of counters, each within its current window. A window is opened by the first increment of
its key and closed at an instant that is set once it is open; a counter whose window is over reads
as absent and starts again with the next increment, but stays in the table until it is purged.
Every operation is told the instant at which it takes place.

The view of a table is `Counters.find?`, a function from keys to counters; each operation has one
law about the view (`find?_put`, `find?_keep`, `find?_incr`, `find?_expire`, `find?_purge`).
-/

namespace Admission

/-- A counter within its current window. -/
structure Counter where
  count : Nat
  /-- The instant at which the window is over; `none` if it never is. -/
  endsAt : Option Nat
  deriving DecidableEq, Repr

namespace Counter

/-- A counter of a window that has just been opened. -/
def fresh : Counter := ⟨0, none⟩

/-- Whether the window is over; the instant of its end is outside. -/
def isOver (counter : Counter) (now : Nat) : Bool :=
  match counter.endsAt with
  | some instant => instant ≤ now
  | none => false

/-- The counter after one more increment. -/
def hit (counter : Counter) (now : Nat) : Counter :=
  if counter.isOver now then ⟨1, none⟩ else { counter with count := counter.count + 1 }

end Counter

/-- The first instant that the clock cannot tell, `2^63` seconds after its start. -/
def clockEnd : Nat := 0x8000000000000000 * 1_000_000_000

/-- The end of a period that starts now; `none` if the clock cannot tell it. -/
def deadline (now : Nat) (period : Duration) : Option Nat :=
  if now + period.nanos < clockEnd then some (now + period.nanos) else none

/-- A table of counters with one counter per key. -/
structure Counters where
  entries : List (String × Counter)
  nodup : (entries.map Prod.fst).Nodup
  deriving DecidableEq

namespace Counters

/-! ## The table -/

/-- The table without a counter. -/
def empty : Counters := ⟨[], List.nodup_nil⟩

/-- Looks a key up in a list of entries. -/
def findIn (key : String) : List (String × Counter) → Option Counter
  | [] => none
  | (k, counter) :: rest => if k = key then some counter else findIn key rest

/-- Replaces the entry of a key, or adds one at the end. -/
def putIn (key : String) (counter : Counter) : List (String × Counter) → List (String × Counter)
  | [] => [(key, counter)]
  | (k, old) :: rest =>
    if k = key then (key, counter) :: rest else (k, old) :: putIn key counter rest

/-- The stored counter of a key, whether its window is over or not. -/
def find? (table : Counters) (key : String) : Option Counter := findIn key table.entries

/-- The number of stored counters. -/
def size (table : Counters) : Nat := table.entries.length

theorem keys_putIn (key : String) (counter : Counter) (entries : List (String × Counter)) :
    (putIn key counter entries).map Prod.fst =
      if key ∈ entries.map Prod.fst then entries.map Prod.fst
      else entries.map Prod.fst ++ [key] := by
  induction entries with
  | nil => simp [putIn]
  | cons e rest ih =>
    rw [putIn]
    by_cases h : e.1 = key
    · simp [h]
    · rw [if_neg h, List.map_cons, ih, List.map_cons]
      by_cases hm : key ∈ rest.map Prod.fst
      · rw [if_pos hm, if_pos (List.mem_cons_of_mem _ hm)]
      · rw [if_neg hm, if_neg (by simp [hm, Ne.symm h])]
        rfl

/-- The table with the counter of a key replaced. -/
def put (table : Counters) (key : String) (counter : Counter) : Counters :=
  ⟨putIn key counter table.entries, by
    rw [keys_putIn]
    split
    · exact table.nodup
    · next h =>
      refine List.nodup_append.mpr ⟨table.nodup, by simp, ?_⟩
      intro a ha b hb
      rw [List.mem_singleton.mp hb]
      exact fun e => h (e ▸ ha)⟩

/-- The table with the counters that satisfy a condition. -/
def keep (table : Counters) (p : Counter → Bool) : Counters :=
  ⟨table.entries.filter fun e => p e.2,
    table.nodup.sublist (List.filter_sublist.map Prod.fst)⟩

theorem findIn_putIn (key other : String) (counter : Counter) (entries : List (String × Counter)) :
    findIn other (putIn key counter entries) =
      if other = key then some counter else findIn other entries := by
  induction entries with
  | nil => by_cases h : other = key <;> simp [putIn, findIn, h, Ne.symm]
  | cons e rest ih =>
    rw [putIn]
    by_cases h : e.1 = key
    · by_cases ho : other = key
      · simp [h, ho, findIn]
      · simp [h, ho, findIn, Ne.symm ho]
    · by_cases ho : other = key
      · subst ho
        simp [h, findIn, ih]
      · simp only [if_neg h, findIn, ih, if_neg ho]

/-- **Replacing the counter of a key changes what is found for that key only.** -/
@[simp]
theorem find?_put (table : Counters) (key other : String) (counter : Counter) :
    (table.put key counter).find? other =
      if other = key then some counter else table.find? other :=
  findIn_putIn key other counter table.entries

theorem findIn_eq_none_of_not_mem {key : String} {entries : List (String × Counter)}
    (h : key ∉ entries.map Prod.fst) : findIn key entries = none := by
  induction entries with
  | nil => rfl
  | cons e rest ih =>
    simp only [List.map_cons, List.mem_cons, not_or] at h
    rw [findIn, if_neg (Ne.symm h.1), ih h.2]

theorem findIn_filter {key : String} {p : Counter → Bool} {entries : List (String × Counter)}
    (h : (entries.map Prod.fst).Nodup) :
    findIn key (entries.filter fun e => p e.2) = (findIn key entries).filter p := by
  induction entries with
  | nil => rfl
  | cons e rest ih =>
    rw [List.map_cons, List.nodup_cons] at h
    by_cases hk : e.1 = key
    · by_cases hp : p e.2
      · simp [findIn, hk, hp, Option.filter]
      · have hn : key ∉ (rest.filter fun e => p e.2).map Prod.fst := by
          intro hm
          obtain ⟨x, hx, rfl⟩ := List.mem_map.mp hm
          exact h.1 (hk ▸ List.mem_map.mpr ⟨x, (List.mem_filter.mp hx).1, rfl⟩)
        simp [findIn, hk, hp, findIn_eq_none_of_not_mem hn, Option.filter]
    · by_cases hp : p e.2 <;> simp [findIn, hk, hp, ih h.2]

/-- **What is kept is found as before, and nothing else is found.** -/
@[simp]
theorem find?_keep (table : Counters) (p : Counter → Bool) (key : String) :
    (table.keep p).find? key = (table.find? key).filter p :=
  findIn_filter table.nodup

@[simp]
theorem find?_empty (key : String) : empty.find? key = none := rfl

/-! ## Counting -/

/-- The counter of a key after one more increment. -/
def hitOf (table : Counters) (now : Nat) (key : String) : Counter :=
  ((table.find? key).getD .fresh).hit now

/-- Adds one to the counter of a key; a counter that is absent or over starts from zero. -/
def incr (table : Counters) (now : Nat) (key : String) : Nat × Counters :=
  ((table.hitOf now key).count, table.put key (table.hitOf now key))

/-- Closes the window of a key after a period; a key without a counter is left alone. -/
def expire (table : Counters) (now : Nat) (key : String) (period : Duration) : Counters :=
  match table.find? key with
  | some counter => table.put key { counter with endsAt := deadline now period }
  | none => table

/-- The counter of a key if its window is not over. -/
def live? (table : Counters) (now : Nat) (key : String) : Option Counter :=
  (table.find? key).filter fun counter => !counter.isOver now

/-- The count of a key within its window. -/
def count? (table : Counters) (now : Nat) (key : String) : Option Nat :=
  (table.live? now key).map Counter.count

/-- The time until the window of a stored counter is over, nothing if it is over already. -/
def timeToReset? (table : Counters) (now : Nat) (key : String) : Option Nat :=
  match table.find? key with
  | some counter => counter.endsAt.map (· - now)
  | none => none

/-- The table without the counters whose window is over. -/
def purge (table : Counters) (now : Nat) : Counters :=
  table.keep fun counter => !counter.isOver now

@[simp]
theorem find?_incr (table : Counters) (now : Nat) (key other : String) :
    (table.incr now key).2.find? other =
      if other = key then some (table.hitOf now key) else table.find? other := by
  simp [incr]

@[simp]
theorem find?_expire (table : Counters) (now : Nat) (key other : String) (period : Duration) :
    (table.expire now key period).find? other =
      if other = key then
        (table.find? key).map fun counter => { counter with endsAt := deadline now period }
      else table.find? other := by
  unfold expire
  cases h : table.find? key with
  | some counter => simp
  | none =>
    by_cases ho : other = key
    · simp [ho, h]
    · simp [ho]

@[simp]
theorem find?_purge (table : Counters) (now : Nat) (key : String) :
    (table.purge now).find? key = table.live? now key := by
  simp [purge, live?]

end Counters

end Admission
