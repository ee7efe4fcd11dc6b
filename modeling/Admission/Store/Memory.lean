import Admission.Store.Counters
import Admission.Store.Dialogue
/-!
# The store in memory

A table of counters and a clock. Calls are answered at once and never fail, so a dialogue leaves
the clock where it is; the clock moves only by `advance`.

Main statements: `run_incrementAndExpire` (counting a hit in closed form) and the laws that say
that no operation but `advance` moves the clock.
-/

namespace Admission.Store

/-- A table of counters at an instant. -/
structure Memory where
  now : Nat := 0
  table : Counters := .empty
  deriving DecidableEq

namespace Memory

/-- Answers a call at once. -/
def answer (request : Call) (memory : Memory) : Answer × Memory :=
  match request with
  | .incr key =>
    let (count, table) := memory.table.incr memory.now key
    (⟨.ok count, 0⟩, { memory with table })
  | .expire key period =>
    (⟨.ok 0, 0⟩, { memory with table := memory.table.expire memory.now key period })

/-- The store whose states are tables at an instant. -/
def store : Backend Memory := ⟨fun request memory => memory.answer request⟩

/-- Lets time pass. -/
def advance (memory : Memory) (period : Duration) : Memory :=
  { memory with now := memory.now + period.nanos }

/-- Drops the counters whose window is over. -/
def purge (memory : Memory) : Memory := { memory with table := memory.table.purge memory.now }

/-- The number of counters that a purge drops. -/
def purged (memory : Memory) : Nat := memory.table.size - memory.purge.table.size

/-- Drops all counters. -/
def clear (memory : Memory) : Memory := { memory with table := .empty }

/-- The table after a hit on a key: counted and, if that opened the window, with its end set. -/
def hit (memory : Memory) (key : String) (period : Duration) : Counters :=
  let (count, table) := memory.table.incr memory.now key
  if count = 1 then table.expire memory.now key period else table

/-- **Counting a hit gives the count of the increment and takes no time.** -/
theorem run_incrementAndExpire (memory : Memory) (key : String) (period : Duration) :
    (incrementAndExpire key period).run store memory =
      ⟨.ok (memory.table.incr memory.now key).1, 0,
        { memory with table := memory.hit key period }⟩ := by
  by_cases h : (memory.table.incr memory.now key).1 = 1 <;>
    simp [incrementAndExpire, Dialogue.run, Dialogue.Run.after, store, answer, hit, h]

end Memory

end Admission.Store
