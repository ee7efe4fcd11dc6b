import Admission.Store.Dialogue
/-!
# A store that follows a script

A store whose answers are fixed beforehand: each kind of call takes the next answer of its own
list. It shows how an engine behaves over a store that is slow, fails or counts in any way. When a
list is used up, increments fail and expiries succeed. The calls are recorded in order.
-/

namespace Admission.Store

/-- The answers that are still to be given and the calls that were made. -/
structure Script where
  incr : List Answer := []
  expire : List Answer := []
  calls : List Call := []

namespace Script

/-- Takes the next answer for a call and records the call. -/
def answer (request : Call) (script : Script) : Answer × Script :=
  let script := { script with calls := script.calls ++ [request] }
  match request with
  | .incr _ =>
    match script.incr with
    | [] => (⟨.error (.reported "script exhausted"), 0⟩, script)
    | next :: rest => (next, { script with incr := rest })
  | .expire _ _ =>
    match script.expire with
    | [] => (⟨.ok 0, 0⟩, script)
    | next :: rest => (next, { script with expire := rest })

/-- The store whose states are scripts. -/
def store : Backend Script := ⟨answer⟩

end Script

end Admission.Store
