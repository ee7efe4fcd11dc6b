import Admission.Store.Dialogue
/-!
# Several dialogues on one store

A pool holds dialogues that are led at the same time. One step takes one dialogue one call further,
so any order of steps is an interleaving of the calls. Each dialogue has the time at which it goes
on: that of its last call and the delay of the answer, or the time at which it gave the call up.

`Pool.run` takes the steps in the order of these times, earlier dialogues first among equals, up to
a number of steps that the caller chooses large enough; the recursion is on that number.
-/

namespace Admission.Store

/-- A dialogue and the time at which it goes on. -/
structure Member (α : Type) where
  time : Nat
  dialogue : Dialogue α

/-- Dialogues on one store. -/
structure Pool (σ α : Type) where
  members : List (Member α)
  state : σ

namespace Member

/-- Takes a dialogue one call further. -/
def step {σ α : Type} (store : Backend σ) (member : Member α) (state : σ) : Member α × σ :=
  match member.dialogue with
  | .done _ => (member, state)
  | .call request next =>
    let reply := store.answer request state
    (⟨member.time + reply.1.delay, next reply.1⟩, reply.2)
  | .callWithin request limit late next =>
    let reply := store.answer request state
    if limit < reply.1.delay then (⟨member.time + limit, late⟩, reply.2)
    else (⟨member.time + reply.1.delay, next reply.1⟩, reply.2)

/-- The result of a dialogue that is done. -/
def result? {α : Type} (member : Member α) : Option α :=
  match member.dialogue with
  | .done result => some result
  | _ => none

end Member

namespace Pool

/-- Dialogues that all start now. -/
def start {σ α : Type} (dialogues : List (Dialogue α)) (state : σ) : Pool σ α :=
  ⟨dialogues.map fun d => ⟨0, d⟩, state⟩

/-- Takes one dialogue one call further; there is no step for a place without a dialogue. -/
def step {σ α : Type} (store : Backend σ) (place : Nat) (pool : Pool σ α) : Pool σ α :=
  match pool.members[place]? with
  | none => pool
  | some member =>
    let (member, state) := member.step store pool.state
    ⟨pool.members.set place member, state⟩

/-- The unfinished dialogue that goes on first, by place. -/
def next? {σ α : Type} (pool : Pool σ α) : Option Nat :=
  let waiting := pool.members.zipIdx.filter fun (member, _) => member.result?.isNone
  (waiting.foldl (fun best (member, place) =>
    match best with
    | none => some (member.time, place)
    | some (time, _) => if member.time < time then some (member.time, place) else best)
    none).map Prod.snd

/-- Leads all dialogues, at most a number of calls in all. -/
def run {σ α : Type} (store : Backend σ) : Nat → Pool σ α → Pool σ α
  | 0, pool => pool
  | calls + 1, pool =>
    match pool.next? with
    | none => pool
    | some place => run store calls (pool.step store place)

/-- The results of the dialogues that are done. -/
def results {σ α : Type} (pool : Pool σ α) : List α := pool.members.filterMap Member.result?

end Pool

end Admission.Store
