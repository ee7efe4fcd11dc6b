import Admission.Engine
import Admission.Store.Memory
import Admission.Store.Pool
/-!
# Sessions

A session is a policy, the engines that share it, and the state of the counter store they share.
Its operations change the policy or an engine, or let an engine judge requests one after another or
several at once. There is always a first engine.
-/

namespace Admission

/-- A policy and a store, shared by engines. -/
structure Session (σ : Type) where
  policy : Policy := {}
  /-- The engine that is there from the start. -/
  first : Engine := {}
  /-- The engines that were added. -/
  others : List Engine := []
  store : σ

namespace Session

open Store

variable {σ : Type}

/-- The engines in the order in which they came. -/
def engines (session : Session σ) : List Engine := session.first :: session.others

/-- The engine at a place; the first one if there is none. -/
def engine (session : Session σ) (place : Nat) : Engine :=
  session.engines.getD place session.first

/-- Replaces the engine at a place. -/
def setEngine (session : Session σ) (place : Nat) (engine : Engine) : Session σ :=
  match place with
  | 0 => { session with first := engine }
  | place + 1 => { session with others := session.others.set place engine }

/-- Adds a copy of an engine. -/
def clone (session : Session σ) (place : Nat) : Session σ :=
  { session with others := session.others ++ [session.engine place] }

/-- Leads a dialogue with the store of the session. -/
def lead {α : Type} (store : Backend σ) (session : Session σ) (dialogue : Dialogue α) :
    α × Session σ :=
  let run := dialogue.run store session.store
  (run.result, { session with store := run.state })

/-- Lets an engine judge a request. -/
def judge (store : Backend σ) (session : Session σ) (place : Nat) (request : Request) :
    Except StorageFault Decision × Session σ :=
  session.lead store ((session.engine place).judge session.policy request)

/-- Lets an engine judge the same request several times in a row. -/
def judgeRepeatedly (store : Backend σ) (place : Nat) (request : Request) :
    Nat → Session σ → List (Except StorageFault Decision) × Session σ
  | 0, session => ([], session)
  | times + 1, session =>
    let (decision, session) := session.judge store place request
    let (decisions, session) := judgeRepeatedly store place request times session
    (decision :: decisions, session)

/-- Lets an engine judge the same request several times at once. -/
def judgeTogether (store : Backend σ) (session : Session σ) (place : Nat) (request : Request)
    (times : Nat) : List (Except StorageFault Decision) × Session σ :=
  let dialogue := (session.engine place).judge session.policy request
  let calls := times * (2 * session.policy.rules.length)
  let pool := Pool.run store calls (.start (List.replicate times dialogue) session.store)
  (pool.results, { session with store := pool.state })

/-- Whether a judged request goes on; a fault of the store is no admission. -/
def admits : Except StorageFault Decision → Bool
  | .ok decision => !decision.denies
  | .error _ => false

end Session

end Admission
