import Admission.Client.Identity
import Admission.Policy
import Admission.Store.Dialogue
/-!
# Engines

An engine judges requests by a policy. It knows whose forwarded-for headers count, and how long it
waits for the counter store: with a limit, each hit it counts has to end within that many whole
milliseconds, rounded up, and one that does not is a fault of the store. The engine keeps nothing
between two decisions, so a decision is a dialogue with the store.
-/

namespace Admission

/-- Who a client is and how long the store may take. -/
structure Engine where
  peers : TrustedPeers := .everybody
  timeout : Option Duration := none
  deriving DecidableEq, Repr

namespace Engine

open Store

/-- Counts a hit within the time that the engine is willing to wait. -/
def increment (engine : Engine) (key : String) (period : Duration) :
    Dialogue (Except StorageFault Nat) :=
  match engine.timeout with
  | none => incrementAndExpire key period
  | some limit =>
    (incrementAndExpire key period).within limit.ceilMillis (.error (.timedOut limit))

/-- The address text by which the engine judges a request. -/
def client (engine : Engine) (request : Request) : String := Client.address engine.peers request

/-- Judges a request by a policy. -/
def judge (engine : Engine) (policy : Policy) (request : Request) :
    Dialogue (Except StorageFault Decision) :=
  policy.judge engine.increment (engine.client request) request.path request.method

end Engine

end Admission
