import Admission.Rule
/-!
# Decisions

The outcome of judging a request, and the evaluation of throttle rules that leads to one. Rules are
evaluated in order. Each one counts a hit on its counter, and the first whose count is above its
limit throttles the request; the rules after it are not evaluated and count nothing. A store that
fails ends the evaluation with its fault and without a verdict.

`evaluate` works over any monad in which a hit can be counted, so the same loop serves every store.
-/

namespace Admission

/-- The outcome of judging a request. -/
inductive Decision where
  /-- No list and no rule stopped the request. -/
  | allowed
  /-- The client passes every check. -/
  | safelisted
  /-- The client is denied by its text or by its network. -/
  | blocked
  /-- The counter of a rule went above its limit. -/
  | throttled (rule : Rule) (key : String) (count : Nat)
  deriving DecidableEq

namespace Decision

/-- Whether the request has to be denied. -/
def denies : Decision → Bool
  | allowed => false
  | safelisted => false
  | blocked => true
  | throttled .. => true

/-- A decision as it is shown. -/
def text : Decision → String
  | allowed => "allowed"
  | safelisted => "safelisted"
  | blocked => "blocked"
  | throttled rule _ count =>
    "throttled by '" ++ rule.label ++ "' (" ++ toString count ++ "/" ++ toString rule.limit ++ ")"

/-- Evaluates rules in order for a client and a request path. -/
def evaluate {m : Type → Type} [Monad m]
    (increment : String → Duration → m (Except StorageFault Nat)) (client path : String) :
    List Rule → m (Except StorageFault Decision)
  | [] => pure (.ok allowed)
  | rule :: rest => do
    let key := rule.key.render client path
    match ← increment key rule.period with
    | .error fault => pure (.error fault)
    | .ok count =>
      if rule.limit.toNat < count then pure (.ok (throttled rule key count))
      else evaluate increment client path rest

end Decision

end Admission
