import Admission.AccessList
import Admission.Decision
/-!
# Policies

A policy is an access list and throttle rules in the order in which they are evaluated. The access
list comes first: a client that passes every check is let through, a denied one is stopped, and for
neither of them anything is counted. Then the rules that apply to the request are evaluated.

Main statements: `judge_of_isSafelisted`, `judge_of_isBlocked` and `judge_of_unlisted` (the three
cases) and `matching_eq_filter` (which rules are evaluated, and in which order).
-/

namespace Admission

/-- An access list and the throttle rules in order. -/
structure Policy where
  access : AccessList := {}
  rules : List Rule := []
  deriving DecidableEq

namespace Policy

/-! ## Building -/

/-- Adds a client that passes every check. -/
def addSafelist (policy : Policy) (ip : String) : Policy :=
  { policy with access := policy.access.addSafelist ip }

/-- Adds a client that is always denied. -/
def addBlocklist (policy : Policy) (ip : String) : Policy :=
  { policy with access := policy.access.addBlocklist ip }

/-- Adds a network whose addresses are always denied. -/
def addRange (policy : Policy) (cidr : String) : Except Error Policy :=
  (policy.access.addRange cidr).map fun access => { policy with access }

/-- Adds a rule after the others. -/
def addRule (policy : Policy) (rule : Rule) : Policy :=
  { policy with rules := policy.rules ++ [rule] }

/-! ## Judging -/

/-- The rules that apply to a request, in order. -/
def matching (policy : Policy) (path method : String) : List Rule :=
  policy.rules.filter (·.applies path method)

/-- Judges a request of a client over a store in which hits can be counted. -/
def judge {m : Type → Type} [Monad m]
    (increment : String → Duration → m (Except StorageFault Nat))
    (policy : Policy) (client : String) (path method : String) :
    m (Except StorageFault Decision) :=
  if policy.access.isSafelisted client then pure (.ok .safelisted)
  else if policy.access.isBlocked client then pure (.ok .blocked)
  else Decision.evaluate increment client path (policy.matching path method)

/-- **The rules that are evaluated** are those of the policy, in its order, that are for all methods
or for that of the request and whose pattern accepts its path. -/
theorem matching_eq_filter (policy : Policy) (path method : String) :
    policy.matching path method = policy.rules.filter fun rule =>
      (rule.method = "" ∨ rule.method = method) ∧ rule.pattern.accepts path = true := by
  refine List.filter_congr fun rule _ => ?_
  rw [Bool.eq_iff_iff]
  simp [Rule.applies]

theorem mem_matching {policy : Policy} {path method : String} {rule : Rule} :
    rule ∈ policy.matching path method ↔ rule ∈ policy.rules ∧ rule.applies path method = true := by
  simp [matching]

section

variable {m : Type → Type} [Monad m] {policy : Policy} {client path method : String}
  {increment : String → Duration → m (Except StorageFault Nat)}

/-- **A client on the safelist is let through, whatever else is said about it.** -/
theorem judge_of_isSafelisted (h : policy.access.isSafelisted client = true) :
    policy.judge increment client path method = pure (.ok .safelisted) := by
  simp [judge, h]

/-- **A denied client is stopped before anything is counted.** -/
theorem judge_of_isBlocked (hs : policy.access.isSafelisted client = false)
    (hb : policy.access.isBlocked client = true) :
    policy.judge increment client path method = pure (.ok .blocked) := by
  simp [judge, hs, hb]

/-- **Any other client is judged by the rules that apply.** -/
theorem judge_of_unlisted (hs : policy.access.isSafelisted client = false)
    (hb : policy.access.isBlocked client = false) :
    policy.judge increment client path method =
      Decision.evaluate increment client path (policy.matching path method) := by
  simp [judge, hs, hb]

end

end Policy

end Admission
