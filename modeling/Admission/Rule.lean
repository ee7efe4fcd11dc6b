import Admission.Duration
import Admission.Error
import Admission.KeyTemplate
import Admission.Path.Pattern
/-!
# Throttle rules

A rule bounds how often requests may hit one counter within a period. It names the requests by a
path pattern and a method, and the counter by a key template. A rule without a limit or without a
period cannot be built.
-/

namespace Admission

/-- A rule: so many requests per period and counter. -/
structure Rule where
  name : Option String
  pattern : PathPattern
  /-- The only method the rule applies to; the empty text stands for all. -/
  method : String
  key : KeyTemplate
  limit : UInt64
  period : Duration
  limit_pos : 0 < limit.toNat
  period_pos : 0 < period.nanos
  deriving DecidableEq, Repr

namespace Rule

/-- Builds a rule without a name. The limit is checked first. -/
def make (pattern method key : String) (limit : UInt64) (period : Duration) : Except Error Rule :=
  if hl : 0 < limit.toNat then
    if hp : 0 < period.nanos then
      .ok ⟨none, .ofString pattern, method, ⟨key⟩, limit, period, hl, hp⟩
    else .error (.invalidRule .periodZero pattern)
  else .error (.invalidRule .limitZero pattern)

variable {pattern method key : String} {limit : UInt64} {period : Duration}

/-- **What a rule is refused for**: its limit, or its period if the limit is in order. -/
theorem make_eq_error_iff {error : Error} :
    make pattern method key limit period = .error error ↔
      (limit.toNat = 0 ∧ .invalidRule .limitZero pattern = error) ∨
        (1 ≤ limit.toNat ∧ period.nanos = 0 ∧ .invalidRule .periodZero pattern = error) := by
  unfold make
  by_cases hlimit : 0 < limit.toNat
  · rw [dif_pos hlimit]
    by_cases hperiod : 0 < period.nanos
    · rw [dif_pos hperiod]
      refine iff_of_false (by simp) ?_
      omega
    · rw [dif_neg hperiod, Except.error.injEq]
      constructor
      · intro herror
        exact .inr ⟨hlimit, by omega, herror⟩
      · rintro (⟨hzero, -⟩ | ⟨-, -, herror⟩)
        · omega
        · exact herror
  · rw [dif_neg hlimit, Except.error.injEq]
    constructor
    · intro herror
      exact .inl ⟨by omega, herror⟩
    · rintro (⟨-, herror⟩ | ⟨hpos, -⟩)
      · exact herror
      · exact absurd hpos hlimit

/-- **A rule is made if it is what it is made from**: it has the compiled pattern and no name, and
everything else as given. -/
theorem make_eq_ok_iff {rule : Rule} :
    make pattern method key limit period = .ok rule ↔
      rule.name = none ∧ rule.pattern = .ofString pattern ∧ rule.method = method ∧
        rule.key = ⟨key⟩ ∧ rule.limit = limit ∧ rule.period = period := by
  constructor
  · intro h
    unfold make at h
    split at h
    · split at h
      · cases h
        exact ⟨rfl, rfl, rfl, rfl, rfl, rfl⟩
      · cases h
    · cases h
  · obtain ⟨name, compiled, _, template, _, _, hlimit, hperiod⟩ := rule
    rintro ⟨rfl, rfl, rfl, rfl, rfl, rfl⟩
    rw [make, dif_pos hlimit, dif_pos hperiod]

/-- Gives a rule a name. -/
def named (rule : Rule) (name : String) : Rule := { rule with name := some name }

/-- Gives a rule a name if there is one. -/
def withName (rule : Rule) (name : Option String) : Rule :=
  match name with
  | some name => rule.named name
  | none => rule

/-- What a rule is called: its name, or the text of its key template. -/
def label (rule : Rule) : String := rule.name.getD rule.key.text

/-- Whether a rule applies to a request. Methods are compared letter by letter. -/
def applies (rule : Rule) (path method : String) : Bool :=
  (rule.method == "" || rule.method == method) && rule.pattern.accepts path

/-- **A rule sees a path only through its resolved form.** -/
theorem applies_congr (rule : Rule) {p q method : String} (h : Path.clean p = Path.clean q) :
    rule.applies p method = rule.applies q method := by
  simp [applies, rule.pattern.accepts_congr h]

end Rule

end Admission
