import Admission.Redis.Client
import Admission.Rule
/-!
# Expiries on a shared server

The period of a rule is sent as a word of whole milliseconds, in the command for a single expiry and
in the one for a hit. The word is cut off where a number of 64 bits without a sign ends. A server
reads a number with a sign, which ends at half of that, so the words of periods from `2^63`
milliseconds on are no expiries to it.

1. `expiryMillis_mono`, `expiryMillis_exact`: a longer period is sent as no smaller number, and a
   period that the number has room for is sent to within less than a millisecond
2. `signed64?_expiryMillis`: which number a server reads in the word
3. `expiry_usable_iff`: the word of a rule is an expiry exactly if its period is below `2^63`
   milliseconds
4. `expire_of_refusesOverlong`: a server that refuses any other word lets no longer period begin
-/

namespace Admission

/-! ## Milliseconds -/

namespace Redis

variable {period other : Duration}

/-- **A longer period is sent as no smaller number.** -/
theorem expiryMillis_mono (h : period.nanos ≤ other.nanos) :
    expiryMillis period ≤ expiryMillis other := by
  have hmillis : period.millis ≤ other.millis := Nat.div_le_div_right h
  unfold expiryMillis
  omega

/-- **Less than a millisecond is lost** of a period that is one at least and has room. -/
theorem expiryMillis_exact (one : 1_000_000 ≤ period.nanos)
    (room : period.nanos < 0x10000000000000000 * 1_000_000) :
    expiryMillis period * 1_000_000 ≤ period.nanos ∧
      period.nanos < expiryMillis period * 1_000_000 + 1_000_000 := by
  have hmillis : expiryMillis period = period.nanos / 1_000_000 :=
    expiryMillis_of_le (by unfold Duration.millis; omega) (by unfold Duration.millis; omega)
  omega

theorem expiryMillis_lt_iff :
    expiryMillis period < 0x8000000000000000 ↔
      period.nanos < 0x8000000000000000 * 1_000_000 := by
  unfold expiryMillis Duration.millis
  omega

/-- **What a server reads in the word of a period**: its milliseconds, if there is room for them. -/
theorem signed64?_expiryMillis (period : Duration) :
    Text.signed64? 10 (toString (expiryMillis period)).toList =
      if period.nanos < 0x8000000000000000 * 1_000_000 then some (expiryMillis period : Int)
      else none := by
  have hdigits : (toString (expiryMillis period)).toList = Text.decimal (expiryMillis period) :=
    String.toList_ofList
  rw [hdigits, Text.signed64?_decimal]
  simp only [expiryMillis_lt_iff]

end Redis

/-! ## The periods of rules -/

/-- A rule keeps the period that it is made with. -/
theorem Rule.period_of_make {pattern method key : String} {limit : UInt64} {period : Duration}
    {rule : Rule} (h : Rule.make pattern method key limit period = .ok rule) :
    rule.period = period := by
  obtain ⟨-, -, -, -, -, hperiod⟩ := Rule.make_eq_ok_iff.mp h
  exact hperiod

namespace Redis

/-- A word that a server takes for an expiry: a signed number of 64 bits that is one at least. -/
def IsExpiry (word : String) : Prop :=
  ∃ millis : Int, Text.signed64? 10 word.toList = some millis ∧ 1 ≤ millis

theorem isExpiry_iff (period : Duration) :
    IsExpiry (toString (expiryMillis period)) ↔
      period.nanos < 0x8000000000000000 * 1_000_000 := by
  have hone := one_le_expiryMillis period
  rw [IsExpiry, signed64?_expiryMillis]
  split
  · next hroom => exact iff_of_true ⟨_, rfl, by omega⟩ hroom
  · next hroom => exact iff_of_false (by simp) hroom

/--
**When the expiry of a rule can be used.** For every rule that can be made and every counter, both
commands send one word for the period. It is a number that is one at least, does not fall when the
period grows, and differs from the period by less than a millisecond if the period is at least one
and has room in 64 bits. The number is one with a sign of 64 bits, and the word an expiry to a
server, exactly if the period is below `2^63` milliseconds.
-/
theorem expiry_usable_iff {pattern method template : String} {limit : UInt64} {period : Duration}
    {rule : Rule} (h : Rule.make pattern method template limit period = .ok rule) (key : String) :
    expireWords key rule.period = ["PEXPIRE", key, toString (expiryMillis period)] ∧
      hitWords key rule.period =
        ["EVALSHA", scriptDigest, "1", key, toString (expiryMillis period)] ∧
      1 ≤ expiryMillis period ∧
      (∀ longer : Duration, period.nanos ≤ longer.nanos →
        expiryMillis period ≤ expiryMillis longer) ∧
      (1_000_000 ≤ period.nanos → period.nanos < 0x10000000000000000 * 1_000_000 →
        expiryMillis period * 1_000_000 ≤ period.nanos ∧
          period.nanos < expiryMillis period * 1_000_000 + 1_000_000) ∧
      (expiryMillis period ≤ 0x7FFFFFFFFFFFFFFF ↔
        period.nanos < 0x8000000000000000 * 1_000_000) ∧
      (IsExpiry (toString (expiryMillis period)) ↔
        period.nanos < 0x8000000000000000 * 1_000_000) := by
  obtain rfl := Rule.period_of_make h
  refine ⟨rfl, rfl, one_le_expiryMillis _, fun _ => expiryMillis_mono, expiryMillis_exact, ?_,
    isExpiry_iff _⟩
  exact Nat.lt_succ_iff.symm.trans expiryMillis_lt_iff

/-- The longest whole number of milliseconds that a server takes, and one second too many. -/
theorem expiry_usable_iff_at_limit :
    (∃ rule, Rule.make "/login" "POST" "k" 1 (.ofMillis 0x7FFFFFFFFFFFFFFF) = .ok rule ∧
      expireWords "k" rule.period = ["PEXPIRE", "k", "9223372036854775807"] ∧
      IsExpiry "9223372036854775807") ∧
    ∃ rule, Rule.make "/login" "POST" "k" 1 (.ofSecs 9223372036854776) = .ok rule ∧
      expireWords "k" rule.period = ["PEXPIRE", "k", "9223372036854776000"] ∧
      ¬ IsExpiry "9223372036854776000" := by
  constructor
  · have hmake : Rule.make "/login" "POST" "k" 1 (.ofMillis 0x7FFFFFFFFFFFFFFF) = .ok _ := rfl
    obtain ⟨hwords, -, -, -, -, -, husable⟩ := expiry_usable_iff hmake "k"
    exact ⟨_, hmake, hwords, husable.mpr (by decide)⟩
  · have hmake : Rule.make "/login" "POST" "k" 1 (.ofSecs 9223372036854776) = .ok _ := rfl
    obtain ⟨hwords, -, -, -, -, -, husable⟩ := expiry_usable_iff hmake "k"
    exact ⟨_, hmake, hwords, mt husable.mp (by decide)⟩

/-- **Not every rule that can be made sends an expiry** that a signed number of 64 bits holds. -/
theorem not_expiry_always_usable :
    ¬ ∀ pattern method template limit period rule,
      Rule.make pattern method template limit period = .ok rule →
        expiryMillis rule.period ≤ 0x7FFFFFFFFFFFFFFF := by
  intro h
  have hfits := h "/login" "POST" "k" 1 (.ofSecs 9223372036854776) _ rfl
  revert hfits
  decide

/-! ## What follows on a server -/

/-- A server that reports a failure for every expiry whose word is no signed number of 64 bits. -/
def Server.RefusesOverlong {σ : Type} (server : Server σ) : Prop :=
  ∀ key word state, Text.signed64? 10 word.toList = none →
    ∃ reported, (server.answer ["PEXPIRE", key, word] state).1 = .failure reported

/-- **Too long a period is no period at all**: the expiry fails, for every counter and rule. -/
theorem expire_of_refusesOverlong {σ : Type} {server : Server σ} (h : server.RefusesOverlong)
    {period : Duration} (hlong : 0x8000000000000000 * 1_000_000 ≤ period.nanos) (key : String)
    (state : σ) :
    ∃ reported, (server.expire key period state).1 = .error (Fault.signalled reported).storage := by
  have hword : Text.signed64? 10 (toString (expiryMillis period)).toList = none := by
    rw [signed64?_expiryMillis, if_neg (Nat.not_lt.mpr hlong)]
  obtain ⟨reported, hreply⟩ := h key _ state hword
  refine ⟨reported, ?_⟩
  simp only [Server.expire, expireWords, hreply]
  rfl

end Redis

end Admission
