import Admission.Config.Layers
import Mathlib.Algebra.Group.Nat.Defs
import Mathlib.Data.List.TakeWhile
/-!
# Numbers through layers

A setting has integers with a sign only, so a number from 2^63 on is read from a file as a floating
point number, and rounded when a number of 64 bits is wanted. Of the 64 binary digits of such a
number 53 are kept: it comes to the nearest multiple of 2048, and what is too large comes to the end
of the range.

Main statements: `word64From_ofPlain_decimal` (what is loaded for a number), `loadedNumber_eq_iff`
(for which numbers that is the number).
-/

namespace Admission

open Decimal (Binary64 Magnitude roundDiv)

/-! ## Large numbers as floating point numbers -/

/-- A number between 2^63 and 2^64 keeps 53 of its 64 digits. -/
theorem Decimal.exponentOf_eq_eleven {n : Nat} (low : 2 ^ 63 ≤ n) (high : n < 2 ^ 64) :
    Decimal.exponentOf n 1 = 11 := by
  have hlog : n.log2 = 63 := by
    have hne : n ≠ 0 := by omega
    have hge : 63 ≤ n.log2 := (Nat.le_log2 hne).mpr low
    have hlt : n.log2 < 64 := (Nat.log2_lt hne).mpr high
    omega
  have hone : (1 : Nat).log2 = 0 := by decide
  have hdigits : ¬ n / (1 * Nat.pow 2 10) < Nat.pow 2 Decimal.precision := by
    show ¬ n / (1 * 2 ^ 10) < 2 ^ 53
    omega
  simp only [Decimal.exponentOf, hlog, hone]
  show max Decimal.leastExponent
    (if n / (1 * Nat.pow 2 10) < Nat.pow 2 Decimal.precision then 10 else 10 + 1) = 11
  rw [if_neg hdigits]
  rfl

/-- A number between 2^63 and 2^64 as a mantissa and an exponent. -/
theorem Decimal.ofRatio_of_range {n : Nat} (low : 2 ^ 63 ≤ n) (high : n < 2 ^ 64) :
    Magnitude.ofRatio n 1 =
      if roundDiv n 2048 = 2 ^ 53 then .finite (2 ^ 52) 12 else .finite (roundDiv n 2048) 11 := by
  have hne : n ≠ 0 := by omega
  have hscale : Decimal.scale n 1 (-11) = (n, 2048) := rfl
  simp only [Magnitude.ofRatio, if_neg hne, Decimal.exponentOf_eq_eleven low high, hscale]
  by_cases hfull : roundDiv n 2048 = 2 ^ 53
  · have hfull' : roundDiv n 2048 = Nat.pow 2 Decimal.precision := hfull
    rw [if_pos hfull]
    simp only [if_pos hfull']
    rfl
  · have hfull' : ¬ roundDiv n 2048 = Nat.pow 2 Decimal.precision := hfull
    rw [if_neg hfull]
    simp only [if_neg hfull']
    rfl

/-- A whole number as a floating point number is rounded to itself. -/
theorem Decimal.toWord64_finite (mantissa exponent : Nat) :
    (Binary64.mk false (.finite mantissa exponent)).toWord64 =
      UInt64.ofNat (min (mantissa * 2 ^ exponent) 0xFFFFFFFFFFFFFFFF) := by
  have hwhole : (2 * (mantissa * 2 ^ exponent) + 1) / (2 * 1) = mantissa * 2 ^ exponent := by
    omega
  show UInt64.ofNat (min ((2 * (mantissa * Nat.pow 2 exponent) + 1) / (2 * 1)) _) = _
  rw [Nat.pow_eq, hwhole]

/-- The multiple of 2048 that is nearest to a number, the even one of two. -/
def nearestCoarse (n : Nat) : Nat := roundDiv n 2048 * 2048

/-- **A number between 2^63 and 2^64 is read as the nearest multiple of 2048.** -/
theorem Decimal.toWord64_ofDecimal {n : Nat} (low : 2 ^ 63 ≤ n) (high : n < 2 ^ 64) :
    (Binary64.mk false (.ofDecimal n 0)).toWord64 =
      UInt64.ofNat (min (nearestCoarse n) 0xFFFFFFFFFFFFFFFF) := by
  have hlength : (Text.decimal n).length ≤ 20 :=
    Text.length_decimal_le (by decide) (Nat.lt_trans high (by decide))
  have hratio : Magnitude.ofDecimal n 0 = .ofRatio n 1 := by
    have hsmall : ¬ (n = 0 ∨ ((Text.decimal n).length : Int) + 0 < -400) := by omega
    have hlarge : ¬ 400 < ((Text.decimal n).length : Int) + 0 := by omega
    simp only [Magnitude.ofDecimal, if_neg hsmall, if_neg hlarge]
    show Magnitude.ofRatio (n * Nat.pow 10 0) 1 = .ofRatio n 1
    rw [Nat.pow_eq, Nat.pow_zero, Nat.mul_one]
  rw [hratio, Decimal.ofRatio_of_range low high, nearestCoarse]
  by_cases hfull : roundDiv n 2048 = 2 ^ 53
  · rw [if_pos hfull, hfull]
    exact Decimal.toWord64_finite (2 ^ 52) 12
  · rw [if_neg hfull]
    exact Decimal.toWord64_finite (roundDiv n 2048) 11

/-! ## The readings of a number -/

/-- The number that is loaded from a file for a number in it: numbers from 2^63 on are read as
floating point numbers. -/
def loadedNumber (n : UInt64) : UInt64 :=
  if n.toNat < 0x8000000000000000 then n
  else UInt64.ofNat (min (nearestCoarse n.toNat) 0xFFFFFFFFFFFFFFFF)

/-- The digits of a number are a floating point number. -/
theorem Decimal.ofChars?_decimal (n : Nat) :
    Binary64.ofChars? (Text.decimal n) = some ⟨false, .ofDecimal n 0⟩ := by
  have hmark : ∀ c ∈ Text.decimal n, (!(c == 'e' || c == 'E')) = true := by
    intro c hc
    simp [Text.ne_of_mem_decimal hc (d := 'e') (by decide),
      Text.ne_of_mem_decimal hc (d := 'E') (by decide)]
  have hpoint : ∀ c ∈ Text.decimal n, decide (c ≠ '.') = true := by
    intro c hc
    simp [Text.ne_of_mem_decimal hc (d := '.') (by decide)]
  have hdigits : (Text.decimal n).all Text.isDigit = true :=
    List.all_eq_true.mpr fun c hc => Text.isDigit_of_mem_decimal hc
  have hmagnitude : Decimal.magnitude? (Text.decimal n) = some (.ofDecimal n 0) := by
    simp only [Decimal.magnitude?, List.takeWhile_eq_self_iff.mpr hmark,
      List.dropWhile_eq_nil_iff.mpr hmark, List.takeWhile_eq_self_iff.mpr hpoint,
      List.dropWhile_eq_nil_iff.mpr hpoint, List.drop_nil, List.append_nil, hdigits, if_true,
      Text.natural?_decimal]
    rfl
  have hsign : Decimal.takeSign (Text.decimal n) = (false, Text.decimal n) := by
    obtain ⟨c, rest, hrest, hplus, hminus⟩ := Text.exists_decimal_eq n
    rw [hrest]
    simp [Decimal.takeSign, hplus, hminus]
  rw [Binary64.ofChars?, hsign]
  simp only [hmagnitude, Option.map_some]

/-- The digits of a number have no mark in front. -/
theorem Text.not_marked_decimal {c : Char} {rest : List Char} (n : Nat)
    (h : Text.decimal n = c :: rest) : c ≠ '+' ∧ rest.head? ≠ some 'x' ∧ rest.head? ≠ some 'o' := by
  have hmem : ∀ d ∈ c :: rest, d ∈ Text.decimal n := by
    rw [h]
    exact fun d hd => hd
  refine ⟨Text.ne_of_mem_decimal (hmem c (.head rest)) (by decide), ?_, ?_⟩
  · intro hx
    exact Text.ne_of_mem_decimal (hmem 'x' (.tail c (List.mem_of_head? hx))) (d := 'x') (by decide)
      rfl
  · intro ho
    exact Text.ne_of_mem_decimal (hmem 'o' (.tail c (List.mem_of_head? ho))) (d := 'o') (by decide)
      rfl

/-- **The digits of a number mean an integer, or a floating point number without room for it.** -/
theorem Setting.ofPlain_decimal (n : Nat) :
    Setting.ofPlain (String.ofList (Text.decimal n)) =
      if n < 0x8000000000000000 then .int n else .float ⟨false, .ofDecimal n 0⟩ := by
  have hsigned := Text.signed64?_decimal n
  have hfloat := Decimal.ofChars?_decimal n
  have hword : ∀ word : String, word.toList.head?.map Text.isDigit ≠ some true →
      String.ofList (Text.decimal n) ≠ word := by
    rintro word hhead rfl
    obtain ⟨c, rest, hrest⟩ := List.exists_cons_of_ne_nil (Text.decimal_ne_nil n)
    have hdigit : Text.isDigit c = true :=
      Text.isDigit_of_mem_decimal (by rw [hrest]; exact .head rest)
    rw [String.toList_ofList, hrest, List.head?_cons, Option.map_some, hdigit] at hhead
    exact hhead rfl
  have hnull : ["", "~", "null"].contains (String.ofList (Text.decimal n)) = false := by
    simp [hword "" (by decide), hword "~" (by decide), hword "null" (by decide)]
  simp only [Setting.ofPlain, String.toList_ofList, hnull, Bool.false_eq_true, if_false,
    hword "true" (by decide), hword "false" (by decide), hsigned, hfloat]
  split
  · -- the marks of the other bases
    rename_i hmarked
    split at hmarked
    · rename_i h
      exact absurd rfl (Text.not_marked_decimal n h).2.1
    · rename_i h
      exact absurd rfl (Text.not_marked_decimal n h).2.2
    · rename_i h
      exact absurd rfl (Text.not_marked_decimal n h).1
    · cases hmarked
  · by_cases hsmall : n < 0x8000000000000000
    · simp only [if_pos hsmall]
    · simp only [if_neg hsmall]

/-- **A number in a file is loaded as it is, or rounded if it is large.** -/
theorem Config.word64From_ofPlain_decimal (n : UInt64) :
    Config.word64From (Setting.ofPlain (String.ofList (Text.decimal n.toNat))) =
      some (loadedNumber n) := by
  rw [Setting.ofPlain_decimal]
  unfold loadedNumber
  by_cases hsmall : n.toNat < 0x8000000000000000
  · rw [if_pos hsmall, if_pos hsmall, Config.word64From]
    have hrange : (0 : Int) ≤ n.toNat ∧ (n.toNat : Int) < 0x10000000000000000 := by omega
    rw [if_pos hrange, Int.toNat_natCast, UInt64.ofNat_toNat]
  · have hhigh : n.toNat < 2 ^ 64 := n.toNat_lt
    rw [if_neg hsmall, if_neg hsmall, Config.word64From,
      Decimal.toWord64_ofDecimal (Nat.le_of_not_lt hsmall) hhigh]

/-- Whether a number is loaded as it is: one that fits with a sign, a multiple of 2048, or the
largest one. -/
def IsLoadedExactly (n : UInt64) : Prop :=
  n.toNat < 0x8000000000000000 ∨ 2048 ∣ n.toNat ∨ n.toNat = 0xFFFFFFFFFFFFFFFF

/-- A number below 2^64 is its own nearest multiple of 2048, cut off at the end, exactly if it is
one or stands at the end. -/
theorem min_nearestCoarse_eq_iff {n : Nat} (h : n < 2 ^ 64) :
    min (nearestCoarse n) 0xFFFFFFFFFFFFFFFF = n ↔ 2048 ∣ n ∨ n = 0xFFFFFFFFFFFFFFFF := by
  have hdiv : 2048 * (n / 2048) + n % 2048 = n := Nat.div_add_mod n 2048
  have hmod : n % 2048 < 2048 := Nat.mod_lt n (by decide)
  rw [Nat.dvd_iff_mod_eq_zero, nearestCoarse, roundDiv]
  by_cases hup : 2048 < 2 * (n % 2048) ∨ (2 * (n % 2048) = 2048 ∧ n / 2048 % 2 = 1)
  · rw [if_pos hup, Nat.min_def]
    split <;> omega
  · rw [if_neg hup, Nat.min_def]
    split <;> omega

/-- **Exactly the numbers with a floating point number of their own are loaded as they are.** The
largest number is none of them, but what is too large is cut off there. -/
theorem loadedNumber_eq_iff (n : UInt64) : loadedNumber n = n ↔ IsLoadedExactly n := by
  have hlt : n.toNat < 2 ^ 64 := n.toNat_lt
  unfold loadedNumber IsLoadedExactly
  by_cases hsmall : n.toNat < 0x8000000000000000
  · simp [hsmall]
  · have hbound : min (nearestCoarse n.toNat) 0xFFFFFFFFFFFFFFFF < 2 ^ 64 :=
      Nat.lt_of_le_of_lt (Nat.min_le_right _ _) (by decide)
    rw [if_neg hsmall, ← UInt64.toNat_inj, UInt64.toNat_ofNat', Nat.mod_eq_of_lt hbound,
      min_nearestCoarse_eq_iff hlt]
    simp only [hsmall, false_or]

/-- A large number stays large. -/
theorem loadedNumber_pos_iff (n : UInt64) : 0 < (loadedNumber n).toNat ↔ 0 < n.toNat := by
  unfold loadedNumber
  by_cases hsmall : n.toNat < 0x8000000000000000
  · rw [if_pos hsmall]
  · have hcoarse : 0 < nearestCoarse n.toNat := by
      simp only [nearestCoarse, roundDiv]
      split <;> omega
    have hbound : min (nearestCoarse n.toNat) 0xFFFFFFFFFFFFFFFF < 2 ^ 64 :=
      Nat.lt_of_le_of_lt (Nat.min_le_right _ _) (by decide)
    rw [if_neg hsmall, UInt64.toNat_ofNat', Nat.mod_eq_of_lt hbound]
    omega

end Admission
