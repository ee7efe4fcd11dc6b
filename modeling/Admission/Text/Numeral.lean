/-!
# Numerals

Natural numbers written in a base up to sixteen, read from a list of digits. A numeral has at
least one digit; signs, limits and leading zeros are the business of the grammars that use it.

Main statements: `natural?_toDigits` (the digits of a number write it) and `not_mem_of_natural?` (a
numeral holds nothing but digits).
-/

namespace Admission.Text

/-- The value of a digit; letters of both cases count from ten. -/
def digitValue (c : Char) : Option Nat :=
  let n := c.toNat
  if 0x30 ≤ n ∧ n ≤ 0x39 then some (n - 0x30)
  else if 0x61 ≤ n ∧ n ≤ 0x66 then some (n - 0x61 + 10)
  else if 0x41 ≤ n ∧ n ≤ 0x46 then some (n - 0x41 + 10)
  else none

/-- Reads digits of base `radix` onto the value read so far. -/
def readDigits (radix : Nat) : Nat → List Char → Option Nat
  | value, [] => some value
  | value, c :: rest =>
    match digitValue c with
    | some d => if d < radix then readDigits radix (value * radix + d) rest else none
    | none => none

/-- The number that a whole text of digits writes in base `radix`. -/
def natural? (radix : Nat) (text : List Char) : Option Nat :=
  if text = [] then none else readDigits radix 0 text

/-- The decimal digits of a number. -/
def decimal (n : Nat) : List Char := Nat.toDigits 10 n

theorem readDigits_append (radix value : Nat) (a b : List Char) :
    readDigits radix value (a ++ b) =
      (readDigits radix value a).bind fun value => readDigits radix value b := by
  induction a generalizing value with
  | nil => rfl
  | cons c rest ih =>
    simp only [List.cons_append, readDigits]
    cases digitValue c with
    | none => rfl
    | some d =>
      by_cases h : d < radix
      · simp [h, ih]
      · simp [h]

theorem digitValue_digitChar {d : Nat} (h : d < 16) : digitValue (Nat.digitChar d) = some d := by
  have all : ∀ n < 16, digitValue (Nat.digitChar n) = some n := by decide
  exact all d h

theorem decimal_ne_nil (n : Nat) : decimal n ≠ [] := Nat.toDigits_ne_nil

section

variable {radix : Nat} (hlow : 1 < radix) (hhigh : radix ≤ 16)
include hlow hhigh

theorem readDigits_toDigits (n : Nat) : readDigits radix 0 (Nat.toDigits radix n) = some n := by
  induction n using Nat.strongRecOn with
  | _ n ih =>
    have hdigit : ∀ d < radix, digitValue (Nat.digitChar d) = some d := fun d hd =>
      digitValue_digitChar (Nat.lt_of_lt_of_le hd hhigh)
    by_cases h : n < radix
    · rw [Nat.toDigits_of_lt_base h]
      simp [readDigits, hdigit n h, h]
    · have hlast : n % radix < radix := Nat.mod_lt n (by omega)
      have hrest : n / radix < n := Nat.div_lt_self (by omega) hlow
      rw [Nat.toDigits_of_base_le hlow (by omega), readDigits_append, ih _ hrest]
      simp only [Option.bind_some, readDigits, hdigit _ hlast, if_pos hlast]
      rw [Nat.mul_comm, Nat.div_add_mod]

/-- **The digits of a number in some base write it.** -/
theorem natural?_toDigits (n : Nat) : natural? radix (Nat.toDigits radix n) = some n := by
  rw [natural?, if_neg Nat.toDigits_ne_nil, readDigits_toDigits hlow hhigh]

end

/-- **The decimal digits of a number write it.** -/
@[simp]
theorem natural?_decimal (n : Nat) : natural? 10 (decimal n) = some n :=
  natural?_toDigits (by decide) (by decide) n

theorem digitValue_of_mem_of_readDigits {radix value n : Nat} {text : List Char}
    (h : readDigits radix value text = some n) {c : Char} (hc : c ∈ text) :
    ∃ d, digitValue c = some d ∧ d < radix := by
  induction text generalizing value with
  | nil => cases hc
  | cons first rest ih =>
    rw [readDigits] at h
    cases hfirst : digitValue first with
    | none => simp [hfirst] at h
    | some d =>
      by_cases hd : d < radix
      · simp only [hfirst, if_pos hd] at h
        rcases List.mem_cons.mp hc with rfl | hmem
        · exact ⟨d, hfirst, hd⟩
        · exact ih h hmem
      · simp [hfirst, hd] at h

/-- A numeral holds nothing but digits. -/
theorem not_mem_of_natural? {radix n : Nat} {text : List Char} (h : natural? radix text = some n)
    {c : Char} (hc : digitValue c = none) : c ∉ text := by
  intro hmem
  rw [natural?] at h
  split at h
  · cases h
  · obtain ⟨d, hd, -⟩ := digitValue_of_mem_of_readDigits h hmem
    rw [hc] at hd
    cases hd

/-- Whether a character is a decimal digit. -/
def isDigit (c : Char) : Bool := 0x30 ≤ c.toNat && c.toNat ≤ 0x39

/-- The decimal digits of a number are digits. -/
theorem isDigit_of_mem_decimal {n : Nat} {c : Char} (hc : c ∈ decimal n) : isDigit c = true := by
  have hdigit : c.isDigit = true := Nat.isDigit_of_mem_toDigits (by decide) (by decide) hc
  simpa [Char.isDigit, isDigit, UInt32.le_iff_toNat_le] using hdigit

/-- A character that is no digit is not among the digits of a number. -/
theorem ne_of_mem_decimal {n : Nat} {c d : Char} (hc : c ∈ decimal n) (hd : isDigit d = false) :
    c ≠ d := by
  rintro rfl
  rw [isDigit_of_mem_decimal hc] at hd
  cases hd

/-- The first character of a number is no sign. -/
theorem exists_decimal_eq (n : Nat) :
    ∃ c rest, decimal n = c :: rest ∧ c ≠ '+' ∧ c ≠ '-' := by
  obtain ⟨c, rest, hrest⟩ := List.exists_cons_of_ne_nil (decimal_ne_nil n)
  have hmem : c ∈ decimal n := by
    rw [hrest]
    exact .head rest
  exact ⟨c, rest, hrest, ne_of_mem_decimal hmem (by decide),
    ne_of_mem_decimal hmem (by decide)⟩

/-- A positive number is written without a zero in front. -/
theorem head?_decimal {n : Nat} (h : 0 < n) : (decimal n).head? ≠ some '0' := by
  induction n using Nat.strongRecOn with
  | _ n ih =>
    rw [decimal]
    by_cases hlt : n < 10
    · rw [Nat.toDigits_of_lt_base hlt, List.head?_cons]
      intro hzero
      have : n = 0 := Nat.digitChar_eq_zero.mp (Option.some.inj hzero)
      omega
    · obtain ⟨c, rest, hrest⟩ := List.exists_cons_of_ne_nil (decimal_ne_nil (n / 10))
      have hhead := ih (n / 10) (by omega) (by omega)
      rw [hrest, List.head?_cons] at hhead
      rw [Nat.toDigits_of_base_le (by decide) (by omega), ← decimal, hrest]
      exact hhead

/-- A number below a power of ten has at most that many digits. -/
theorem length_decimal_le {n k : Nat} (hk : 0 < k) (h : n < Nat.pow 10 k) : (decimal n).length ≤ k :=
  (Nat.length_toDigits_le_iff (by decide) hk).mpr h

/-- A number below 2^64 in decimal, with at most one `+` before it. -/
def word64? (text : List Char) : Option UInt64 :=
  let digits := match text with
    | '+' :: rest => rest
    | _ => text
  match natural? 10 digits with
  | some n => if n < 0x10000000000000000 then some (UInt64.ofNat n) else none
  | none => none

/-- A signed number within 64 bits in base `radix`, with at most one sign before it. -/
def signed64? (radix : Nat) (text : List Char) : Option Int :=
  match text with
  | '-' :: rest => match natural? radix rest with
    | some n => if n ≤ 0x8000000000000000 then some (-(n : Int)) else none
    | none => none
  | '+' :: rest => match natural? radix rest with
    | some n => if n < 0x8000000000000000 then some (n : Int) else none
    | none => none
  | _ => match natural? radix text with
    | some n => if n < 0x8000000000000000 then some (n : Int) else none
    | none => none

/-- **The digits of a number are a number with a sign exactly if there is room for it.** -/
theorem signed64?_decimal (n : Nat) :
    signed64? 10 (decimal n) = if n < 0x8000000000000000 then some (n : Int) else none := by
  have hnatural := natural?_decimal n
  obtain ⟨c, rest, hrest, hplus, hminus⟩ := exists_decimal_eq n
  rw [hrest] at hnatural ⊢
  simp [signed64?, hplus, hminus, hnatural]

end Admission.Text
