/-!
# Letter case

Lower case as far as names of ASCII letters can tell it apart: the capital letters of ASCII, and the
Kelvin sign, which is the one other character whose lower case is an ASCII letter.
-/

namespace Admission.Text

/-- A character in lower case. -/
def lowerChar (c : Char) : Char :=
  if 'A' ≤ c ∧ c ≤ 'Z' then Char.ofNat (c.toNat + 32)
  else if c = '\u212A' then 'k'
  else c

/-- A text in lower case. -/
def lower (text : String) : String := String.ofList (text.toList.map lowerChar)

theorem lowerChar_of_not_upper {c : Char} (h : ¬ ('A' ≤ c ∧ c ≤ 'Z')) (hk : c ≠ '\u212A') :
    lowerChar c = c := by
  rw [lowerChar, if_neg h, if_neg hk]

end Admission.Text
