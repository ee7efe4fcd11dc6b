import Admission.Decimal.Binary64
import Admission.Yaml.Node
/-!
# Meaning of scalars

What a plain scalar means: nothing, a truth value, a number or a text. Integers are decimal, or
hexadecimal, octal or binary with a mark in front; digits after a leading zero make a text. A quoted
scalar is a text. The tests are tried in the order in which `Scalar.ofPlain` has them, so each text
has one meaning.
-/

namespace Admission.Yaml

/-- The meaning of a scalar. -/
inductive Scalar where
  | null
  | bool (value : Bool)
  /-- An integer within 64 bits, with or without a sign. -/
  | int (value : Int)
  /-- An integer within 128 bits that is too large for 64. -/
  | wide (value : Int)
  | float (value : Decimal.Binary64)
  | text (value : String)
  deriving DecidableEq, Repr

namespace Scalar

/-! ## Integers -/

/-- Whether a text is a sign at most, a zero, and more digits. -/
def hasLeadingZero (text : List Char) : Bool :=
  let digits := match text with
    | '+' :: rest => rest
    | '-' :: rest => rest
    | _ => text
  1 < digits.length && digits.head? == some '0' && (digits.drop 1).all Text.isDigit

/-- The bases with a mark of their own. -/
def radixMarks : List (List Char × Nat) :=
  [(['0', 'x'], 16), (['0', 'o'], 8), (['0', 'b'], 2)]

/-- The number behind the mark of a base. -/
def marked? (text : List Char) : Option Nat :=
  radixMarks.findSome? fun (mark, radix) =>
    if mark.isPrefixOf text then Text.natural? radix (text.drop mark.length) else none

/-- A number without a minus sign. -/
def unsigned? (text : List Char) : Option Nat :=
  let digits := match text with
    | '+' :: rest => rest
    | _ => text
  match marked? digits with
  | some n => some n
  | none => if hasLeadingZero text then none else Text.natural? 10 digits

/-- The absolute value of a number with a minus sign. -/
def negative? (text : List Char) : Option Nat :=
  match text with
  | '-' :: digits =>
    match marked? digits with
    | some n => some n
    | none => if hasLeadingZero text then none else Text.natural? 10 digits
  | _ => none

/-- An integer by its size; `none` beyond 128 bits. -/
def ofInt? (value : Int) : Option Scalar :=
  if -0x8000000000000000 ≤ value ∧ value < 0x10000000000000000 then some (int value)
  else if -0x80000000000000000000000000000000 ≤ value ∧
      value < 0x100000000000000000000000000000000 then some (wide value)
  else none

/-- The integer that a text writes. -/
def integer? (text : List Char) : Option Scalar :=
  match unsigned? text, negative? text with
  | some n, _ => ofInt? n
  | none, some n => ofInt? (-(n : Int))
  | none, none => none

/-! ## Other meanings -/

/-- The texts that mean nothing. -/
def nullTexts : List String := ["", "~", "null", "Null", "NULL"]

/-- The truth value that a text means. -/
def bool? (text : String) : Option Bool :=
  if ["true", "True", "TRUE"].contains text then some true
  else if ["false", "False", "FALSE"].contains text then some false
  else none

/-- The floating point number that a text means; a number that is too large is none. -/
def float? (text : String) : Option Decimal.Binary64 :=
  if [".inf", ".Inf", ".INF", "+.inf", "+.Inf", "+.INF"].contains text then some ⟨false, .infinite⟩
  else if ["-.inf", "-.Inf", "-.INF"].contains text then some ⟨true, .infinite⟩
  else if [".nan", ".NaN", ".NAN"].contains text then some ⟨false, .notANumber⟩
  else if hasLeadingZero text.toList then none
  else (Decimal.Binary64.ofChars? text.toList).filter Decimal.Binary64.isFinite

/-- The meaning of a plain scalar. -/
def ofPlain (text : String) : Scalar :=
  if nullTexts.contains text then null
  else match bool? text with
    | some b => bool b
    | none =>
      match integer? text.toList with
      | some s => s
      | none =>
        match float? text with
        | some x => float x
        | none => Scalar.text text

/-- The meaning of a scalar. -/
def meaning (text : String) : Style → Scalar
  | .plain => ofPlain text
  | .quoted => Scalar.text text

end Scalar

/-! ## Trees without ambiguity -/

mutual

/-- Whether two nodes mean the same. -/
def Node.same : Node → Node → Bool
  | .scalar a s, .scalar b t => Scalar.meaning a s == Scalar.meaning b t
  | .sequence xs, .sequence ys => sameItems xs ys
  | .mapping xs, .mapping ys => sameEntries xs ys
  | _, _ => false

/-- Whether two lists of nodes mean the same. -/
def sameItems : List Node → List Node → Bool
  | [], [] => true
  | x :: xs, y :: ys => x.same y && sameItems xs ys
  | _, _ => false

/-- Whether two lists of entries mean the same. -/
def sameEntries : List (Node × Node) → List (Node × Node) → Bool
  | [], [] => true
  | (k, v) :: xs, (l, w) :: ys => k.same l && v.same w && sameEntries xs ys
  | _, _ => false

end

mutual

/-- Whether a tree has a meaning of its own: its integers fit in 64 bits and no mapping has two
entries with the same key. -/
def Node.isValue : Node → Bool
  | .scalar text style =>
    match Scalar.meaning text style with
    | .wide _ => false
    | _ => true
  | .sequence items => areValues items
  | .mapping entries => areEntries entries

/-- Whether all nodes have a meaning. -/
def areValues : List Node → Bool
  | [] => true
  | x :: xs => x.isValue && areValues xs

/-- Whether all keys and values have a meaning and no key comes twice. -/
def areEntries : List (Node × Node) → Bool
  | [] => true
  | (k, v) :: rest =>
    k.isValue && v.isValue && !(rest.any fun entry => k.same entry.1) && areEntries rest

end

end Admission.Yaml
