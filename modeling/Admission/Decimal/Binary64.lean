import Admission.Text.Numeral
/-!
# Binary floating point numbers

Numbers with 53 binary digits and a binary exponent, as exact pairs of integers. A decimal text is
read to the nearest such number, a half going to the even neighbour, and a number is written with
the fewest decimal digits that read back to it, positionally and without an exponent. All
arithmetic is on natural numbers.

The shortest digits are found on the grids of one, two, … digits: of the two neighbours of the
number on a grid the one that reads back, and of two such the nearer one.
-/

namespace Admission.Decimal

/-- A floating point number of 64 bits; its sign stands apart. -/
inductive Magnitude where
  /-- The number `mantissa * 2 ^ exponent`. -/
  | finite (mantissa : Nat) (exponent : Int)
  | infinite
  | notANumber
  deriving DecidableEq, Repr

/-- A floating point number of 64 bits. -/
structure Binary64 where
  negative : Bool
  magnitude : Magnitude
  deriving DecidableEq, Repr

/-- The number of digits of a mantissa. -/
def precision : Nat := 53

/-- The least exponent of a mantissa. -/
def leastExponent : Int := -1074

/-- The exponent from which on a full mantissa is too large. -/
def exponentEnd : Int := 972

/-- The quotient rounded to the nearest number, a half to the even one. -/
def roundDiv (num den : Nat) : Nat :=
  let q := num / den
  let r := num % den
  if den < 2 * r ∨ (2 * r = den ∧ q % 2 = 1) then q + 1 else q

/-- A power of two times a ratio, as a ratio. -/
def scale (num den : Nat) (exponent : Int) : Nat × Nat :=
  match exponent with
  | .ofNat e => (num * Nat.pow 2 e, den)
  | .negSucc e => (num, den * Nat.pow 2 (e + 1))

/-- The exponent with which a positive ratio has a mantissa of full length, or the least one. -/
def exponentOf (num den : Nat) : Int :=
  let guess : Int := num.log2 - den.log2 - precision
  -- the two logarithms leave one bit open
  let (n, d) := scale num den (-guess)
  max leastExponent (if n / d < Nat.pow 2 precision then guess else guess + 1)

/-- The magnitude nearest to a ratio. -/
def Magnitude.ofRatio (num den : Nat) : Magnitude :=
  if num = 0 then .finite 0 leastExponent
  else
    let exponent := exponentOf num den
    let (n, d) := scale num den (-exponent)
    let mantissa := roundDiv n d
    -- rounding up may add a digit
    let (mantissa, exponent) :=
      if mantissa = Nat.pow 2 precision then (Nat.pow 2 (precision - 1), exponent + 1)
      else (mantissa, exponent)
    if exponentEnd ≤ exponent then .infinite else .finite mantissa exponent

/-- The magnitude nearest to `digits * 10 ^ exponent`. Exponents that cannot matter are not
computed with. -/
def Magnitude.ofDecimal (digits : Nat) (exponent : Int) : Magnitude :=
  let size : Int := (Text.decimal digits).length + exponent
  if digits = 0 ∨ size < -400 then .finite 0 leastExponent
  else if 400 < size then .infinite
  else match exponent with
    | .ofNat e => .ofRatio (digits * Nat.pow 10 e) 1
    | .negSucc e => .ofRatio digits (Nat.pow 10 (e + 1))

/-! ## Reading -/

/-- Takes one of the given signs off a text: whether it was `-`, and the rest. -/
def takeSign (text : List Char) : Bool × List Char :=
  match text with
  | '-' :: rest => (true, rest)
  | '+' :: rest => (false, rest)
  | _ => (false, text)

/-- A decimal exponent: an optional sign and digits. -/
def exponent? (text : List Char) : Option Int :=
  let (negative, digits) := takeSign text
  if digits.all Text.isDigit then
    (Text.natural? 10 digits).map fun n => if negative then -(n : Int) else n
  else none

/-- A number without a sign: digits with at most one point among them, and an optional exponent. -/
def magnitude? (text : List Char) : Option Magnitude :=
  let isMark (c : Char) := c == 'e' || c == 'E'
  let mantissa := text.takeWhile (!isMark ·)
  let whole := mantissa.takeWhile (· ≠ '.')
  let fraction := (mantissa.dropWhile (· ≠ '.')).drop 1
  let digits := whole ++ fraction
  let exponent := match text.dropWhile (!isMark ·) with
    | [] => some 0
    | _ :: rest => exponent? rest
  if digits.all Text.isDigit then
    match Text.natural? 10 digits, exponent with
    | some n, some e => some (.ofDecimal n (e - fraction.length))
    | _, _ => none
  else none

/-- A number with an optional sign. -/
def Binary64.ofChars? (text : List Char) : Option Binary64 :=
  let (negative, rest) := takeSign text
  (magnitude? rest).map fun magnitude => ⟨negative, magnitude⟩

/-- Whether a number is neither infinite nor undefined. -/
def Binary64.isFinite (x : Binary64) : Bool :=
  match x.magnitude with
  | .finite .. => true
  | _ => false

/-! ## Writing -/

/-- Decimal digits and the exponent of the last one. -/
structure Digits where
  value : Nat
  exponent : Int

/-- The interval of ratios that read back to a number, over a common denominator. -/
structure Interval where
  low : Nat
  value : Nat
  high : Nat
  den : Nat
  /-- Whether the ends belong to it. -/
  closed : Bool

/-- The interval around `mantissa * 2 ^ exponent`; below a power of two the gap is half as wide. -/
def interval (mantissa : Nat) (exponent : Int) : Interval :=
  let narrow := mantissa = Nat.pow 2 (precision - 1) ∧ leastExponent < exponent
  let (unit, den) := scale 1 4 exponent
  { low := (4 * mantissa - if narrow then 1 else 2) * unit
    value := 4 * mantissa * unit
    high := (4 * mantissa + 2) * unit
    den := den
    closed := mantissa % 2 = 0 }

/-- Whether a point over a scaled denominator lies in the interval. -/
def Interval.holds (range : Interval) (grow point : Nat) : Bool :=
  if range.closed then range.low * grow ≤ point && point ≤ range.high * grow
  else range.low * grow < point && point < range.high * grow

/-- The neighbour of the value on the grid of `10 ^ exponent` that lies in the interval, the nearer
of two. -/
def onGrid? (range : Interval) (exponent : Int) : Option Digits :=
  let (step, grow) := match exponent with
    | .ofNat e => (range.den * Nat.pow 10 e, 1)
    | .negSucc e => (range.den, Nat.pow 10 (e + 1))
  let value := range.value * grow
  let below := value / step
  let low := range.holds grow (below * step)
  let high := range.holds grow ((below + 1) * step)
  -- of two that read back the nearer one, and the upper one of equals
  if low && (!high || 2 * (value % step) < step) then some ⟨below, exponent⟩
  else if high then some ⟨below + 1, exponent⟩
  else none

/-- The exponent of the first decimal digit of a positive ratio. -/
def leadingExponent (num den : Nat) : Int :=
  if den ≤ num then (Text.decimal (num / den)).length - 1
  else -((Text.decimal ((den - 1) / num)).length : Int)

/-- The fewest decimal digits that read back to a positive number; seventeen always do. -/
def shortest (mantissa : Nat) (exponent : Int) : Digits :=
  let range := interval mantissa exponent
  let first := leadingExponent range.value range.den
  ((List.range 17).findSome? fun (n : Nat) => onGrid? range (first - n)).getD ⟨mantissa, 0⟩

/-- Digits written positionally. -/
def positional (digits : Digits) : List Char :=
  let text := Text.decimal digits.value
  match digits.exponent with
  | .ofNat e => text ++ List.replicate e '0'
  | .negSucc e =>
    let places := e + 1
    -- zeros in front, so that a digit stands before the point
    let padded := List.replicate (places + 1 - text.length) '0' ++ text
    let fraction := (padded.drop (padded.length - places)).reverse.dropWhile (· = '0')
    let whole := padded.take (padded.length - places)
    if fraction = [] then whole else whole ++ '.' :: fraction.reverse

/-- A number as text: the fewest digits, positionally, and no point in a whole number. -/
def Binary64.chars (x : Binary64) : List Char :=
  let sign := if x.negative then ['-'] else []
  match x.magnitude with
  | .finite 0 _ => sign ++ ['0']
  | .finite mantissa exponent => sign ++ positional (shortest mantissa exponent)
  | .infinite => sign ++ ['i', 'n', 'f']
  | .notANumber => ['N', 'a', 'N']

/-- A number as text, with a decimal part if it is finite. -/
def Binary64.charsWithPoint (x : Binary64) : List Char :=
  if x.isFinite && !x.chars.contains '.' then x.chars ++ ['.', '0'] else x.chars

/-- The nearest whole number of 64 bits: a half goes up, and what is outside goes to the end. -/
def Binary64.toWord64 (x : Binary64) : UInt64 :=
  match x.magnitude with
  | .finite mantissa exponent =>
    if x.negative then 0
    else
      let (num, den) := scale mantissa 1 exponent
      UInt64.ofNat (min ((2 * num + den) / (2 * den)) 0xFFFFFFFFFFFFFFFF)
  | .infinite => if x.negative then 0 else UInt64.ofNat 0xFFFFFFFFFFFFFFFF
  | .notANumber => 0

end Admission.Decimal
