import Admission.Text.Numeral
/-!
# Durations

A duration is a number of nanoseconds whose whole seconds fit in 64 bits. Instants are nanoseconds
since the start of the clock and are plain numbers.

The written form `Duration.text` is in the largest unit that is not zero. Main statement:
`ceilMillis_le_iff` (rounding up to milliseconds).
-/

namespace Admission

/-- A length of time: `2^64` seconds at most, in nanoseconds. -/
structure Duration where
  nanos : Nat
  nanos_lt : nanos < 0x10000000000000000 * 1_000_000_000
  deriving DecidableEq, Repr

namespace Duration

/-- Whole seconds and the nanoseconds beyond them. -/
def ofParts? (secs nanos : Nat) : Option Duration :=
  if h : secs * 1_000_000_000 + nanos < 0x10000000000000000 * 1_000_000_000 then
    some ⟨secs * 1_000_000_000 + nanos, h⟩
  else none

/-- A whole number of seconds. -/
def ofSecs (secs : UInt64) : Duration :=
  ⟨secs.toNat * 1_000_000_000, by have := secs.toNat_lt; omega⟩

/-- A whole number of milliseconds. -/
def ofMillis (millis : UInt64) : Duration :=
  ⟨millis.toNat * 1_000_000, by have := millis.toNat_lt; omega⟩

/-- The whole seconds of a duration. -/
def secs (d : Duration) : Nat := d.nanos / 1_000_000_000

/-- The nanoseconds beyond the whole seconds. -/
def subsecNanos (d : Duration) : Nat := d.nanos % 1_000_000_000

/-- The whole milliseconds of a duration. -/
def millis (d : Duration) : Nat := d.nanos / 1_000_000

/-- The duration in milliseconds, rounded up. -/
def ceilMillis (d : Duration) : Nat := (d.nanos + (1_000_000 - 1)) / 1_000_000

/-- **A number of milliseconds covers a duration exactly from its rounding up on.** -/
theorem ceilMillis_le_iff (d : Duration) (n : Nat) :
    d.ceilMillis ≤ n ↔ d.nanos ≤ n * 1_000_000 := by
  unfold ceilMillis
  omega

/-! ## Written form -/

/-- A unit of the written form: its length in nanoseconds is a power of ten. -/
structure Unit where
  digits : Nat
  label : String

/-- The units, longest first. -/
def units : List Unit := [⟨9, "s"⟩, ⟨6, "ms"⟩, ⟨3, "µs"⟩, ⟨0, "ns"⟩]

/-- The digits of a fraction of `width` digits, without the zeros at its end. -/
def fractionDigits (width value : Nat) : List Char :=
  let digits := Text.decimal value
  let padded := List.replicate (width - digits.length) '0' ++ digits
  (padded.reverse.dropWhile (· = '0')).reverse

/-- A duration in one unit. -/
def textIn (d : Duration) (unit : Unit) : String :=
  let whole := Text.decimal (d.nanos / Nat.pow 10 unit.digits)
  let fraction := fractionDigits unit.digits (d.nanos % Nat.pow 10 unit.digits)
  String.ofList (if fraction = [] then whole else whole ++ '.' :: fraction) ++ unit.label

/-- A duration in the largest unit of which it has at least one; nothing at all is `0ns`. -/
def text (d : Duration) : String :=
  match units.find? fun unit => Nat.pow 10 unit.digits ≤ d.nanos with
  | some unit => d.textIn unit
  | none => d.textIn ⟨0, "ns"⟩

end Duration

end Admission
