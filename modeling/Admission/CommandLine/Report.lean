import Admission.Decision
import Admission.Policy
/-!
# Reports

The program reports in lines, each of which is one JSON object whose members stand in the order of
their names: the size of a policy, and the outcome of an attempt. A fault of the store is reported
and is no verdict, so an attempt that met one is not throttled.
-/

namespace Admission.CommandLine

/-! ## Lines -/

/-- A member of a line. -/
inductive Cell where
  | truth (value : Bool)
  | number (value : Nat)
  | text (value : String)
  deriving DecidableEq, Repr

/-- A control character by its code. -/
def controlEscape (c : Char) : List Char :=
  ['\\', 'u', '0', '0', Nat.digitChar (c.toNat / 16), Nat.digitChar (c.toNat % 16)]

/-- A character within a text of a line. -/
def lineEscape (c : Char) : List Char :=
  if c = '"' then ['\\', '"']
  else if c = '\\' then ['\\', '\\']
  else if c = '\n' then ['\\', 'n']
  else if c = '\r' then ['\\', 'r']
  else if c = '\t' then ['\\', 't']
  else if c.toNat = 0x08 then ['\\', 'b']
  else if c.toNat = 0x0C then ['\\', 'f']
  else if c.toNat < 0x20 then controlEscape c
  else [c]

/-- A text of a line between quotes. -/
def lineText (text : String) : String :=
  String.ofList ('"' :: text.toList.flatMap lineEscape ++ ['"'])

/-- A member as it is written. -/
def Cell.written : Cell → String
  | truth value => if value then "true" else "false"
  | number value => toString value
  | text value => lineText value

/-- The line with the given members. -/
def line (members : List (String × Cell)) : String :=
  let written := members.map fun (name, cell) => lineText name ++ ":" ++ cell.written
  "\x7b" ++ String.intercalate "," written ++ "\x7d"

/-- No character of a text ends the line. -/
theorem newline_notMem_lineEscape (c : Char) : '\n' ∉ lineEscape c := by
  have digits : ∀ n < 16, Nat.digitChar n ≠ '\n' := by decide
  unfold lineEscape
  repeat' split
  all_goals try decide
  · have h1 := digits (c.toNat / 16) (by omega)
    have h2 := digits (c.toNat % 16) (by omega)
    simp [controlEscape, h1.symm, h2.symm]
  · simp_all [eq_comm]

/-! ## What is reported -/

/-- The line that sums up a policy. -/
def summary (policy : Policy) : String :=
  line [("blocklist", .number policy.access.blocklist.size),
    ("blocklist_cidrs", .number policy.access.ranges.length),
    ("rules", .number policy.rules.length), ("safelist", .number policy.access.safelist.size)]

/-- An attempt and what came of it. -/
structure Attempt where
  number : Nat
  outcome : Except StorageFault Decision

namespace Attempt

/-- Whether the attempt was denied. -/
def throttled (attempt : Attempt) : Bool :=
  match attempt.outcome with
  | .ok decision => decision.denies
  | .error _ => false

/-- The line that reports an attempt. -/
def report (attempt : Attempt) : String :=
  let told := match attempt.outcome with
    | .ok decision => ("decision", Cell.text decision.text)
    | .error fault => ("error", Cell.text (Error.message (.storage fault)))
  line [("attempt", .number attempt.number), told, ("throttled", .truth attempt.throttled)]

end Attempt

end Admission.CommandLine
