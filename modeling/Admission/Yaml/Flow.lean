import Admission.Text.Numeral
import Admission.Yaml.Node
/-!
# Documents on one line

A tree is written in flow style: brackets around items, braces around entries, a comma and a space
between two of them, and a colon and a space behind a key. Between double quotes the printable
characters of ASCII stand for themselves, but for the quote and the backslash, which have a
backslash in front; any other character is escaped by its number.

Plain scalars are written as they are. They are left alone by a reader only if they hold nothing
that has a meaning elsewhere, so `Node.isWritable` admits words only: letters, digits and
underscores. A key has to be a scalar of moderate length.
-/

namespace Admission.Yaml

/-! ## Scalars -/

/-- The last digits of a number in base sixteen, a given number of them. -/
def hexDigits : Nat → Nat → List Char
  | 0, _ => []
  | count + 1, n => Nat.digitChar (n / Nat.pow 16 count % 16) :: hexDigits count n

/-- Whether a character stands for itself between double quotes. -/
def isVerbatim (c : Char) : Bool :=
  0x20 ≤ c.toNat && c.toNat ≤ 0x7E && c != '"' && c != '\\'

/-- A character between double quotes. -/
def escape (c : Char) : List Char :=
  if isVerbatim c then [c]
  else if c = '"' ∨ c = '\\' then ['\\', c]
  else '\\' :: 'U' :: hexDigits 8 c.toNat

/-- A scalar as it is written. -/
def scalarText (text : String) : Style → List Char
  | .plain => text.toList
  | .quoted => '"' :: (text.toList.flatMap escape ++ ['"'])

/-- Whether a character is a letter, a digit or an underscore. -/
def isWordChar (c : Char) : Bool :=
  ('a' ≤ c && c ≤ 'z') || ('A' ≤ c && c ≤ 'Z') || ('0' ≤ c && c ≤ '9') || c == '_'

/-- Whether a text is a word. -/
def isWord (text : List Char) : Bool := !text.isEmpty && text.all isWordChar

/-- Whether a scalar can be written. -/
def isWritableScalar (text : String) : Style → Bool
  | .plain => isWord text.toList
  | .quoted => true

/-! ## Trees -/

mutual

/-- A tree as it is written. -/
def Node.flow : Node → List Char
  | .scalar text style => scalarText text style
  | .sequence items => '[' :: (flowItems items ++ [']'])
  | .mapping entries => '{' :: (flowEntries entries ++ ['}'])

/-- Items as they are written. -/
def flowItems : List Node → List Char
  | [] => []
  | [item] => item.flow
  | item :: rest => item.flow ++ ',' :: ' ' :: flowItems rest

/-- Entries as they are written. -/
def flowEntries : List (Node × Node) → List Char
  | [] => []
  | [(key, value)] => key.flow ++ ':' :: ' ' :: value.flow
  | (key, value) :: rest => key.flow ++ ':' :: ' ' :: (value.flow ++ ',' :: ' ' :: flowEntries rest)

end

theorem flowItems_cons_cons (item next : Node) (rest : List Node) :
    flowItems (item :: next :: rest) = item.flow ++ ',' :: ' ' :: flowItems (next :: rest) := rfl

theorem flowEntries_cons_cons (key value : Node) (next : Node × Node)
    (rest : List (Node × Node)) :
    flowEntries ((key, value) :: next :: rest) =
      key.flow ++ ':' :: ' ' :: (value.flow ++ ',' :: ' ' :: flowEntries (next :: rest)) := rfl

/-- Whether a tree can be a key: a scalar with at most 1024 characters as it is written. -/
def Node.isKey : Node → Bool
  | .scalar text style =>
    isWritableScalar text style && decide ((scalarText text style).length ≤ 1024)
  | _ => false

mutual

/-- Whether a tree can be written. -/
def Node.isWritable : Node → Bool
  | .scalar text style => isWritableScalar text style
  | .sequence items => areWritable items
  | .mapping entries => areWritableEntries entries

/-- Whether all items can be written. -/
def areWritable : List Node → Bool
  | [] => true
  | item :: rest => item.isWritable && areWritable rest

/-- Whether all entries can be written. -/
def areWritableEntries : List (Node × Node) → Bool
  | [] => true
  | (key, value) :: rest => key.isKey && value.isWritable && areWritableEntries rest

end

example : (Node.mapping [(.scalar "on" .plain, .sequence [.scalar "a\"b" .quoted]),
      (.scalar "n" .plain, .scalar "\t" .quoted)]).flow =
    "\x7bon: [\"a\\\"b\"], n: \"\\U00000009\"\x7d".toList := by
  rfl

end Admission.Yaml
