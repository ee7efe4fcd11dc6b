import Admission.Config.Setting
/-!
# Keys of settings

A key names a place in a tree of settings: a name, then steps to a name of a table (`.name`) or to
an item of a list (`[number]`). Setting a key makes tables and lists on the way where there are
none, and fills a list that is too short with nothing. A text that is no such expression is a name
as a whole.
-/

namespace Admission

/-- A step into a setting. -/
inductive KeyStep where
  | child (name : String)
  /-- An item by its number; negative numbers count from the end. -/
  | item (index : Int)
  deriving DecidableEq, Repr

/-- A place in a tree of settings. -/
structure Key where
  name : String
  steps : List KeyStep := []
  deriving DecidableEq, Repr

namespace Key

/-! ## Reading -/

/-- The characters of a name. -/
def isNameChar (c : Char) : Bool :=
  ('a' ≤ c && c ≤ 'z') || ('A' ≤ c && c ≤ 'Z') || ('0' ≤ c && c ≤ '9') ||
    c == '_' || c == '-' || c == ' '

/-- The number between the brackets of an item; blanks around it do not matter. -/
def index? (text : List Char) : Option Int :=
  let blank (c : Char) := c == ' ' || c == '\t'
  let digits := ((text.dropWhile blank).reverse.dropWhile blank).reverse
  if digits.head? = some '+' then none else Text.signed64? 10 digits

/-- Reads steps, each of which takes a character at least. -/
def steps? (text : List Char) : Option (List KeyStep) :=
  match text with
  | [] => some []
  | '.' :: rest =>
    let name := rest.takeWhile isNameChar
    if name = [] then none
    else (steps? (rest.drop name.length)).map (.child (String.ofList name) :: ·)
  | '[' :: rest =>
    let inside := rest.takeWhile (· ≠ ']')
    match rest.drop inside.length, index? inside with
    | ']' :: after, some index =>
      if after.length ≤ rest.length then (steps? after).map (.item index :: ·) else none
    | _, _ => none
  | _ => none
termination_by text.length
decreasing_by all_goals (simp; try omega)

/-- The key that a text stands for. -/
def ofString (text : String) : Key :=
  let chars := text.toList
  let name := chars.takeWhile isNameChar
  match steps? (chars.drop name.length) with
  | some steps => if name = [] then ⟨text, []⟩ else ⟨String.ofList name, steps⟩
  | none => ⟨text, []⟩

/-! ## Setting -/

/-- The place of an item in a list of a given length. -/
def placeOf (index : Int) (length : Nat) : Nat :=
  match index with
  | .ofNat n => n
  | .negSucc n => length - (n + 1)

/-- A list with a place changed, filled with nothing up to there. -/
def changeItem (f : Setting → Setting) (place : Nat) (items : List Setting) : List Setting :=
  let items := items ++ List.replicate (place + 1 - items.length) .null
  items.modify place f

/-- Changes what the steps lead to. -/
def change (f : Setting → Setting) : List KeyStep → Setting → Setting
  | [], setting => f setting
  | .child name :: rest, setting =>
    let old := (setting.entries.lookup name).getD .null
    .table (Setting.put name (change f rest old) setting.entries)
  | .item index :: rest, setting =>
    .list (changeItem (change f rest) (placeOf index setting.items.length) setting.items)

/-- Puts a value at the end of a step. -/
def place (value : Setting) (step : KeyStep) (parent : Setting) : Setting :=
  match step with
  | .child name => parent.merge name value
  | .item index =>
    .list (changeItem (fun _ => value) (placeOf index parent.items.length) parent.items)

/-- Sets a key in a tree. -/
def set (key : Key) (value root : Setting) : Setting :=
  match key.steps.getLast? with
  | none => root.merge key.name value
  | some last =>
    change (place value last) (.child key.name :: key.steps.dropLast) root

/-- A key of one name is merged under that name. -/
@[simp]
theorem set_name (name : String) (value root : Setting) :
    set ⟨name, []⟩ value root = root.merge name value := rfl

end Key

end Admission
