import Admission.Text.Case
import Admission.Text.Fields
import Admission.Text.Numeral
import Admission.Yaml.Document
import Admission.Decimal.Binary64
/-!
# Settings

The layers of a configuration are merged as trees of settings before anything is decoded. A setting
is a scalar, a list or a table; a table has one setting per name. A document becomes a setting by a
leaner reading of plain scalars than elsewhere: integers fit in 64 bits with a sign, leading zeros
do not matter, and only `null`, `~`, `true` and `false` are words of their own.

Main statement: `lookup_put` (a table after a change).
-/

namespace Admission

/-- A tree of settings. -/
inductive Setting where
  | null
  | bool (value : Bool)
  | int (value : Int)
  | float (value : Decimal.Binary64)
  | text (value : String)
  | list (items : List Setting)
  | table (entries : List (String × Setting))
  deriving Repr

namespace Setting

/-! ## Tables -/

/-- The entries of a table; anything else has none. -/
def entries : Setting → List (String × Setting)
  | table entries => entries
  | _ => []

/-- The items of a list; anything else has none. -/
def items : Setting → List Setting
  | list items => items
  | _ => []

/-- Replaces the setting of a name, or adds it at the end. -/
def put (name : String) (value : Setting) : List (String × Setting) → List (String × Setting)
  | [] => [(name, value)]
  | (n, old) :: rest => if n = name then (name, value) :: rest else (n, old) :: put name value rest

/-- **A change of one name is seen under that name only.** -/
theorem lookup_put (name other : String) (value : Setting) (entries : List (String × Setting)) :
    (put name value entries).lookup other =
      if other = name then some value else entries.lookup other := by
  induction entries with
  | nil =>
    by_cases h : other = name
    · simp [put, h]
    · have : (other == name) = false := by simpa using h
      simp [put, h, List.lookup_cons, this]
  | cons e rest ih =>
    obtain ⟨n, old⟩ := e
    by_cases hn : n = name
    · subst hn
      by_cases ho : other = n
      · simp [put, ho]
      · have : (other == n) = false := by simpa using ho
        simp [put, ho, List.lookup_cons, this]
    · by_cases ho : other = n
      · subst ho
        simp [put, hn]
      · have : (other == n) = false := by simpa using ho
        simp [put, hn, List.lookup_cons, this, ih]

mutual

/-- Puts a setting under a name of a table. A table is merged into the one that is there, name by
name in lower case; anything else replaces what is there. What is no table becomes one. -/
def merge (name : String) (root : Setting) : Setting → Setting
  | table incoming =>
    let target := (root.entries.lookup name).getD (table [])
    table (put name (mergeAll target incoming) root.entries)
  | value => table (put name value root.entries)

/-- Merges entries into a setting one after the other. -/
def mergeAll (target : Setting) : List (String × Setting) → Setting
  | [] => target
  | (name, value) :: rest => mergeAll (merge (Text.lower name) target value) rest

end

/-! ## Documents -/

/-- The meaning of a plain scalar. -/
def ofPlain (source : String) : Setting :=
  let chars := source.toList
  let marked := match chars with
    | '0' :: 'x' :: rest => Text.signed64? 16 rest
    | '0' :: 'o' :: rest => Text.signed64? 8 rest
    | '+' :: rest => Text.signed64? 10 rest
    | _ => none
  match marked with
  | some n => int n
  | none =>
    if ["", "~", "null"].contains source then null
    else if source = "true" then bool true
    else if source = "false" then bool false
    else match Text.signed64? 10 chars with
      | some n => int n
      | none =>
        match Decimal.Binary64.ofChars? chars with
        | some x => float x
        | none => text source

/-- The texts of plain scalars that stand for numbers which cannot be written as settings. -/
def unusable : List String :=
  [".inf", ".Inf", ".INF", "+.inf", "+.Inf", "+.INF", "-.inf", "-.Inf", "-.INF", ".nan", ".NaN",
    ".NAN"]

/-- The key of an entry: a text, or an integer by its digits. -/
def keyOf? : Yaml.Node → Option (Setting × String)
  | .scalar source .quoted => some (text source, source)
  | .scalar source .plain =>
    match ofPlain source with
    | text t => some (text t, t)
    | int n => some (int n, toString n)
    | _ => none
  | _ => none

/-- Whether two keys are the same key: texts of one spelling or equal integers. -/
def sameKey : Setting → Setting → Bool
  | text a, text b => a == b
  | int a, int b => a == b
  | _, _ => false

mutual

/-- The setting that a document describes; `none` if it describes none, as when a key comes
twice. -/
def ofNode? : Yaml.Node → Option Setting
  | .scalar source .quoted => some (text source)
  | .scalar source .plain => if unusable.contains source then none else some (ofPlain source)
  | .sequence nodes => (itemsOf? nodes).map list
  | .mapping entries => (entriesOf? [] [] entries).map table

/-- The settings of items. -/
def itemsOf? : List Yaml.Node → Option (List Setting)
  | [] => some []
  | node :: rest =>
    match ofNode? node, itemsOf? rest with
    | some s, some ss => some (s :: ss)
    | _, _ => none

/-- The table of entries, given the keys and the table of the entries before them. -/
def entriesOf? (keys : List Setting) (done : List (String × Setting)) :
    List (Yaml.Node × Yaml.Node) → Option (List (String × Setting))
  | [] => some done
  | (keyNode, valueNode) :: rest =>
    match keyOf? keyNode, ofNode? valueNode with
    | some (key, name), some value =>
      -- keys are compared before they become names, so `1` and `"1"` are two keys
      if keys.any (sameKey key) then none
      else entriesOf? (key :: keys) (put name value done) rest
    | _, _ => none

end

/-- The table in a text; a text without a document is the empty table. -/
def ofYaml? (source : String) : Option (List (String × Setting)) :=
  match Yaml.Node.ofString? source with
  | some [] => some []
  | some [node] =>
    match ofNode? node with
    | some (table entries) => some entries
    | _ => none
  | _ => none

end Setting

end Admission
