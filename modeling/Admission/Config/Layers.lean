import Admission.Config.Basic
import Admission.Config.Key
/-!
# Layered configurations

A configuration is put together from a file and from environment variables, the variables on top. A
variable counts if its name in lower case starts with `gatekeeper__`; the rest of the name, with a
point for each `__`, is the key it sets, and its value is a text. The settings are converted with
some freedom: texts that write numbers or truth values will do where these are wanted, and the
other way round.

What a file says is the list of its entries, and layering does not ask in which format they are
written: `loadBy` takes a reader of entries, and `load` is what it is for YAML.
-/

namespace Admission.Config

/-! ## Conversions -/

/-- A text from any scalar. -/
def textFrom : Setting → Option String
  | .text t => some t
  | .bool b => some (if b then "true" else "false")
  | .int n => some (toString n)
  | .float x => some (String.ofList x.chars)
  | _ => none

/-- The words for one, and for zero. -/
def wordNumber? (word : String) : Option UInt64 :=
  if ["true", "on", "yes"].contains word then some 1
  else if ["false", "off", "no"].contains word then some 0
  else none

/-- A number of 64 bits from a number, a truth value, or a text that writes one of them. -/
def word64From : Setting → Option UInt64
  | .int n => if 0 ≤ n ∧ n < 0x10000000000000000 then some (UInt64.ofNat n.toNat) else none
  | .float x => some x.toWord64
  | .bool b => some (if b then 1 else 0)
  | .text t =>
    match wordNumber? (Text.lower t) with
    | some n => some n
    | none => Text.word64? t.toList
  | _ => none

/-- A list from a list. -/
def listFrom {α : Type} (convert : Setting → Option α) : Setting → Option (List α)
  | .list items => items.mapM convert
  | _ => none

/-- A value that may be nothing. -/
def optionFrom {α : Type} (convert : Setting → Option α) : Setting → Option (Option α)
  | .null => some none
  | setting => (convert setting).map some

/-- A backend from its name in any case, or from a table with that name alone. -/
def backendFrom : Setting → Option StorageBackend
  | .text t => StorageBackend.ofName? (Text.lower t)
  | .table [(name, _)] => StorageBackend.ofName? (Text.lower name)
  | _ => none

/-- The fields of a record: a table by name, or a list in the order of the names. -/
def fieldsFrom (names : List String) : Setting → Option (List (String × Setting))
  | .table entries => some entries
  | .list items => some (names.zip items)
  | _ => none

/-- A field that may be left out. -/
def fieldFromOr {α : Type} (fields : List (String × Setting)) (name : String)
    (convert : Setting → Option α) (otherwise : α) : Option α :=
  match fields.lookup name with
  | some setting => convert setting
  | none => some otherwise

/-- A field that has to be there. -/
def fieldFrom {α : Type} (fields : List (String × Setting)) (name : String)
    (convert : Setting → Option α) : Option α :=
  (fields.lookup name).bind convert

/-- The storage section. -/
def storageFrom (setting : Setting) : Option StorageConfig := do
  let fields ← fieldsFrom ["backend", "redis_url", "timeout_ms"] setting
  let standard : StorageConfig := {}
  pure {
    backend := ← fieldFromOr fields "backend" backendFrom standard.backend
    redisUrl := ← fieldFromOr fields "redis_url" textFrom standard.redisUrl
    timeoutMillis := ← fieldFromOr fields "timeout_ms" word64From standard.timeoutMillis }

/-- The identity section. -/
def identityFrom (setting : Setting) : Option IdentityConfig := do
  let fields ← fieldsFrom ["trusted_proxies"] setting
  let standard : IdentityConfig := {}
  pure {
    trustedProxies :=
      ← fieldFromOr fields "trusted_proxies" (listFrom textFrom) standard.trustedProxies }

/-- The access section. -/
def accessFrom (setting : Setting) : Option AccessConfig := do
  let fields ← fieldsFrom ["safelist", "blocklist", "blocklist_cidrs"] setting
  let standard : AccessConfig := {}
  pure {
    safelist := ← fieldFromOr fields "safelist" (listFrom textFrom) standard.safelist
    blocklist := ← fieldFromOr fields "blocklist" (listFrom textFrom) standard.blocklist
    blocklistCidrs :=
      ← fieldFromOr fields "blocklist_cidrs" (listFrom textFrom) standard.blocklistCidrs }

/-- A rule. -/
def ruleFrom (setting : Setting) : Option RuleConfig := do
  let fields ← fieldsFrom ["name", "path", "method", "key", "limit", "period_secs"] setting
  let name ← fieldFromOr fields "name" (optionFrom textFrom) none
  let path ← fieldFromOr fields "path" textFrom ""
  let method ← fieldFromOr fields "method" textFrom ""
  let key ← fieldFrom fields "key" textFrom
  let limit ← fieldFrom fields "limit" word64From
  let periodSecs ← fieldFrom fields "period_secs" word64From
  pure { name, path, method, key, limit, periodSecs }

/-- A whole configuration. -/
def ofSetting (setting : Setting) : Option Config := do
  let fields ← fieldsFrom ["storage", "identity", "access", "rules"] setting
  let standard : Config := {}
  pure {
    storage := ← fieldFromOr fields "storage" storageFrom standard.storage
    identity := ← fieldFromOr fields "identity" identityFrom standard.identity
    access := ← fieldFromOr fields "access" accessFrom standard.access
    rules := ← fieldFromOr fields "rules" (listFrom ruleFrom) standard.rules }

/-! ## Layers -/

/-- Where the first layer comes from. -/
inductive Source where
  /-- There is no file. -/
  | nowhere
  /-- There should be a file, but it cannot be read. -/
  | unreadable
  /-- A file with this text. -/
  | file (text : String)
  deriving DecidableEq, Repr

/-- What the name of an environment variable starts with, in lower case. -/
def variableMark : List Char := "gatekeeper__".toList

/-- A text with a point for each double underscore. -/
def pointed : List Char → List Char
  | '_' :: '_' :: rest => '.' :: pointed rest
  | c :: rest => c :: pointed rest
  | [] => []

/-- The key that an environment variable sets, if it counts. -/
def variableKey? (name : String) : Option Key :=
  (Text.after? variableMark (Text.lower name).toList).map fun rest =>
    Key.ofString (String.ofList (pointed rest))

/-- The entries of a file on top of a tree; their names are keys. -/
def layFile (entries : List (String × Setting)) (root : Setting) : Setting :=
  entries.foldl (fun root (name, value) => (Key.ofString (Text.lower name)).set value root) root

/-- The variables that count on top of a tree. -/
def layVariables (environment : List (String × String)) (root : Setting) : Setting :=
  environment.foldl (fun root (name, value) =>
    match variableKey? name with
    | some key => key.set (.text value) root
    | none => root) root

/-- The first layer, where a file is read into its entries. -/
def Source.entries? (read : String → Option (List (String × Setting))) :
    Source → Option (List (String × Setting))
  | nowhere => some []
  | unreadable => none
  | file text => read text

/-- The configuration of a file in the format of a reader and environment variables. -/
def loadBy (read : String → Option (List (String × Setting))) (source : Source)
    (environment : List (String × String)) : Except Error Config :=
  match source.entries? read with
  | none => .error (.config .unusable)
  | some entries =>
    match ofSetting (layVariables environment (layFile entries (.table []))) with
    | some config => .ok config
    | none => .error (.config .unusable)

/-- The configuration of a YAML file and environment variables. -/
def load (source : Source) (environment : List (String × String)) : Except Error Config :=
  loadBy Setting.ofYaml? source environment

/-- **A variable whose name does not start with the mark changes nothing.** -/
theorem layVariables_cons_of_none {name value : String} {rest : List (String × String)}
    {root : Setting} (h : variableKey? name = none) :
    layVariables ((name, value) :: rest) root = layVariables rest root := by
  simp [layVariables, h]

end Admission.Config
