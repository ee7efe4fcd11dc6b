import Admission.Config.Basic
import Admission.Yaml.Flow
/-!
# Configurations as documents

The document of a configuration spells out every field: a record has all its names in order, a text
stands between quotes, a number is its decimal digits, and a rule without a name has `null` there.
The names of the fields are written plain or between quotes.
-/

namespace Admission.Yaml.Node

/-- A text. -/
def ofText (text : String) : Node := .scalar text .quoted

/-- A text, or nothing. -/
def ofText? : Option String → Node
  | some text => ofText text
  | none => .scalar "null" .plain

/-- A list of texts. -/
def ofTexts (texts : List String) : Node := .sequence (texts.map ofText)

/-- A number. -/
def ofWord64 (n : UInt64) : Node := .scalar (String.ofList (Text.decimal n.toNat)) .plain

/-- The entries of a record. -/
def entries (keys : Style) (fields : List (String × Node)) : List (Node × Node) :=
  fields.map fun (name, value) => (.scalar name keys, value)

/-- A record: its fields in order. -/
def record (keys : Style) (fields : List (String × Node)) : Node := .mapping (entries keys fields)

theorem entries_cons (keys : Style) (name : String) (value : Node)
    (rest : List (String × Node)) :
    entries keys ((name, value) :: rest) = (.scalar name keys, value) :: entries keys rest := rfl

end Admission.Yaml.Node

namespace Admission

open Yaml (Node Style)

/-- The fields of the storage section. -/
def StorageConfig.fields (config : StorageConfig) : List (String × Node) :=
  [("backend", .ofText config.backend.name), ("redis_url", .ofText config.redisUrl),
    ("timeout_ms", .ofWord64 config.timeoutMillis)]

/-- The fields of the identity section. -/
def IdentityConfig.fields (config : IdentityConfig) : List (String × Node) :=
  [("trusted_proxies", .ofTexts config.trustedProxies)]

/-- The fields of the access section. -/
def AccessConfig.fields (config : AccessConfig) : List (String × Node) :=
  [("safelist", .ofTexts config.safelist), ("blocklist", .ofTexts config.blocklist),
    ("blocklist_cidrs", .ofTexts config.blocklistCidrs)]

/-- The fields of a rule. -/
def RuleConfig.fields (config : RuleConfig) : List (String × Node) :=
  [("name", .ofText? config.name), ("path", .ofText config.path), ("method", .ofText config.method),
    ("key", .ofText config.key), ("limit", .ofWord64 config.limit),
    ("period_secs", .ofWord64 config.periodSecs)]

/-- The sections of a configuration. -/
def Config.fields (keys : Style) (config : Config) : List (String × Node) :=
  [("storage", .record keys config.storage.fields),
    ("identity", .record keys config.identity.fields),
    ("access", .record keys config.access.fields),
    ("rules", .sequence (config.rules.map fun rule => .record keys rule.fields))]

/-- The document tree of a configuration. -/
def Config.tree (keys : Style) (config : Config) : Node := .record keys (config.fields keys)

/-- The document of a configuration. -/
def Config.document (keys : Style) (config : Config) : String :=
  .ofList (config.tree keys).flow

example : Config.document .plain { access := { safelist := ["::1"] } } =
    "\x7bstorage: \x7bbackend: \"memory\", redis_url: \"redis://127.0.0.1:6379\", " ++
      "timeout_ms: 250\x7d, identity: \x7btrusted_proxies: [\"*\"]\x7d, " ++
      "access: \x7bsafelist: [\"::1\"], blocklist: [], blocklist_cidrs: []\x7d, " ++
      "rules: []\x7d" := by
  decide +kernel

end Admission
