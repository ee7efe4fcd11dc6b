import Admission.Config.Basic
import Admission.Text.Quoted
import Admission.Yaml.Document
import Admission.Yaml.Scalar
/-!
# Configurations from documents

A configuration is decoded from a document tree. Fields are read in the order in which they are
written, and the first one that is wrong is reported with the way to it from the root; then a field
that has to be there and is not. Fields with other names are passed over, and a field that comes
twice is refused. Nothing at all stands for a record or a list without entries.

A record is described by its fields: a name and a check for each (`Field`). `readFields` checks the
entries in order, and the record is then put together by looking its fields up, so the result
depends on the entries only through `lookup`.
-/

namespace Admission.Config

open Yaml

/-! ## What can be wrong -/

/-- What was found. -/
inductive Found where
  | unit
  | bool (value : Bool)
  | int (value : Int)
  | float (value : Decimal.Binary64)
  | text (value : String)
  | sequence
  | map
  deriving DecidableEq, Repr

/-- What a document tree is, seen from outside. -/
def Found.ofNode : Node → Found
  | .sequence _ => sequence
  | .mapping _ => map
  | .scalar source style =>
    match Scalar.meaning source style with
    | .null => unit
    | .bool b => bool b
    | .int n => int n
    | .wide n => int n
    | .float x => float x
    | .text t => Found.text t

/-- A code in a message. -/
def code (text : String) : String := "\x60" ++ text ++ "\x60"

/-- The wording of what was found. -/
def Found.wording : Found → String
  | unit => "unit value"
  | bool b => "boolean " ++ code (if b then "true" else "false")
  | int n => "integer " ++ code (toString n)
  | float x => "floating point " ++ code (String.ofList x.charsWithPoint)
  | text t => "string " ++ Text.quoted t
  | sequence => "sequence"
  | map => "map"

/-- What was wanted. -/
inductive Wanted where
  | word64
  | text
  | sequence
  | record (name : String)
  | fieldName
  | tag
  deriving DecidableEq, Repr

/-- The wording of what was wanted. -/
def Wanted.wording : Wanted → String
  | word64 => "u64"
  | text => "a string"
  | sequence => "a sequence"
  | record name => "struct " ++ name
  | fieldName => "field identifier"
  | tag => "a YAML tag starting with '!'"

/-- What is wrong at a place. -/
inductive Fault where
  | mismatch (found : Found) (wanted : Wanted)
  | missing (field : String)
  | repeated (field : String)
  | unknownBackend (name : String)
  deriving DecidableEq, Repr

/-- The wording of a fault. -/
def Fault.wording : Fault → String
  | mismatch found wanted =>
    "invalid type: " ++ found.wording ++ ", expected " ++ wanted.wording
  | missing field => "missing field " ++ code field
  | repeated field => "duplicate field " ++ code field
  | unknownBackend name =>
    "unknown variant " ++ code name ++ ", expected " ++ code StorageBackend.memory.name ++ " or " ++
      code StorageBackend.redis.name

/-- A step from a tree into one of its parts. -/
inductive Step where
  | field (name : String)
  | item (index : Nat)
  deriving DecidableEq, Repr

/-- A fault and the way to it from the root. -/
structure DecodeError where
  way : List Step := []
  fault : Fault
  deriving DecidableEq, Repr

/-- The wording of a way: names between points, and numbers in brackets. -/
def wayText : List Step → String
  | [] => ""
  | .field name :: rest =>
    match rest with
    | .field _ :: _ => name ++ "." ++ wayText rest
    | _ => name ++ wayText rest
  | .item index :: rest =>
    let shown := "[" ++ toString index ++ "]"
    match rest with
    | .field _ :: _ => shown ++ "." ++ wayText rest
    | _ => shown ++ wayText rest

/-- The wording of an error. -/
def DecodeError.wording (error : DecodeError) : String :=
  if error.way = [] then error.fault.wording
  else wayText error.way ++ ": " ++ error.fault.wording

/-- A decoder of a part of a document. -/
abbrev Decoded := Except DecodeError

/-- An error within a part, seen from the whole. -/
def within {α : Type} (step : Step) : Decoded α → Decoded α
  | .ok a => .ok a
  | .error e => .error { e with way := step :: e.way }

/-- Refuses a tree of the wrong kind. -/
def refuse {α : Type} (node : Node) (wanted : Wanted) : Decoded α :=
  .error { fault := .mismatch (.ofNode node) wanted }

/-! ## Scalars and lists -/

/-- Any scalar, by its text. -/
def textOf (node : Node) : Decoded String :=
  match node with
  | .scalar text _ => .ok text
  | _ => refuse node .text

/-- Any scalar but a plain one that means nothing. -/
def optionalTextOf (node : Node) : Decoded (Option String) :=
  match node with
  | .scalar text .plain => .ok (if Scalar.nullTexts.contains text then none else some text)
  | node => (textOf node).map some

/-- A plain integer of 64 bits without a minus sign. -/
def word64Of (node : Node) : Decoded UInt64 :=
  match node with
  | .scalar text .plain =>
    match Scalar.unsigned? text.toList with
    | some n => if n < 0x10000000000000000 then .ok (UInt64.ofNat n) else refuse node .word64
    | none => refuse node .word64
  | _ => refuse node .word64

/-- Items one after the other, the first of which has a place. -/
def itemsFrom {α : Type} (decode : Node → Decoded α) : Nat → List Node → Decoded (List α)
  | _, [] => .ok []
  | place, node :: rest =>
    match within (.item place) (decode node) with
    | .error e => .error e
    | .ok a => (itemsFrom decode (place + 1) rest).map (a :: ·)

/-- A list; nothing at all is the list without items. -/
def listOf {α : Type} (decode : Node → Decoded α) (node : Node) : Decoded (List α) :=
  match node with
  | .sequence nodes => itemsFrom decode 0 nodes
  | .scalar "" .plain => .ok []
  | _ => refuse node .sequence

/-- The name of a backend. -/
def backendOf (node : Node) : Decoded StorageBackend :=
  match node with
  | .scalar name _ =>
    match StorageBackend.ofName? name with
    | some b => .ok b
    | none => .error { fault := .unknownBackend name }
  | _ => refuse node .tag

/-! ## Records -/

/-- A field of a record: its name and the check of its value. -/
structure Field where
  name : String
  check : Node → Decoded Unit

/-- A field whose value is decoded in a certain way. -/
def Field.of {α : Type} (name : String) (decode : Node → Decoded α) : Field :=
  ⟨name, fun node => (decode node).map fun _ => ()⟩

/-- The fields of a record that are written, in order. -/
abbrev Written := List (String × Node)

/-- Checks one entry of a record and adds it to those before it. -/
def readEntry (fields : List Field) (written : Written) (entry : Node × Node) : Decoded Written :=
  match entry.1 with
  | .scalar name _ =>
    match fields.find? fun field => field.name == name with
    | none => .ok written
    | some field =>
      if (written.lookup name).isSome then .error { fault := .repeated name }
      else (within (.field name) (field.check entry.2)).map fun _ => written ++ [(name, entry.2)]
  | key => refuse key .fieldName

/-- Checks the entries of a record; nothing at all is a record without entries. -/
def readFields (record : String) (fields : List Field) (node : Node) : Decoded Written :=
  match node with
  | .mapping entries => entries.foldlM (readEntry fields) []
  | .scalar "" .plain => .ok []
  | _ => refuse node (.record record)

/-- A field that may be left out. -/
def fieldOr {α : Type} (written : Written) (name : String) (decode : Node → Decoded α)
    (otherwise : α) : Decoded α :=
  match written.lookup name with
  | some node => within (.field name) (decode node)
  | none => .ok otherwise

/-- A field that has to be there. -/
def fieldOf {α : Type} (written : Written) (name : String) (decode : Node → Decoded α) :
    Decoded α :=
  match written.lookup name with
  | some node => within (.field name) (decode node)
  | none => .error { fault := .missing name }

/-- The storage section. -/
def storageOf (node : Node) : Decoded StorageConfig := do
  let written ← readFields "StorageConfig"
    [.of "backend" backendOf, .of "redis_url" textOf, .of "timeout_ms" word64Of] node
  let standard : StorageConfig := {}
  pure {
    backend := ← fieldOr written "backend" backendOf standard.backend
    redisUrl := ← fieldOr written "redis_url" textOf standard.redisUrl
    timeoutMillis := ← fieldOr written "timeout_ms" word64Of standard.timeoutMillis }

/-- The identity section. -/
def identityOf (node : Node) : Decoded IdentityConfig := do
  let written ← readFields "IdentityConfig" [.of "trusted_proxies" (listOf textOf)] node
  let standard : IdentityConfig := {}
  pure {
    trustedProxies := ← fieldOr written "trusted_proxies" (listOf textOf) standard.trustedProxies }

/-- The access section. -/
def accessOf (node : Node) : Decoded AccessConfig := do
  let written ← readFields "AccessConfig"
    [.of "safelist" (listOf textOf), .of "blocklist" (listOf textOf),
      .of "blocklist_cidrs" (listOf textOf)] node
  let standard : AccessConfig := {}
  pure {
    safelist := ← fieldOr written "safelist" (listOf textOf) standard.safelist
    blocklist := ← fieldOr written "blocklist" (listOf textOf) standard.blocklist
    blocklistCidrs := ← fieldOr written "blocklist_cidrs" (listOf textOf) standard.blocklistCidrs }

/-- A rule. -/
def ruleOf (node : Node) : Decoded RuleConfig := do
  let written ← readFields "RuleConfig"
    [.of "name" optionalTextOf, .of "path" textOf, .of "method" textOf, .of "key" textOf,
      .of "limit" word64Of, .of "period_secs" word64Of] node
  let name ← fieldOr written "name" optionalTextOf none
  let path ← fieldOr written "path" textOf ""
  let method ← fieldOr written "method" textOf ""
  let key ← fieldOf written "key" textOf
  let limit ← fieldOf written "limit" word64Of
  let periodSecs ← fieldOf written "period_secs" word64Of
  pure { name, path, method, key, limit, periodSecs }

/-- A whole configuration. -/
def ofNode (node : Node) : Decoded Config := do
  let written ← readFields "GatekeeperConfig"
    [.of "storage" storageOf, .of "identity" identityOf, .of "access" accessOf,
      .of "rules" (listOf ruleOf)] node
  let standard : Config := {}
  pure {
    storage := ← fieldOr written "storage" storageOf standard.storage
    identity := ← fieldOr written "identity" identityOf standard.identity
    access := ← fieldOr written "access" accessOf standard.access
    rules := ← fieldOr written "rules" (listOf ruleOf) standard.rules }

/-! ## Texts and files -/

/-- The configuration in a text that holds one document at most. A document without a meaning of
its own counts as malformed once it turns out to be no configuration. -/
def ofYaml (text : String) : Except Error Config :=
  match Node.ofString? text with
  | none => .error (.config .malformed)
  | some [] => .ok {}
  | some [node] =>
    match ofNode node with
    | .ok config => .ok config
    | .error e =>
      .error (.config (if node.isValue then .undecodable e.wording else .malformed))
  | some _ => .error (.config .malformed)

/-- The configuration in a file; `none` stands for a file that is not there. -/
def ofFile (contents : Option ByteArray) : Except Error Config :=
  match contents with
  | none => .error (.file .missing)
  | some bytes =>
    match String.fromUTF8? bytes with
    | none => .error (.file .notUtf8)
    | some text => ofYaml text

end Admission.Config
