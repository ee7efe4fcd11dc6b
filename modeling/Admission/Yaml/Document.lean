import Admission.Yaml.Token
/-!
# Documents

Tokens become trees. The grammar is read by recursive descent; each rule hands the tokens that are
left to the next one, and every call works on fewer tokens, so the recursion is on their number.
Where an item, a key or a value is missing, `Node.nothing` stands.

An anchor names the node after it for the rest of the document, and an alias is that node; an alias
without an anchor before it is malformed.
-/

namespace Admission.Yaml

/-- The nodes that have been named, latest first. -/
abbrev Anchors := List (String × Node)

/-- A node that was read, the names known after it, and the tokens that are left. -/
structure Parsed (α : Type) where
  result : α
  anchors : Anchors
  rest : List Token

/-- Whether the tokens start with one of the given ones. -/
def startsWith (tokens : List Token) (heads : List Token) : Bool :=
  match tokens with
  | [] => false
  | token :: _ => heads.contains token

/-- Whether a node without an anchor can start here. -/
def startsNode (block indentless : Bool) : List Token → Bool
  | .scalar .. :: _ | .flowSequence :: _ | .flowMapping :: _ => true
  | .blockEntry :: _ => indentless
  | .blockSequence :: _ | .blockMapping :: _ => block
  | _ => false

/-- A sequence of items that were read last one first. -/
def sequence (parsed : Parsed (List Node)) : Parsed Node :=
  { parsed with result := .sequence parsed.result.reverse }

/-- A mapping of entries that were read last one first. -/
def mapping (parsed : Parsed (List (Node × Node))) : Parsed Node :=
  { parsed with result := .mapping parsed.result.reverse }

mutual

/-- A node. Block collections may start where `block` holds, and a block sequence that is not
indented where `indentless` does. -/
def node? (block indentless : Bool) (anchors : Anchors) (tokens : List Token) :
    Option (Parsed Node) :=
  match tokens with
  | .alias name :: rest => (anchors.lookup name).map fun node => ⟨node, anchors, rest⟩
  | .anchor name :: rest =>
    -- a name without a node after it stands for nothing
    if startsNode block indentless rest then
      (content? block indentless anchors rest).map fun parsed =>
        { parsed with anchors := (name, parsed.result) :: parsed.anchors }
    else some ⟨.nothing, (name, .nothing) :: anchors, rest⟩
  | tokens => content? block indentless anchors tokens
termination_by (tokens.length, 2)

/-- A node without an anchor. -/
def content? (block indentless : Bool) (anchors : Anchors) (tokens : List Token) :
    Option (Parsed Node) :=
  match tokens with
  | .scalar text style :: rest => some ⟨.scalar text style, anchors, rest⟩
  | .flowSequence :: rest => (flowItems? anchors [] rest).map sequence
  | .flowMapping :: rest => (flowEntries? anchors [] rest).map mapping
  | .blockSequence :: rest => if block then (blockItems? anchors [] rest).map sequence else none
  | .blockMapping :: rest => if block then (blockEntries? anchors [] rest).map mapping else none
  | .blockEntry :: rest =>
    if indentless then (plainItems? anchors [] (.blockEntry :: rest)).map sequence else none
  | _ => none
termination_by (tokens.length, 1)

/-- A node, or nothing if one of the given tokens comes first. -/
def nodeUnless? (heads : List Token) (block indentless : Bool) (anchors : Anchors)
    (tokens : List Token) : Option (Parsed Node) :=
  if startsWith tokens heads then some ⟨.nothing, anchors, tokens⟩
  else node? block indentless anchors tokens
termination_by (tokens.length, 3)

/-- The value after a key, or nothing if there is none. -/
def valueUnless? (heads : List Token) (block indentless : Bool) (anchors : Anchors)
    (tokens : List Token) : Option (Parsed Node) :=
  match tokens with
  | .value :: rest => nodeUnless? heads block indentless anchors rest
  | tokens => some ⟨.nothing, anchors, tokens⟩
termination_by (tokens.length, 0)

/-- The items of an indented block sequence. -/
def blockItems? (anchors : Anchors) (items : List Node) (tokens : List Token) :
    Option (Parsed (List Node)) :=
  match tokens with
  | .blockEntry :: rest =>
    match nodeUnless? [.blockEntry, .blockEnd] true false anchors rest with
    | none => none
    | some item =>
      if item.rest.length ≤ rest.length then
        blockItems? item.anchors (item.result :: items) item.rest
      else none
  | .blockEnd :: rest => some ⟨items, anchors, rest⟩
  | _ => none
termination_by (tokens.length, 0)

/-- The items of a block sequence that is not indented; it ends with the last dash. -/
def plainItems? (anchors : Anchors) (items : List Node) (tokens : List Token) :
    Option (Parsed (List Node)) :=
  match tokens with
  | .blockEntry :: rest =>
    match nodeUnless? [.blockEntry, .key, .value, .blockEnd] true false anchors rest with
    | none => none
    | some item =>
      if item.rest.length ≤ rest.length then
        plainItems? item.anchors (item.result :: items) item.rest
      else none
  | tokens => some ⟨items, anchors, tokens⟩
termination_by (tokens.length, 0)

/-- The entries of a block mapping. -/
def blockEntries? (anchors : Anchors) (entries : List (Node × Node)) (tokens : List Token) :
    Option (Parsed (List (Node × Node))) :=
  match tokens with
  | .key :: rest =>
    match nodeUnless? [.key, .value, .blockEnd] true true anchors rest with
    | none => none
    | some key =>
      if key.rest.length ≤ rest.length then
        match valueUnless? [.key, .value, .blockEnd] true true key.anchors key.rest with
        | none => none
        | some value =>
          if value.rest.length ≤ rest.length then
            blockEntries? value.anchors ((key.result, value.result) :: entries) value.rest
          else none
      else none
  | .blockEnd :: rest => some ⟨entries, anchors, rest⟩
  | _ => none
termination_by (tokens.length, 0)

/-- An item of a flow sequence; a key makes it a mapping of one entry. -/
def flowItem? (anchors : Anchors) (tokens : List Token) : Option (Parsed Node) :=
  match tokens with
  | .key :: rest =>
    match nodeUnless? [.value, .flowEntry, .flowSequenceEnd] false false anchors rest with
    | none => none
    | some key =>
      if key.rest.length ≤ rest.length then
        (valueUnless? [.flowEntry, .flowSequenceEnd] false false key.anchors key.rest).map
          fun value => { value with result := .mapping [(key.result, value.result)] }
      else none
  | tokens => node? false false anchors tokens
termination_by (tokens.length, 3)

/-- The items of a flow sequence. -/
def flowItems? (anchors : Anchors) (items : List Node) (tokens : List Token) :
    Option (Parsed (List Node)) :=
  match tokens with
  | .flowSequenceEnd :: rest => some ⟨items, anchors, rest⟩
  | tokens =>
    match flowItem? anchors tokens with
    | none => none
    | some item =>
      match item.rest with
      | .flowSequenceEnd :: rest => some ⟨item.result :: items, item.anchors, rest⟩
      | .flowEntry :: rest =>
        if rest.length < tokens.length then
          flowItems? item.anchors (item.result :: items) rest
        else none
      | _ => none
termination_by (tokens.length, 4)

/-- An entry of a flow mapping; a node alone is a key with nothing. -/
def flowEntry? (anchors : Anchors) (tokens : List Token) : Option (Parsed (Node × Node)) :=
  match tokens with
  | .key :: rest =>
    match nodeUnless? [.value, .flowEntry, .flowMappingEnd] false false anchors rest with
    | none => none
    | some key =>
      if key.rest.length ≤ rest.length then
        (valueUnless? [.flowEntry, .flowMappingEnd] false false key.anchors key.rest).map
          fun value => { value with result := (key.result, value.result) }
      else none
  | tokens =>
    (node? false false anchors tokens).map fun key =>
      { key with result := (key.result, .nothing) }
termination_by (tokens.length, 3)

/-- The entries of a flow mapping. -/
def flowEntries? (anchors : Anchors) (entries : List (Node × Node)) (tokens : List Token) :
    Option (Parsed (List (Node × Node))) :=
  match tokens with
  | .flowMappingEnd :: rest => some ⟨entries, anchors, rest⟩
  | tokens =>
    match flowEntry? anchors tokens with
    | none => none
    | some entry =>
      match entry.rest with
      | .flowMappingEnd :: rest => some ⟨entry.result :: entries, entry.anchors, rest⟩
      | .flowEntry :: rest =>
        if rest.length < tokens.length then
          flowEntries? entry.anchors (entry.result :: entries) rest
        else none
      | _ => none
termination_by (tokens.length, 4)

end

/-! ## Streams -/

/-- The tokens after the markers that end a document. -/
def skipEnds : List Token → List Token
  | .documentEnd :: rest => skipEnds rest
  | tokens => tokens

/-- The node of a document after its marker, or nothing if there is none. -/
def contentOf? (tokens : List Token) : Option (Parsed Node) :=
  if tokens = [] then some ⟨.nothing, [], []⟩
  else nodeUnless? [.documentStart, .documentEnd] true false [] tokens

/-- The documents after the first one; each starts with its marker. -/
def furtherDocuments? (tokens : List Token) : Option (List Node) :=
  match skipEnds tokens with
  | [] => some []
  | .documentStart :: rest =>
    match contentOf? rest with
    | none => none
    | some document =>
      if document.rest.length < tokens.length then
        (furtherDocuments? document.rest).map (document.result :: ·)
      else none
  | _ => none
termination_by tokens.length

/-- The documents of tokens; the first one may do without its marker. -/
def documents? (tokens : List Token) : Option (List Node) :=
  match tokens with
  | [] => some []
  | .documentStart :: _ => furtherDocuments? tokens
  | tokens =>
    match node? true false [] tokens with
    | none => none
    | some document => (furtherDocuments? document.rest).map (document.result :: ·)

/-- The documents of a text; `none` if it is malformed. -/
def Node.ofString? (text : String) : Option (List Node) :=
  (Token.ofChars? text.toList).bind documents?

end Admission.Yaml
