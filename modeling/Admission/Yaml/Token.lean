import Admission.Text.Numeral
import Admission.Yaml.Node
/-!
# Tokens of documents

A document is read in two steps: from characters to tokens and from tokens to a tree. The tokens
make the structure explicit that indentation only shows: where a block sequence or mapping starts
and ends, and that a scalar followed by `:` is a key. Flow collections, plain and quoted scalars,
comments, anchors, aliases and document markers are read; tags, directives and literal blocks are
not part of the format.

A text that may turn out to be a key is remembered as a *candidate*, and its key token is put in
front of it once the `:` comes. Every step takes a character at least, and the main loop ends with
the characters; the loops over scalars are structural.
-/

namespace Admission.Yaml

/-- A token of a document. -/
inductive Token where
  | documentStart
  | documentEnd
  | blockSequence
  | blockMapping
  /-- The end of a block sequence or mapping. -/
  | blockEnd
  | flowSequence
  | flowSequenceEnd
  | flowMapping
  | flowMappingEnd
  /-- The `-` in front of an item. -/
  | blockEntry
  /-- The `,` between items. -/
  | flowEntry
  | key
  | value
  | anchor (name : String)
  | alias (name : String)
  | scalar (text : String) (style : Style)
  deriving DecidableEq, Repr

/-! ## Characters and places -/

/-- A space or a tab. -/
def isSpace (c : Char) : Bool := c == ' ' || c == '\t'

/-- A line end. -/
def isBreak (c : Char) : Bool := ['\n', '\r', '\u0085', '\u2028', '\u2029'].contains c

/-- Whether a text starts with a blank or is at its end. -/
def startsBlank : List Char → Bool
  | [] => true
  | c :: _ => isSpace c || isBreak c

/-- The characters that a document may hold. -/
def isAllowed (c : Char) : Bool :=
  let n := c.toNat
  n == 0x09 || n == 0x0A || n == 0x0D || (0x20 ≤ n && n ≤ 0x7E) || n == 0x85 ||
    (0xA0 ≤ n && n ≤ 0xFFFD) || 0x10000 ≤ n

/-- A place in a text. -/
structure Place where
  line : Nat := 0
  column : Nat := 0
  index : Nat := 0
  deriving DecidableEq, Repr

/-- The place after a character of the same line. -/
def Place.next (place : Place) : Place :=
  { place with column := place.column + 1, index := place.index + 1 }

/-- The place after several characters of the same line. -/
def Place.skip (place : Place) (count : Nat) : Place :=
  { place with column := place.column + count, index := place.index + count }

/-- The place after a line end. The first half of a double line end does not end the line. -/
def Place.pass (place : Place) (c : Char) (rest : List Char) : Place :=
  if c = '\r' ∧ rest.head? = some '\n' then { place with index := place.index + 1 }
  else { line := place.line + 1, column := 0, index := place.index + 1 }

/-- What a line end stands for in a scalar. -/
def breakText (c : Char) (rest : List Char) : List Char :=
  if c = '\r' ∧ rest.head? = some '\n' then []
  else if c = '\u2028' ∨ c = '\u2029' then [c]
  else ['\n']

/-- A text at a place. -/
structure Cursor where
  place : Place
  rest : List Char

/-- Whether a text starts with a document marker: three equal marks and a blank. -/
def startsMarker (mark : Char) (text : List Char) : Bool :=
  match text with
  | a :: b :: c :: rest => a == mark && b == mark && c == mark && startsBlank rest
  | _ => false

/-- Whether a document marker stands at a place. -/
def atMarker (place : Place) (text : List Char) : Bool :=
  place.column == 0 && (startsMarker '-' text || startsMarker '.' text)

/-! ## Between tokens -/

/-- What lies before the next token: the place where that starts, and whether a line ended. -/
structure Gap where
  cursor : Cursor
  brokeLine : Bool

/-- Passes over spaces, comments and line ends. Tabs count as spaces where `tabs` holds or, as for
the rest of a line, until the line ends. -/
def skipGap (inFlow : Bool) : List Char → Place → (tabs comment brokeLine : Bool) → Gap
  | [], place, _, _, brokeLine => ⟨⟨place, []⟩, brokeLine⟩
  | c :: rest, place, tabs, comment, brokeLine =>
    if isBreak c then skipGap inFlow rest (place.pass c rest) inFlow false true
    else if comment then skipGap inFlow rest place.next tabs true brokeLine
    else if c = ' ' ∨ (c = '\t' ∧ tabs) then skipGap inFlow rest place.next tabs false brokeLine
    else if c = '#' then skipGap inFlow rest place.next tabs true brokeLine
    else if c = '\uFEFF' ∧ place.index = 0 then skipGap inFlow rest place tabs false brokeLine
    else ⟨⟨place, c :: rest⟩, brokeLine⟩

/-! ## Scalars -/

/-- The blanks since the last character of a scalar. -/
inductive Blanks where
  /-- Blanks within a line, last one first. -/
  | within (spaces : List Char)
  /-- A first line end, and the line ends after it. -/
  | across (first : List Char) (more : List Char)

/-- The blanks since a character that is not blank. -/
def Blanks.none : Blanks := within []

/-- What blanks stand for between two characters: one line end is a space, and of several the first
is dropped. -/
def Blanks.fold : Blanks → List Char
  | within spaces => spaces.reverse
  | across first more =>
    if first.head? = some '\n' then if more = [] then [' '] else more else first ++ more

/-- One more blank. Within a line it counts; at the start of one it does not. -/
def Blanks.addSpace (blanks : Blanks) (c : Char) : Blanks :=
  match blanks with
  | within spaces => within (c :: spaces)
  | across first more => across first more

/-- One more line end. -/
def Blanks.addBreak (blanks : Blanks) (text : List Char) : Blanks :=
  match blanks with
  | within spaces => if text = [] then within spaces else across text []
  | across first more => across first (more ++ text)

/-- Whether there is a line end among the blanks. -/
def Blanks.breaks : Blanks → Bool
  | within _ => false
  | across .. => true

/-- Whether there are any blanks. -/
def Blanks.any : Blanks → Bool
  | within spaces => !spaces.isEmpty
  | across .. => true

/-- A scalar that was read: its characters, last one first, whether a line ended after it, and what
follows. -/
structure Scanned where
  reversed : List Char
  brokeLine : Bool
  cursor : Cursor

/-- Reads a plain scalar. It ends before a `:` with a blank after it, at a comment, at a document
marker, at a line that is indented less than `indent`, and in a flow collection at its marks. -/
def plain (inFlow : Bool) (indent : Nat) :
    List Char → Place → Blanks → List Char → Option Scanned
  | [], place, blanks, reversed => some ⟨reversed, blanks.breaks, ⟨place, []⟩⟩
  | c :: rest, place, blanks, reversed =>
    if isBreak c then
      plain inFlow indent rest (place.pass c rest) (blanks.addBreak (breakText c rest)) reversed
    else if isSpace c then
      -- a tab is no indentation
      if blanks.breaks ∧ c = '\t' ∧ place.column < indent then none
      else plain inFlow indent rest place.next (blanks.addSpace c) reversed
    -- what ends a scalar only after a blank
    else if blanks.any ∧ (c = '#' ∨ (¬ inFlow ∧ place.column < indent) ∨
        atMarker place (c :: rest)) then
      some ⟨reversed, blanks.breaks, ⟨place, c :: rest⟩⟩
    -- between brackets a colon right before a mark is neither text nor the end of a key
    else if inFlow ∧ c = ':' ∧ [',', '?', '[', ']', '{', '}'].contains (rest.headD ' ') then none
    else if (c = ':' ∧ startsBlank rest) ∨ (inFlow ∧ [',', '[', ']', '{', '}'].contains c) then
      some ⟨reversed, blanks.breaks, ⟨place, c :: rest⟩⟩
    else plain inFlow indent rest place.next .none (c :: (blanks.fold.reverse ++ reversed))

/-- The escapes of one letter. -/
def escapes : List (Char × Char) :=
  [('0', '\x00'), ('a', '\x07'), ('b', '\x08'), ('t', '\t'), ('\t', '\t'), ('n', '\n'),
    ('v', '\x0b'), ('f', '\x0c'), ('r', '\r'), ('e', '\x1b'), (' ', ' '), ('"', '"'), ('/', '/'),
    ('\\', '\\'), ('N', '\u0085'), ('_', '\u00a0'), ('L', '\u2028'), ('P', '\u2029')]

/-- The number of digits of an escape by number. -/
def escapeWidth (c : Char) : Nat :=
  if c = 'x' then 2 else if c = 'u' then 4 else if c = 'U' then 8 else 0

/-- Where a quoted scalar stands. -/
inductive Quoting where
  | text
  /-- After a backslash. -/
  | escape
  /-- Within an escape by number: how many digits are to come, and the value so far. -/
  | code (left : Nat) (value : Nat)

/-- Reads a quoted scalar up to the quote that ends it. In double quotes a backslash escapes, and a
line end after one is no blank; in single quotes two quotes are one. -/
def quoted (quote : Char) : List Char → Place → Quoting → Blanks → List Char → Option Scanned
  | [], _, _, _, _ => none
  | c :: rest, place, .code left value, blanks, reversed =>
    match Text.digitValue c with
    | none => none
    | some d =>
      let value := value * 16 + d
      if 1 < left then quoted quote rest place.next (.code (left - 1) value) blanks reversed
      else if value.isValidChar then
        quoted quote rest place.next .text blanks (Char.ofNat value :: reversed)
      else none
  | c :: rest, place, .escape, blanks, reversed =>
    if isBreak c then
      -- the two halves of a double line end are escaped together
      if c = '\r' ∧ rest.head? = some '\n' then
        quoted quote rest (place.pass c rest) .escape blanks reversed
      else quoted quote rest (place.pass c rest) .text (.across [] []) reversed
    else match escapes.lookup c with
      | some e => quoted quote rest place.next .text blanks (e :: reversed)
      | none =>
        if escapeWidth c = 0 then none
        else quoted quote rest place.next (.code (escapeWidth c) 0) blanks reversed
  | c :: rest, place, .text, blanks, reversed =>
    if atMarker place (c :: rest) then none
    else if isBreak c then
      quoted quote rest (place.pass c rest) .text (blanks.addBreak (breakText c rest)) reversed
    else if isSpace c then quoted quote rest place.next .text (blanks.addSpace c) reversed
    else
      let reversed := blanks.fold.reverse ++ reversed
      if c = quote then
        match rest with
        | '\'' :: rest =>
          if quote = '\'' then quoted quote rest (place.skip 2) .text .none ('\'' :: reversed)
          else some ⟨reversed, false, ⟨place.next, '\'' :: rest⟩⟩
        | _ => some ⟨reversed, false, ⟨place.next, rest⟩⟩
      else if c = '\\' ∧ quote = '"' then quoted quote rest place.next .escape .none reversed
      else quoted quote rest place.next .text .none (c :: reversed)

/-! ## The reader -/

/-- A text that becomes a key if `:` follows it. -/
structure Candidate where
  /-- The number of tokens before it. -/
  tokens : Nat
  place : Place
  /-- Whether it has to become a key. -/
  required : Bool

/-- The state of the reader between two tokens. -/
structure Reader where
  cursor : Cursor
  /-- The columns of the open block collections, innermost first. -/
  indents : List Nat := []
  /-- The candidate of the innermost collection. -/
  candidate : Option Candidate := none
  /-- The candidates of the collections around it, one for each flow collection that is open. -/
  outer : List (Option Candidate) := []
  /-- Whether a key may start here. -/
  keyAllowed : Bool := true
  tokens : Array Token := #[]

namespace Reader

/-- Whether a flow collection is open. -/
def inFlow (reader : Reader) : Bool := !reader.outer.isEmpty

/-- Adds a token. -/
def push (reader : Reader) (token : Token) : Reader :=
  { reader with tokens := reader.tokens.push token }

/-- Closes the block collections that are indented more than a column. -/
def closeTo (reader : Reader) (column : Nat) : Reader :=
  if reader.inFlow then reader
  else
    let closed := reader.indents.takeWhile (column < ·)
    { reader with
      indents := reader.indents.drop closed.length
      tokens := reader.tokens ++ (closed.map fun _ => Token.blockEnd) }

/-- Closes all block collections. -/
def closeAll (reader : Reader) : Reader :=
  { reader with
    indents := []
    tokens := reader.tokens ++ (reader.indents.map fun _ => Token.blockEnd) }

/-- Opens a block collection at a column that is indented more than the open ones; its token comes
after the first `count` tokens. -/
def openAt (reader : Reader) (column count : Nat) (token : Token) : Reader :=
  if reader.inFlow then reader
  else
    let deeper := match reader.indents with
      | [] => true
      | indent :: _ => indent < column
    if deeper then
      { reader with
        indents := column :: reader.indents
        tokens := reader.tokens.insertIdxIfInBounds count token }
    else reader

/-- Gives the candidate up; one that has to become a key may not be given up. -/
def dropCandidate (reader : Reader) : Option Reader :=
  match reader.candidate with
  | some candidate => if candidate.required then none else some { reader with candidate := none }
  | none => some reader

/-- Makes what starts here the candidate, if a key may start here. -/
def setCandidate (reader : Reader) : Option Reader :=
  if reader.keyAllowed then
    (reader.dropCandidate).map fun reader =>
      let place := reader.cursor.place
      { reader with candidate := some {
          tokens := reader.tokens.size
          place := place
          required := !reader.inFlow && reader.indents.head? == some place.column } }
  else some reader

/-- The candidate, if it is still on the line and near. -/
def liveCandidate (reader : Reader) : Option Candidate :=
  match reader.candidate with
  | some candidate =>
    let place := reader.cursor.place
    if candidate.place.line = place.line ∧ place.index ≤ candidate.place.index + 1024 then
      some candidate
    else none
  | none => none

/-- Moves the reader to a cursor. -/
def moveTo (reader : Reader) (cursor : Cursor) : Reader := { reader with cursor }

/-- Moves the reader over some characters of the line. -/
def skip (reader : Reader) (count : Nat) : Reader :=
  reader.moveTo ⟨reader.cursor.place.skip count, reader.cursor.rest.drop count⟩

/-! ### Tokens by kind -/

/-- A document marker. -/
def marker (reader : Reader) (token : Token) : Option Reader :=
  (reader.closeAll.dropCandidate).map fun reader =>
    { (reader.push token).skip 3 with keyAllowed := false }

/-- The start of a flow collection. -/
def flowStart (reader : Reader) (token : Token) : Option Reader :=
  (reader.setCandidate).map fun reader =>
    { (reader.push token).skip 1 with
      outer := reader.candidate :: reader.outer
      candidate := none
      keyAllowed := true }

/-- The end of a flow collection. -/
def flowEnd (reader : Reader) (token : Token) : Option Reader :=
  (reader.dropCandidate).map fun reader =>
    { (reader.push token).skip 1 with
      candidate := reader.outer.headD none
      outer := reader.outer.drop 1
      keyAllowed := false }

/-- A comma. -/
def flowEntry (reader : Reader) : Option Reader :=
  (reader.dropCandidate).map fun reader =>
    { (reader.push .flowEntry).skip 1 with keyAllowed := true }

/-- The dash of an item. -/
def blockEntry (reader : Reader) : Option Reader :=
  if !reader.inFlow && !reader.keyAllowed then none
  else
    let reader := reader.openAt reader.cursor.place.column reader.tokens.size .blockSequence
    (reader.dropCandidate).map fun reader =>
      { (reader.push .blockEntry).skip 1 with keyAllowed := true }

/-- The question mark of a key. -/
def explicitKey (reader : Reader) : Option Reader :=
  if !reader.inFlow && !reader.keyAllowed then none
  else
    let reader := reader.openAt reader.cursor.place.column reader.tokens.size .blockMapping
    (reader.dropCandidate).map fun reader =>
      { (reader.push .key).skip 1 with keyAllowed := !reader.inFlow }

/-- The colon of a value. -/
def value (reader : Reader) : Option Reader :=
  match reader.liveCandidate with
  | some candidate =>
    -- the candidate is a key after all: its token and that of its mapping go in front of it
    let reader := { reader with
      candidate := none
      tokens := reader.tokens.insertIdxIfInBounds candidate.tokens .key }
    let reader := reader.openAt candidate.place.column candidate.tokens .blockMapping
    some { (reader.push .value).skip 1 with keyAllowed := false }
  | none =>
    -- a colon without a key before it
    (reader.dropCandidate).bind fun reader =>
      if !reader.inFlow && !reader.keyAllowed then none
      else
        let reader := reader.openAt reader.cursor.place.column reader.tokens.size .blockMapping
        some { (reader.push .value).skip 1 with keyAllowed := !reader.inFlow }

/-- A scalar that was read. -/
def scalar (reader : Reader) (style : Style) (scanned : Scanned) : Reader :=
  let text := String.ofList scanned.reversed.reverse
  { (reader.push (.scalar text style)).moveTo scanned.cursor with keyAllowed := scanned.brokeLine }

/-- A plain scalar. -/
def plainScalar (reader : Reader) : Option Reader :=
  (reader.setCandidate).bind fun reader =>
    let indent := match reader.indents with
      | [] => 0
      | column :: _ => column + 1
    (plain reader.inFlow indent reader.cursor.rest reader.cursor.place .none []).map
      (reader.scalar .plain)

/-- A quoted scalar. -/
def quotedScalar (reader : Reader) (quote : Char) : Option Reader :=
  (reader.setCandidate).bind fun reader =>
    let reader := reader.skip 1
    (quoted quote reader.cursor.rest reader.cursor.place .text .none []).map
      (reader.scalar .quoted)

/-- Whether a character belongs to the name of an anchor. -/
def isNameChar (c : Char) : Bool :=
  ('a' ≤ c && c ≤ 'z') || ('A' ≤ c && c ≤ 'Z') || ('0' ≤ c && c ≤ '9') || c == '_' || c == '-'

/-- An anchor or an alias. -/
def reference (reader : Reader) (token : String → Token) : Option Reader :=
  (reader.setCandidate).bind fun reader =>
    let reader := reader.skip 1
    let name := reader.cursor.rest.takeWhile isNameChar
    let after := reader.cursor.rest.drop name.length
    if name ≠ [] ∧ (startsBlank after ∨ ['?', ':', ',', ']', '}', '%', '@', '\x60'].contains
        (after.headD ' ')) then
      some { (reader.push (token (String.ofList name))).skip name.length with keyAllowed := false }
    else none

/-- Whether a plain scalar may start with a character, given what follows it. -/
def startsPlain (inFlow : Bool) (c : Char) (rest : List Char) : Bool :=
  if c = '-' then !(rest.head?.map isSpace).getD false
  else if c = '?' ∨ c = ':' then !inFlow && !startsBlank rest
  else !isSpace c && !(",[]\x7b\x7d#&*!|>'\"%@\x60".toList.contains c)

/-- Takes the next token at a cursor that is not at a blank. -/
def token (reader : Reader) : Option Reader :=
  match reader.cursor.rest with
  | [] => none
  | c :: rest =>
    let column := reader.cursor.place.column
    if column = 0 ∧ c = '%' then none
    else if column = 0 ∧ startsMarker '-' (c :: rest) then reader.marker .documentStart
    else if column = 0 ∧ startsMarker '.' (c :: rest) then reader.marker .documentEnd
    else if c = '[' then reader.flowStart .flowSequence
    else if c = '{' then reader.flowStart .flowMapping
    else if c = ']' then reader.flowEnd .flowSequenceEnd
    else if c = '}' then reader.flowEnd .flowMappingEnd
    else if c = ',' then reader.flowEntry
    else if c = '-' ∧ startsBlank rest then reader.blockEntry
    else if c = '?' ∧ (reader.inFlow ∨ startsBlank rest) then reader.explicitKey
    else if c = ':' ∧ (reader.inFlow ∨ startsBlank rest) then reader.value
    else if c = '*' then reader.reference .alias
    else if c = '&' then reader.reference .anchor
    else if c = '\'' ∨ c = '"' then reader.quotedScalar c
    else if startsPlain reader.inFlow c rest then reader.plainScalar
    else none

/-- Passes over what lies before the next token and closes what ends there. -/
def settle (reader : Reader) : Reader :=
  -- where a key may start, a tab would be indentation
  let tabs := reader.inFlow || !reader.keyAllowed
  let gap := skipGap reader.inFlow reader.cursor.rest reader.cursor.place tabs false false
  let reader := { reader.moveTo gap.cursor with
    keyAllowed := reader.keyAllowed || (gap.brokeLine && !reader.inFlow) }
  reader.closeTo gap.cursor.place.column

/-- Takes all tokens. A step that took no character would end the loop. -/
def run (reader : Reader) : Option (Array Token) :=
  let settled := reader.settle
  if settled.cursor.rest = [] then
    (settled.closeAll.dropCandidate).map Reader.tokens
  else match settled.token with
    | none => none
    | some next =>
      if next.cursor.rest.length < reader.cursor.rest.length then run next else none
termination_by reader.cursor.rest.length

end Reader

/-- The tokens of a text; `none` if it is malformed. -/
def Token.ofChars? (text : List Char) : Option (List Token) :=
  if text.all isAllowed then
    (Reader.run { cursor := ⟨{}, text⟩ }).map Array.toList
  else none

end Admission.Yaml
