import Admission.Yaml.Flow
import Admission.Yaml.Token
import Mathlib.Algebra.Group.Nat.Defs
/-!
# Tokens of documents on one line

What the reader makes of the pieces of a document in flow style. Such a document has no line ends,
so no block collection is ever open, and no text that could become a key has to become one. A reader
in this state is `reading` of the few parts that still vary. Each token is one turn of the main
loop, from one such state to the next one: the spaces before it are passed over, the token is added,
and the rest of the text is left.

Scalars come first. Between double quotes the blanks since the last character are kept apart until
the next one, so the statement about a whole text carries them along; an escape by number is read
digit by digit, the first one counting most.

Main statements: `quoted_text`, `plain_word`, and the turns `run_open`, `run_close`, `run_comma`,
`run_colon`, `run_scalar` and `run_nil`.
-/

namespace Admission.Yaml

/-! ## Places and characters -/

@[simp]
theorem Place.skip_zero (place : Place) : place.skip 0 = place := rfl

@[simp]
theorem Place.skip_skip (place : Place) (a b : Nat) :
    (place.skip a).skip b = place.skip (a + b) := by
  simp [Place.skip, Nat.add_assoc]

theorem Place.next_eq_skip (place : Place) : place.next = place.skip 1 := rfl

@[simp]
theorem Place.skip_line (place : Place) (count : Nat) : (place.skip count).line = place.line := rfl

@[simp]
theorem Place.skip_column (place : Place) (count : Nat) :
    (place.skip count).column = place.column + count := rfl

/-- Off the start of a line there is no document marker. -/
theorem atMarker_of_column_pos {place : Place} (h : 0 < place.column) (text : List Char) :
    atMarker place text = false := by
  have hne : (place.column == 0) = false := by simpa using Nat.ne_of_gt h
  simp [atMarker, hne]

theorem isVerbatim_iff {c : Char} :
    isVerbatim c = true ↔ 0x20 ≤ c.toNat ∧ c.toNat ≤ 0x7E ∧ c ≠ '"' ∧ c ≠ '\\' := by
  simp [isVerbatim, and_assoc]

/-- A character between two others by number ends no line. -/
theorem isBreak_of_printable {c : Char} (low : 0x20 ≤ c.toNat) (high : c.toNat ≤ 0x7E) :
    isBreak c = false := by
  unfold isBreak
  rw [Bool.eq_false_iff]
  intro hbreak
  simp only [List.contains_cons, List.contains_nil, Bool.or_false, Bool.or_eq_true,
    beq_iff_eq] at hbreak
  rcases hbreak with rfl | rfl | rfl | rfl | rfl <;> revert low high <;> decide

/-! ## Quoted scalars -/

@[simp]
theorem length_hexDigits (count n : Nat) : (hexDigits count n).length = count := by
  induction count with
  | zero => rfl
  | succ count ih => rw [hexDigits, List.length_cons, ih]

section Quoted

variable {place : Place} {rest reversed : List Char} {blanks : Blanks}

/-- **An escape by number is the character with that number.** -/
theorem quoted_hexDigits (quote : Char) (count n value : Nat)
    (hvalid : (value * 16 ^ (count + 1) + n % 16 ^ (count + 1)).isValidChar) :
    quoted quote (hexDigits (count + 1) n ++ rest) place (.code (count + 1) value) blanks reversed =
      quoted quote rest (place.skip (count + 1)) .text blanks
        (Char.ofNat (value * 16 ^ (count + 1) + n % 16 ^ (count + 1)) :: reversed) := by
  induction count generalizing value place with
  | zero =>
    have hdigit : Text.digitValue (Nat.digitChar (n % 16)) = some (n % 16) :=
      Text.digitValue_digitChar (Nat.mod_lt n (by decide))
    simp only [Nat.zero_add, Nat.pow_one] at hvalid ⊢
    simp only [hexDigits, Nat.pow_eq, Nat.pow_zero, Nat.div_one, List.cons_append, List.nil_append,
      quoted, hdigit, Nat.lt_irrefl, if_false, if_pos hvalid]
    rfl
  | succ count ih =>
    have hdigit : Text.digitValue (Nat.digitChar (n / 16 ^ (count + 1) % 16)) =
        some (n / 16 ^ (count + 1) % 16) :=
      Text.digitValue_digitChar (Nat.mod_lt _ (by decide))
    -- the first digit counts for what it stands before
    have hsplit : value * 16 ^ (count + 1 + 1) + n % 16 ^ (count + 1 + 1) =
        (value * 16 + n / 16 ^ (count + 1) % 16) * 16 ^ (count + 1) + n % 16 ^ (count + 1) := by
      rw [Nat.mod_pow_succ, Nat.pow_succ 16 (count + 1), Nat.add_mul, Nat.mul_assoc value 16,
        Nat.mul_comm 16, Nat.mul_comm (n / 16 ^ (count + 1) % 16)]
      omega
    rw [hsplit] at hvalid ⊢
    rw [hexDigits, Nat.pow_eq, List.cons_append, quoted, hdigit]
    simp only [Nat.add_sub_cancel, if_pos (show 1 < count + 1 + 1 by omega)]
    rw [ih _ hvalid, Place.next_eq_skip, Place.skip_skip, Nat.add_comm 1]

/-- A character that is written by its number is read as that character. -/
theorem quoted_numbered (c : Char) (spaces rest reversed : List Char) (column : 0 < place.column) :
    quoted '"' ('\\' :: 'U' :: hexDigits 8 c.toNat ++ rest) place .text (.within spaces) reversed =
      quoted '"' rest (place.skip ('\\' :: 'U' :: hexDigits 8 c.toNat).length) .text .none
        (c :: (spaces ++ reversed)) := by
  have hmark : ∀ text, atMarker place text = false := atMarker_of_column_pos column
  have hletter : escapes.lookup 'U' = none := rfl
  have hlt : c.toNat < 16 ^ 8 := by
    rcases c.valid with h | ⟨-, h⟩
    · exact Nat.lt_trans h (by decide)
    · exact Nat.lt_trans h (by decide)
  have hnumber : 0 * 16 ^ (7 + 1) + c.toNat % 16 ^ (7 + 1) = c.toNat := by
    rw [Nat.zero_mul, Nat.zero_add, Nat.mod_eq_of_lt hlt]
  have hopen : quoted '"' ('\\' :: 'U' :: hexDigits 8 c.toNat ++ rest) place .text
      (.within spaces) reversed =
      quoted '"' (hexDigits 8 c.toNat ++ rest) ((place.skip 1).skip 1) (.code 8 0) .none
        (spaces ++ reversed) := by
    simp [quoted, hmark, isBreak, isSpace, hletter, escapeWidth, Blanks.fold, Blanks.none,
      Place.next_eq_skip]
  have hcode : quoted '"' (hexDigits 8 c.toNat ++ rest) ((place.skip 1).skip 1) (.code 8 0)
      .none (spaces ++ reversed) =
      quoted '"' rest (((place.skip 1).skip 1).skip 8) .text .none
        (c :: (spaces ++ reversed)) := by
    rw [quoted_hexDigits '"' 7 c.toNat 0 (by rw [hnumber]; exact c.valid), hnumber,
      Char.ofNat_toNat]
  rw [hopen, hcode, Place.skip_skip, Place.skip_skip, List.length_cons, List.length_cons,
    length_hexDigits]

/-- **A character as it is written is read as that character.** A space is kept back until the next
character that is none. -/
theorem quoted_escape (c : Char) (spaces rest reversed : List Char) (column : 0 < place.column) :
    ∃ spaces' reversed', spaces' ++ reversed' = c :: (spaces ++ reversed) ∧
      quoted '"' (escape c ++ rest) place .text (.within spaces) reversed =
        quoted '"' rest (place.skip (escape c).length) .text (.within spaces') reversed' := by
  have hmark : ∀ text, atMarker place text = false := atMarker_of_column_pos column
  unfold escape
  by_cases hverbatim : isVerbatim c = true
  · obtain ⟨low, high, hquote, hslash⟩ := isVerbatim_iff.mp hverbatim
    have hbreak : isBreak c = false := isBreak_of_printable low high
    rw [if_pos hverbatim]
    by_cases hspace : isSpace c = true
    · refine ⟨c :: spaces, reversed, rfl, ?_⟩
      simp [quoted, hmark, hbreak, hspace, Blanks.addSpace, Place.next_eq_skip]
    · refine ⟨[], c :: (spaces ++ reversed), rfl, ?_⟩
      simp [quoted, hmark, hbreak, hspace, hquote, hslash, Blanks.fold, Blanks.none,
        Place.next_eq_skip]
  · rw [if_neg hverbatim]
    by_cases hmarked : c = '"' ∨ c = '\\'
    · rw [if_pos hmarked]
      refine ⟨[], c :: (spaces ++ reversed), rfl, ?_⟩
      have hquote : escapes.lookup '"' = some '"' := rfl
      have hslash : escapes.lookup '\\' = some '\\' := rfl
      rcases hmarked with rfl | rfl
      · simp [quoted, hmark, isBreak, isSpace, hquote, Blanks.fold, Blanks.none,
          Place.next_eq_skip]
      · simp [quoted, hmark, isBreak, isSpace, hslash, Blanks.fold, Blanks.none,
          Place.next_eq_skip]
    · rw [if_neg hmarked]
      refine ⟨[], c :: (spaces ++ reversed), rfl, ?_⟩
      exact quoted_numbered c spaces rest reversed column

/-- **A quoted text is read up to the quote behind it.** -/
theorem quoted_text (text spaces : List Char) (column : 0 < place.column) :
    quoted '"' (text.flatMap escape ++ '"' :: rest) place .text (.within spaces) reversed =
      some ⟨text.reverse ++ (spaces ++ reversed), false,
        ⟨place.skip ((text.flatMap escape).length + 1), rest⟩⟩ := by
  induction text generalizing place spaces reversed with
  | nil =>
    rw [List.flatMap_nil, List.nil_append, quoted, atMarker_of_column_pos column,
      if_neg Bool.false_ne_true, if_neg (by decide), if_neg (by decide)]
    simp only [if_true, Blanks.fold, List.reverse_reverse, List.reverse_nil, List.nil_append,
      List.length_nil, Nat.zero_add]
    -- an apostrophe behind it means nothing between double quotes
    split
    · rfl
    · rfl
  | cons c text ih =>
    obtain ⟨spaces', reversed', hread, hstep⟩ :=
      quoted_escape c spaces (text.flatMap escape ++ '"' :: rest) reversed column
    have hcolumn : 0 < (place.skip (escape c).length).column := Nat.add_pos_left column _
    rw [List.flatMap_cons, List.append_assoc]
    rw [hstep, ih spaces' hcolumn, hread, Place.skip_skip, List.length_append, Nat.add_assoc,
      List.reverse_cons, List.append_assoc]
    rfl

end Quoted

/-! ## Plain scalars -/

/-- Whether a text goes on with what ends a plain scalar between brackets. -/
def EndsScalar (text : List Char) : Prop :=
  ∃ c rest, text = c :: rest ∧ (c ∈ [',', ']', '}'] ∨ c = ':' ∧ rest.head? = some ' ')

/-- A character that a word holds differs from one that no word holds. -/
theorem isWordChar_ne {c d : Char} (hc : isWordChar c = true) (hd : isWordChar d = false) :
    c ≠ d := by
  rintro rfl
  rw [hc] at hd
  cases hd

theorem contains_eq_false_of_isWordChar {c : Char} {marks : List Char} (hc : isWordChar c = true)
    (hmarks : marks.all (!isWordChar ·) = true) : marks.contains c = false := by
  rw [List.contains_eq_mem, decide_eq_false_iff_not]
  intro hmem
  have hd : isWordChar c = false := by simpa using List.all_eq_true.mp hmarks c hmem
  exact isWordChar_ne hc hd rfl

theorem isBreak_of_isWordChar {c : Char} (hc : isWordChar c = true) : isBreak c = false :=
  contains_eq_false_of_isWordChar hc (by decide)

theorem isSpace_of_isWordChar {c : Char} (hc : isWordChar c = true) : isSpace c = false := by
  simp [isSpace, isWordChar_ne hc (d := ' ') (by decide), isWordChar_ne hc (d := '\t') (by decide)]

/-- **A word is read up to what ends it.** -/
theorem plain_word {indent : Nat} {place : Place} {word rest reversed : List Char}
    (hword : word.all isWordChar = true) (hend : EndsScalar rest) :
    plain true indent (word ++ rest) place .none reversed =
      some ⟨word.reverse ++ reversed, false, ⟨place.skip word.length, rest⟩⟩ := by
  induction word generalizing place reversed with
  | nil =>
    obtain ⟨c, rest, rfl, hc⟩ := hend
    rcases hc with hc | ⟨rfl, hblank⟩
    · simp only [List.mem_cons, List.not_mem_nil, or_false] at hc
      rcases hc with rfl | rfl | rfl <;>
        simp [plain, isBreak, isSpace, Blanks.none, Blanks.any, Blanks.breaks]
    · obtain ⟨rest, rfl⟩ : ∃ more, rest = ' ' :: more := by
        cases rest with
        | nil => cases hblank
        | cons b more =>
          obtain rfl : b = ' ' := by simpa using hblank
          exact ⟨more, rfl⟩
      simp [plain, isBreak, isSpace, Blanks.none, Blanks.any, Blanks.breaks, startsBlank]
  | cons c word ih =>
    obtain ⟨hc, hrest⟩ : isWordChar c = true ∧ word.all isWordChar = true := by
      simpa only [List.all_cons, Bool.and_eq_true] using hword
    have hcolon : c ≠ ':' := isWordChar_ne hc (by decide)
    have hmarks : [',', '[', ']', '{', '}'].contains c = false :=
      contains_eq_false_of_isWordChar hc (by decide)
    rw [List.cons_append, plain, isBreak_of_isWordChar hc, isSpace_of_isWordChar hc]
    simp only [Bool.false_eq_true, if_false, Blanks.none, Blanks.any, List.isEmpty_nil,
      Bool.not_true, false_and, hcolon, and_false, hmarks, or_self, Blanks.fold, List.reverse_nil,
      List.nil_append]
    have hnext : plain true indent (word ++ rest) place.next (.within []) (c :: reversed) =
        some ⟨word.reverse ++ c :: reversed, false, ⟨place.next.skip word.length, rest⟩⟩ := ih hrest
    rw [hnext, Place.next_eq_skip, Place.skip_skip, List.reverse_cons, List.append_assoc,
      List.length_cons, Nat.add_comm 1]
    rfl

/-! ## The reader between two tokens -/

/-- A reader without open block collections. -/
def reading (place : Place) (text : List Char) (candidate : Option Candidate)
    (outer : List (Option Candidate)) (keyAllowed : Bool) (tokens : List Token) : Reader :=
  { cursor := ⟨place, text⟩, candidate, outer, keyAllowed, tokens := tokens.toArray }

/-- Whether a candidate may be given up. -/
def Loose (candidate : Option Candidate) : Prop := ∀ c ∈ candidate, c.required = false

theorem loose_none : Loose none := by
  intro c hc
  cases hc

/-- The candidate that takes the place of another one where a key may start. -/
def nextCandidate (place : Place) (candidate : Option Candidate) (keyAllowed : Bool)
    (tokens : List Token) : Option Candidate :=
  if keyAllowed then some ⟨tokens.length, place, false⟩ else candidate

theorem loose_nextCandidate {candidate : Option Candidate} (h : Loose candidate) (place : Place)
    (keyAllowed : Bool) (tokens : List Token) :
    Loose (nextCandidate place candidate keyAllowed tokens) := by
  unfold nextCandidate
  split
  · intro c hc
    cases hc
    rfl
  · exact h

/-- Whether a character is neither passed over between tokens nor starts a comment. -/
def isSolid (c : Char) : Bool := !isBreak c && !isSpace c && c != '#' && c != '\uFEFF'

/-- The spaces before a character are passed over. -/
theorem skipGap_spaces {c : Char} (hc : isSolid c = true) (inFlow tabs brokeLine : Bool)
    (count : Nat) (rest : List Char) (place : Place) :
    skipGap inFlow (List.replicate count ' ' ++ c :: rest) place tabs false brokeLine =
      ⟨⟨place.skip count, c :: rest⟩, brokeLine⟩ := by
  induction count generalizing place with
  | zero =>
    simp only [isSolid, isSpace, Bool.and_eq_true, Bool.not_eq_true', Bool.or_eq_false_iff,
      bne_iff_ne, beq_eq_false_iff_ne] at hc
    obtain ⟨⟨⟨hbreak, hspace, htab⟩, hcomment⟩, hmark⟩ := hc
    simp [skipGap, hbreak, hspace, htab, hcomment, hmark]
  | succ count ih =>
    rw [List.replicate_succ, List.cons_append, skipGap]
    simp only [show isBreak ' ' = false by decide, Bool.false_eq_true, if_false, true_or, if_true]
    rw [ih, Place.next_eq_skip, Place.skip_skip, Nat.add_comm 1]

/-- A text that starts otherwise does not start with a document marker. -/
theorem startsMarker_cons_ne {mark c : Char} (h : c ≠ mark) (rest : List Char) :
    startsMarker mark (c :: rest) = false := by
  have hne : (c == mark) = false := by simpa using h
  unfold startsMarker
  split
  · rename_i heq
    cases heq
    simp [hne]
  · rfl

theorem insertIdx_length_append {α : Type} (before after : List α) (a : α) :
    (before ++ after).insertIdx before.length a = before ++ a :: after := by
  induction before with
  | nil => rfl
  | cons b before ih =>
    rw [List.cons_append, List.length_cons, List.insertIdx_succ_cons, ih, List.cons_append]

section Reading

variable {place : Place} {text rest : List Char} {candidate : Option Candidate}
  {outer : List (Option Candidate)} {keyAllowed : Bool} {tokens : List Token}

@[simp]
theorem closeTo_reading (column : Nat) :
    (reading place text candidate outer keyAllowed tokens).closeTo column =
      reading place text candidate outer keyAllowed tokens := by
  unfold Reader.closeTo
  split
  · rfl
  · simp [reading]

theorem settle_reading {c : Char} (hc : isSolid c = true) (count : Nat) :
    (reading place (List.replicate count ' ' ++ c :: rest) candidate outer keyAllowed
      tokens).settle =
      reading (place.skip count) (c :: rest) candidate outer keyAllowed tokens := by
  unfold Reader.settle
  simp only [reading, skipGap_spaces hc, Reader.moveTo, Bool.false_and, Bool.or_false]
  exact closeTo_reading _

theorem dropCandidate_reading (h : Loose candidate) :
    (reading place text candidate outer keyAllowed tokens).dropCandidate =
      some (reading place text none outer keyAllowed tokens) := by
  cases candidate with
  | none => rfl
  | some c =>
    have hc : c.required = false := h c rfl
    simp [Reader.dropCandidate, reading, hc]

theorem setCandidate_reading (h : Loose candidate) :
    (reading place text candidate outer keyAllowed tokens).setCandidate =
      some (reading place text (nextCandidate place candidate keyAllowed tokens) outer keyAllowed
        tokens) := by
  unfold Reader.setCandidate nextCandidate
  cases keyAllowed with
  | false => rfl
  | true =>
    rw [if_pos (show (reading place text candidate outer true tokens).keyAllowed = true from rfl),
      dropCandidate_reading h]
    simp [reading]

/-- One turn of the main loop. -/
theorem run_of_token {reader settled next : Reader} (hsettle : reader.settle = settled)
    (hrest : settled.cursor.rest ≠ []) (htoken : settled.token = some next)
    (hless : next.cursor.rest.length < reader.cursor.rest.length) : reader.run = next.run := by
  rw [Reader.run]
  simp only [hsettle, if_neg hrest, htoken, if_pos hless]

/-- One turn from a reader without open block collections: the spaces are passed over, and then the
token is read. -/
theorem run_reading {c : Char} {next : Reader} (hsolid : isSolid c = true) (count : Nat)
    (htoken : (reading (place.skip count) (c :: rest) candidate outer keyAllowed tokens).token =
      some next) (hless : next.cursor.rest.length ≤ rest.length) :
    (reading place (List.replicate count ' ' ++ c :: rest) candidate outer keyAllowed tokens).run =
      next.run := by
  refine run_of_token (settle_reading hsolid count) (List.cons_ne_nil _ _) htoken ?_
  simp only [reading, List.length_append, List.length_replicate, List.length_cons]
  omega

/-- **A bracket or brace opens a collection.** -/
theorem run_open {c : Char} {token : Token}
    (hc : c = '[' ∧ token = .flowSequence ∨ c = '{' ∧ token = .flowMapping)
    (hloose : Loose candidate) (count : Nat) :
    (reading place (List.replicate count ' ' ++ c :: rest) candidate outer keyAllowed tokens).run =
      (reading (place.skip (count + 1)) rest none
        (nextCandidate (place.skip count) candidate keyAllowed tokens :: outer) true
        (tokens ++ [token])).run := by
  have hsolid : isSolid c = true := by
    rcases hc with ⟨rfl, -⟩ | ⟨rfl, -⟩ <;> decide
  have hstart : (reading (place.skip count) (c :: rest) candidate outer keyAllowed
      tokens).flowStart token =
      some (reading (place.skip (count + 1)) rest none
        (nextCandidate (place.skip count) candidate keyAllowed tokens :: outer) true
        (tokens ++ [token])) := by
    rw [Reader.flowStart, setCandidate_reading hloose, Option.map_some]
    simp [reading, Reader.push, Reader.skip, Reader.moveTo]
  refine run_reading hsolid count ?_ (Nat.le_refl _)
  rw [← hstart]
  rcases hc with ⟨rfl, rfl⟩ | ⟨rfl, rfl⟩
  · simp [Reader.token, reading, startsMarker_cons_ne]
  · simp [Reader.token, reading, startsMarker_cons_ne]

/-- **A bracket or brace closes the collection it is in.** -/
theorem run_close {c : Char} {token : Token} {around : Option Candidate}
    (hc : c = ']' ∧ token = .flowSequenceEnd ∨ c = '}' ∧ token = .flowMappingEnd)
    (hloose : Loose candidate) (count : Nat) :
    (reading place (List.replicate count ' ' ++ c :: rest) candidate (around :: outer) keyAllowed
      tokens).run =
      (reading (place.skip (count + 1)) rest around outer false (tokens ++ [token])).run := by
  have hsolid : isSolid c = true := by
    rcases hc with ⟨rfl, -⟩ | ⟨rfl, -⟩ <;> decide
  have hend : (reading (place.skip count) (c :: rest) candidate (around :: outer) keyAllowed
      tokens).flowEnd token =
      some (reading (place.skip (count + 1)) rest around outer false (tokens ++ [token])) := by
    rw [Reader.flowEnd, dropCandidate_reading hloose, Option.map_some]
    simp [reading, Reader.push, Reader.skip, Reader.moveTo]
  refine run_reading hsolid count ?_ (Nat.le_refl _)
  rw [← hend]
  rcases hc with ⟨rfl, rfl⟩ | ⟨rfl, rfl⟩
  · simp [Reader.token, reading, startsMarker_cons_ne]
  · simp [Reader.token, reading, startsMarker_cons_ne]

/-- **A comma ends an item or an entry.** -/
theorem run_comma (hloose : Loose candidate) :
    (reading place (',' :: rest) candidate outer keyAllowed tokens).run =
      (reading (place.skip 1) rest none outer true (tokens ++ [.flowEntry])).run := by
  have hentry : (reading place (',' :: rest) candidate outer keyAllowed tokens).flowEntry =
      some (reading (place.skip 1) rest none outer true (tokens ++ [.flowEntry])) := by
    rw [Reader.flowEntry, dropCandidate_reading hloose, Option.map_some]
    simp [reading, Reader.push, Reader.skip, Reader.moveTo]
  refine run_reading (by decide) 0 ?_ (Nat.le_refl _)
  rw [Place.skip_zero, ← hentry]
  simp [Reader.token, reading, startsMarker_cons_ne]

/-- **A colon right behind a scalar makes it a key.** -/
theorem run_colon {start : Place} {after : List Token} (hdeep : outer ≠ [])
    (hline : start.line = place.line) (hnear : place.index ≤ start.index + 1024) :
    (reading place (':' :: rest) (some ⟨tokens.length, start, false⟩) outer keyAllowed
      (tokens ++ after)).run =
      (reading (place.skip 1) rest none outer false
        (tokens ++ .key :: (after ++ [.value]))).run := by
  have hvalue : (reading place (':' :: rest) (some ⟨tokens.length, start, false⟩) outer keyAllowed
      (tokens ++ after)).value =
      some (reading (place.skip 1) rest none outer false
        (tokens ++ .key :: (after ++ [.value]))) := by
    simp [Reader.value, Reader.liveCandidate, reading, hline, hnear, Reader.openAt, Reader.inFlow,
      hdeep, Reader.push, Reader.skip, Reader.moveTo, insertIdx_length_append]
  refine run_reading (by decide) 0 ?_ (Nat.le_refl _)
  rw [Place.skip_zero, ← hvalue]
  simp [Reader.token, reading, startsMarker_cons_ne, Reader.inFlow, hdeep]

/-- **At the end of the text the tokens are complete.** -/
theorem run_nil (hloose : Loose candidate) :
    (reading place [] candidate outer keyAllowed tokens).run = some tokens.toArray := by
  have hsettle : (reading place [] candidate outer keyAllowed tokens).settle =
      reading place [] candidate outer keyAllowed tokens := by
    unfold Reader.settle
    simp only [reading, skipGap, Reader.moveTo, Bool.false_and, Bool.or_false]
    exact closeTo_reading _
  have hclose : (reading place [] candidate outer keyAllowed tokens).closeAll =
      reading place [] candidate outer keyAllowed tokens := by
    simp [Reader.closeAll, reading]
  have hempty : (reading place [] candidate outer keyAllowed tokens).cursor.rest = [] := rfl
  rw [Reader.run]
  simp only [hsettle, if_pos hempty, hclose, dropCandidate_reading hloose]
  rfl

/-- A character of a word starts a plain scalar. -/
theorem startsPlain_of_isWordChar {c : Char} (hc : isWordChar c = true) (inFlow : Bool)
    (rest : List Char) : Reader.startsPlain inFlow c rest = true := by
  have hne : ∀ {d : Char}, isWordChar d = false → c ≠ d := isWordChar_ne hc
  have hmarks : ",[]\x7b\x7d#&*!|>'\"%@\x60".toList.contains c = false :=
    contains_eq_false_of_isWordChar hc (by decide)
  unfold Reader.startsPlain
  rw [if_neg (hne (by decide)), if_neg (not_or.mpr ⟨hne (by decide), hne (by decide)⟩),
    isSpace_of_isWordChar hc, hmarks]
  rfl

/-- A character of a word has no other meaning between tokens. -/
theorem token_of_isWordChar {reader : Reader} {c : Char} (hc : isWordChar c = true)
    (hrest : reader.cursor.rest = c :: rest) : reader.token = reader.plainScalar := by
  have hne : ∀ {d : Char}, isWordChar d = false → c ≠ d := isWordChar_ne hc
  unfold Reader.token
  rw [hrest]
  simp only [startsMarker_cons_ne (hne (d := '-') (by decide)),
    startsMarker_cons_ne (hne (d := '.') (by decide)), hne (d := '%') (by decide),
    hne (d := '[') (by decide), hne (d := '{') (by decide), hne (d := ']') (by decide),
    hne (d := '}') (by decide), hne (d := ',') (by decide), hne (d := '-') (by decide),
    hne (d := '?') (by decide), hne (d := ':') (by decide), hne (d := '*') (by decide),
    hne (d := '&') (by decide), hne (d := '\'') (by decide), hne (d := '"') (by decide),
    startsPlain_of_isWordChar hc, Bool.false_eq_true, and_false, false_and, or_self, if_false,
    if_true]

/-- A quoted scalar at the cursor. -/
theorem token_quoted (hloose : Loose candidate) (text : String) :
    (reading place (scalarText text .quoted ++ rest) candidate outer keyAllowed tokens).token =
      some (reading (place.skip (scalarText text .quoted).length) rest
        (nextCandidate place candidate keyAllowed tokens) outer false
        (tokens ++ [.scalar text .quoted])) := by
  have hread : quoted '"' (text.toList.flatMap escape ++ '"' :: rest) (place.skip 1) .text
      (.within []) [] =
      some ⟨text.toList.reverse ++ ([] ++ []), false,
        ⟨(place.skip 1).skip ((text.toList.flatMap escape).length + 1), rest⟩⟩ :=
    quoted_text text.toList [] (Nat.succ_pos _)
  have hscalar : (reading place (scalarText text .quoted ++ rest) candidate outer keyAllowed
      tokens).quotedScalar '"' =
      some (reading (place.skip (scalarText text .quoted).length) rest
        (nextCandidate place candidate keyAllowed tokens) outer false
        (tokens ++ [.scalar text .quoted])) := by
    rw [Reader.quotedScalar, setCandidate_reading hloose, Option.bind_some]
    simp only [reading, Reader.skip, Reader.moveTo, scalarText, List.cons_append, List.append_assoc,
      List.nil_append, List.drop_one, List.tail_cons]
    rw [Blanks.none, hread]
    simp [Reader.scalar, Reader.push, Reader.moveTo, Nat.add_comm 1, Nat.add_assoc]
  rw [← hscalar]
  simp [Reader.token, reading, scalarText, startsMarker_cons_ne]

/-- A word at the cursor. -/
theorem token_word (hloose : Loose candidate) (hdeep : outer ≠ []) {text : String}
    (hword : isWord text.toList = true) (hend : EndsScalar rest) :
    (reading place (text.toList ++ rest) candidate outer keyAllowed tokens).token =
      some (reading (place.skip text.toList.length) rest
        (nextCandidate place candidate keyAllowed tokens) outer false
        (tokens ++ [.scalar text .plain])) := by
  obtain ⟨hne, hall⟩ : text.toList ≠ [] ∧ text.toList.all isWordChar = true := by
    simpa [isWord] using hword
  obtain ⟨c, more, htext⟩ := List.exists_cons_of_ne_nil hne
  have hc : isWordChar c = true := List.all_eq_true.mp hall c (by rw [htext]; exact .head more)
  have hflow : (reading place (text.toList ++ rest)
      (nextCandidate place candidate keyAllowed tokens) outer keyAllowed tokens).inFlow = true := by
    simp [Reader.inFlow, reading, hdeep]
  have htoken : (reading place (text.toList ++ rest) candidate outer keyAllowed tokens).token =
      (reading place (text.toList ++ rest) candidate outer keyAllowed tokens).plainScalar :=
    token_of_isWordChar hc (by rw [reading, htext, List.cons_append])
  rw [htoken, Reader.plainScalar, setCandidate_reading hloose, Option.bind_some, hflow]
  simp only [reading, plain_word hall hend]
  simp [Reader.scalar, Reader.push, Reader.moveTo]

/-- What is written for a scalar starts with a character that is not passed over. -/
theorem exists_solid_scalarText {text : String} {style : Style}
    (h : isWritableScalar text style = true) :
    ∃ c rest, scalarText text style = c :: rest ∧ isSolid c = true := by
  cases style with
  | quoted => exact ⟨'"', _, rfl, by decide⟩
  | plain =>
    obtain ⟨hne, hall⟩ : text.toList ≠ [] ∧ text.toList.all isWordChar = true := by
      simpa [isWritableScalar, isWord] using h
    obtain ⟨c, rest, htext⟩ := List.exists_cons_of_ne_nil hne
    have hc : isWordChar c = true := List.all_eq_true.mp hall c (by rw [htext]; exact .head rest)
    refine ⟨c, rest, htext, ?_⟩
    simp [isSolid, isBreak_of_isWordChar hc, isSpace_of_isWordChar hc,
      isWordChar_ne hc (d := '#') (by decide), isWordChar_ne hc (d := '\uFEFF') (by decide)]

/-- **A scalar is one token, and the candidate where a key may start.** -/
theorem run_scalar (hloose : Loose candidate) (hdeep : outer ≠ []) {text : String} {style : Style}
    (hwritable : isWritableScalar text style = true) (hend : EndsScalar rest) (count : Nat) :
    (reading place (List.replicate count ' ' ++ (scalarText text style ++ rest)) candidate outer
      keyAllowed tokens).run =
      (reading (place.skip (count + (scalarText text style).length)) rest
        (nextCandidate (place.skip count) candidate keyAllowed tokens) outer false
        (tokens ++ [.scalar text style])).run := by
  have htoken : (reading (place.skip count) (scalarText text style ++ rest) candidate outer
      keyAllowed tokens).token =
      some (reading (place.skip (count + (scalarText text style).length)) rest
        (nextCandidate (place.skip count) candidate keyAllowed tokens) outer false
        (tokens ++ [.scalar text style])) := by
    rw [← Place.skip_skip]
    cases style with
    | quoted => exact token_quoted hloose text
    | plain => exact token_word hloose hdeep hwritable hend
  obtain ⟨c, more, htext, hsolid⟩ := exists_solid_scalarText hwritable
  rw [htext, List.cons_append] at htoken ⊢
  exact run_reading hsolid count htoken (by simp [reading])

end Reading

end Admission.Yaml
