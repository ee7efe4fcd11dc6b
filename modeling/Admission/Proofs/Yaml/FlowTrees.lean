import Admission.Proofs.Yaml.FlowTokens
import Admission.Yaml.Document
/-!
# Reading back documents on one line

A tree that can be written is read back from what is written for it. The way leads over the tokens
of the tree: the text of a tree leads the main loop to its tokens, whatever stands before and behind
(`flow_leadsTo`), and the grammar reads the tokens of a tree as the tree, whatever comes after them
(`node?_tokens`). Both go by induction on the tree, with one case for each kind of node, and with
items and entries beside it.

Main statement: `ofString?_flow`.
-/

namespace Admission.Yaml

/-! ## The tokens of a tree -/

mutual

/-- The tokens of a tree in flow style. -/
def Node.tokens : Node → List Token
  | .scalar text style => [.scalar text style]
  | .sequence items => .flowSequence :: (itemTokens items ++ [.flowSequenceEnd])
  | .mapping entries => .flowMapping :: (entryTokens entries ++ [.flowMappingEnd])

/-- The tokens of items. -/
def itemTokens : List Node → List Token
  | [] => []
  | [item] => item.tokens
  | item :: rest => item.tokens ++ .flowEntry :: itemTokens rest

/-- The tokens of entries. -/
def entryTokens : List (Node × Node) → List Token
  | [] => []
  | [(key, value)] => .key :: (key.tokens ++ .value :: value.tokens)
  | (key, value) :: rest =>
    .key :: (key.tokens ++ .value :: (value.tokens ++ .flowEntry :: entryTokens rest))

end

theorem itemTokens_cons_cons (item next : Node) (rest : List Node) :
    itemTokens (item :: next :: rest) = item.tokens ++ .flowEntry :: itemTokens (next :: rest) :=
  rfl

theorem entryTokens_cons_cons (key value : Node) (next : Node × Node)
    (rest : List (Node × Node)) :
    entryTokens ((key, value) :: next :: rest) =
      .key :: (key.tokens ++
        .value :: (value.tokens ++ .flowEntry :: entryTokens (next :: rest))) :=
  rfl

/-! ## From characters to tokens -/

/-- Whether the main loop gets from a reader to certain tokens with a certain text left. -/
def LeadsTo (reader : Reader) (rest : List Char) (outer : List (Option Candidate))
    (tokens : List Token) : Prop :=
  ∃ place candidate, Loose candidate ∧
    reader.run = (reading place rest candidate outer false tokens).run

theorem LeadsTo.of_run {reader next : Reader} {rest : List Char}
    {outer : List (Option Candidate)} {tokens : List Token} (hrun : reader.run = next.run)
    (h : LeadsTo next rest outer tokens) : LeadsTo reader rest outer tokens := by
  obtain ⟨place, candidate, hloose, heq⟩ := h
  exact ⟨place, candidate, hloose, hrun.trans heq⟩

/-- A first part of a text, and then the rest of it. -/
theorem LeadsTo.andThen {reader : Reader} {between rest : List Char}
    {inner outer : List (Option Candidate)} {before tokens : List Token}
    (h : LeadsTo reader between inner before)
    (hnext : ∀ place candidate, Loose candidate →
      LeadsTo (reading place between candidate inner false before) rest outer tokens) :
    LeadsTo reader rest outer tokens := by
  obtain ⟨place, candidate, hloose, heq⟩ := h
  exact .of_run heq (hnext place candidate hloose)

theorem endsScalar_of_mem {c : Char} (hc : c ∈ [',', ']', '}']) (rest : List Char) :
    EndsScalar (c :: rest) :=
  ⟨c, rest, rfl, .inl hc⟩

theorem endsScalar_colon (rest : List Char) : EndsScalar (':' :: ' ' :: rest) :=
  ⟨':', ' ' :: rest, rfl, .inr ⟨rfl, rfl⟩⟩

/-- A key and its colon. -/
theorem key_leadsTo {key : Node} (hkey : key.isKey = true) {candidate : Option Candidate}
    {outer : List (Option Candidate)} (hdeep : outer ≠ []) (hloose : Loose candidate)
    (rest : List Char) (place : Place) (count : Nat) (tokens : List Token) :
    LeadsTo (reading place (List.replicate count ' ' ++ (key.flow ++ ':' :: ' ' :: rest)) candidate
      outer true tokens) (' ' :: rest) outer (tokens ++ .key :: (key.tokens ++ [.value])) := by
  cases key with
  | sequence items => cases hkey
  | mapping entries => cases hkey
  | scalar text style =>
    obtain ⟨hwritable, hlength⟩ : isWritableScalar text style = true ∧
        (scalarText text style).length ≤ 1024 := by
      simpa [Node.isKey] using hkey
    have hnear : (place.skip (count + (scalarText text style).length)).index ≤
        (place.skip count).index + 1024 := by
      simp only [Place.skip]
      omega
    refine .of_run (run_scalar hloose hdeep hwritable (endsScalar_colon rest) count) ?_
    exact ⟨_, none, loose_none, run_colon hdeep rfl hnear⟩

/-- A key, its colon and its value, given what the value leads to. -/
theorem entry_leadsTo {key value : Node} (hkey : key.isKey = true) {candidate : Option Candidate}
    {outer : List (Option Candidate)} (hdeep : outer ≠ []) (hloose : Loose candidate)
    {rest : List Char}
    (hvalue : ∀ place candidate tokens, Loose candidate →
      LeadsTo (reading place (' ' :: (value.flow ++ rest)) candidate outer false tokens) rest outer
        (tokens ++ value.tokens))
    (place : Place) (count : Nat) (tokens : List Token) :
    LeadsTo (reading place (List.replicate count ' ' ++
      (key.flow ++ ':' :: ' ' :: (value.flow ++ rest))) candidate outer true tokens) rest outer
      (tokens ++ .key :: (key.tokens ++ .value :: value.tokens)) := by
  have htokens : tokens ++ .key :: (key.tokens ++ .value :: value.tokens) =
      tokens ++ .key :: (key.tokens ++ [.value]) ++ value.tokens := by
    simp
  rw [htokens]
  exact (key_leadsTo hkey hdeep hloose (value.flow ++ rest) place count tokens).andThen
    fun place candidate hloose => hvalue place candidate _ hloose

mutual

/-- **What is written for a tree leads to the tokens of the tree.** -/
theorem flow_leadsTo (node : Node) (hwritable : node.isWritable = true) (rest : List Char)
    (outer : List (Option Candidate))
    (hscalar : ∀ text style, node = .scalar text style → outer ≠ [] ∧ EndsScalar rest)
    {candidate : Option Candidate} (hloose : Loose candidate) (place : Place) (count : Nat)
    (keyAllowed : Bool) (tokens : List Token) :
    LeadsTo (reading place (List.replicate count ' ' ++ (node.flow ++ rest)) candidate outer
      keyAllowed tokens) rest outer (tokens ++ node.tokens) := by
  match node with
  | .scalar text style =>
    obtain ⟨hdeep, hend⟩ := hscalar text style rfl
    exact ⟨_, _, loose_nextCandidate hloose _ _ _, run_scalar hloose hdeep hwritable hend count⟩
  | .sequence items =>
    have hitems := flowItems_leadsTo items hwritable rest outer loose_none
      (loose_nextCandidate hloose (place.skip count) keyAllowed tokens) (place.skip (count + 1)) 0
      true (tokens ++ [.flowSequence])
    rw [Node.flow, Node.tokens, List.append_cons tokens, List.cons_append,
      List.append_assoc _ [']']]
    exact .of_run (run_open (.inl ⟨rfl, rfl⟩) hloose count) hitems
  | .mapping entries =>
    have hentries := flowEntries_leadsTo entries hwritable rest outer loose_none
      (loose_nextCandidate hloose (place.skip count) keyAllowed tokens) (place.skip (count + 1)) 0
      (tokens ++ [.flowMapping])
    rw [Node.flow, Node.tokens, List.append_cons tokens, List.cons_append,
      List.append_assoc _ ['}']]
    exact .of_run (run_open (.inr ⟨rfl, rfl⟩) hloose count) hentries

/-- What is written for items, and the bracket behind them. -/
theorem flowItems_leadsTo (items : List Node) (hwritable : areWritable items = true)
    (rest : List Char) (outer : List (Option Candidate)) {candidate around : Option Candidate}
    (hloose : Loose candidate) (haround : Loose around) (place : Place) (count : Nat)
    (keyAllowed : Bool) (tokens : List Token) :
    LeadsTo (reading place (List.replicate count ' ' ++ (flowItems items ++ ']' :: rest)) candidate
      (around :: outer) keyAllowed tokens) rest outer
      (tokens ++ (itemTokens items ++ [.flowSequenceEnd])) := by
  match items with
  | [] => exact ⟨_, around, haround, run_close (.inl ⟨rfl, rfl⟩) hloose count⟩
  | [item] =>
    obtain ⟨hitem, -⟩ : item.isWritable = true ∧ areWritable [] = true := by
      simpa only [areWritable, Bool.and_eq_true] using hwritable
    have hread := flow_leadsTo item hitem (']' :: rest) (around :: outer)
      (fun _ _ _ => ⟨List.cons_ne_nil _ _, endsScalar_of_mem (by decide) rest⟩) hloose place count
      keyAllowed tokens
    rw [flowItems, itemTokens, ← List.append_assoc tokens]
    refine hread.andThen fun place candidate hloose => ?_
    exact ⟨_, around, haround, run_close (.inl ⟨rfl, rfl⟩) hloose 0⟩
  | item :: next :: more =>
    obtain ⟨hitem, hmore⟩ : item.isWritable = true ∧ areWritable (next :: more) = true := by
      rwa [areWritable, Bool.and_eq_true] at hwritable
    have hread := flow_leadsTo item hitem (',' :: ' ' :: (flowItems (next :: more) ++ ']' :: rest))
      (around :: outer) (fun _ _ _ => ⟨List.cons_ne_nil _ _, endsScalar_of_mem (by decide) _⟩)
      hloose place count keyAllowed tokens
    have htail : ∀ place before, LeadsTo (reading place
        (' ' :: (flowItems (next :: more) ++ ']' :: rest)) none (around :: outer) true before)
        rest outer (before ++ (itemTokens (next :: more) ++ [.flowSequenceEnd])) :=
      fun place before =>
        flowItems_leadsTo (next :: more) hmore rest outer loose_none haround place 1 true before
    have htokens : tokens ++ (itemTokens (item :: next :: more) ++ [.flowSequenceEnd]) =
        tokens ++ item.tokens ++ [.flowEntry] ++
          (itemTokens (next :: more) ++ [.flowSequenceEnd]) := by
      simp [itemTokens_cons_cons]
    rw [flowItems_cons_cons, List.append_assoc item.flow, List.cons_append, List.cons_append,
      htokens]
    exact hread.andThen fun place candidate hloose => .of_run (run_comma hloose) (htail _ _)

/-- What is written for entries, and the brace behind them. -/
theorem flowEntries_leadsTo (entries : List (Node × Node))
    (hwritable : areWritableEntries entries = true) (rest : List Char)
    (outer : List (Option Candidate)) {candidate around : Option Candidate}
    (hloose : Loose candidate) (haround : Loose around) (place : Place) (count : Nat)
    (tokens : List Token) :
    LeadsTo (reading place (List.replicate count ' ' ++ (flowEntries entries ++ '}' :: rest))
      candidate (around :: outer) true tokens) rest outer
      (tokens ++ (entryTokens entries ++ [.flowMappingEnd])) := by
  match entries with
  | [] => exact ⟨_, around, haround, run_close (.inr ⟨rfl, rfl⟩) hloose count⟩
  | [(key, value)] =>
    obtain ⟨⟨hkey, hvalue⟩, -⟩ : (key.isKey = true ∧ value.isWritable = true) ∧
        areWritableEntries [] = true := by
      simpa only [areWritableEntries, Bool.and_eq_true] using hwritable
    have hread := entry_leadsTo hkey (List.cons_ne_nil around outer) hloose
      (fun place candidate tokens hloose => flow_leadsTo value hvalue ('}' :: rest)
        (around :: outer) (fun _ _ _ => ⟨List.cons_ne_nil _ _, endsScalar_of_mem (by decide) rest⟩)
        hloose place 1 false tokens) place count tokens
    rw [flowEntries, entryTokens, List.append_assoc key.flow, List.cons_append, List.cons_append,
      ← List.append_assoc tokens]
    refine hread.andThen fun place candidate hloose => ?_
    exact ⟨_, around, haround, run_close (.inr ⟨rfl, rfl⟩) hloose 0⟩
  | (key, value) :: next :: more =>
    obtain ⟨⟨hkey, hvalue⟩, hmore⟩ : (key.isKey = true ∧ value.isWritable = true) ∧
        areWritableEntries (next :: more) = true := by
      rwa [areWritableEntries, Bool.and_eq_true, Bool.and_eq_true] at hwritable
    have hread := entry_leadsTo hkey (List.cons_ne_nil around outer) hloose
      (fun place candidate tokens hloose => flow_leadsTo value hvalue
        (',' :: ' ' :: (flowEntries (next :: more) ++ '}' :: rest)) (around :: outer)
        (fun _ _ _ => ⟨List.cons_ne_nil _ _, endsScalar_of_mem (by decide) _⟩)
        hloose place 1 false tokens) place count tokens
    have htail : ∀ place before, LeadsTo (reading place
        (' ' :: (flowEntries (next :: more) ++ '}' :: rest)) none (around :: outer) true before)
        rest outer (before ++ (entryTokens (next :: more) ++ [.flowMappingEnd])) :=
      fun place before =>
        flowEntries_leadsTo (next :: more) hmore rest outer loose_none haround place 1 before
    have htokens : tokens ++ (entryTokens ((key, value) :: next :: more) ++ [.flowMappingEnd]) =
        tokens ++ .key :: (key.tokens ++ .value :: value.tokens) ++ [.flowEntry] ++
          (entryTokens (next :: more) ++ [.flowMappingEnd]) := by
      simp [entryTokens_cons_cons]
    rw [flowEntries_cons_cons, List.append_assoc key.flow, List.cons_append, List.cons_append,
      List.append_assoc value.flow, List.cons_append, List.cons_append, htokens]
    exact hread.andThen fun place candidate hloose => .of_run (run_comma hloose) (htail _ _)

end

/-! ## Allowed characters -/

theorem isAllowed_of_printable {c : Char} (low : 0x20 ≤ c.toNat) (high : c.toNat ≤ 0x7E) :
    isAllowed c = true := by
  simp [isAllowed, low, high]

theorem isAllowed_of_isWordChar {c : Char} (hc : isWordChar c = true) : isAllowed c = true := by
  have hrange : 0x20 ≤ c.toNat ∧ c.toNat ≤ 0x7E := by
    simp only [isWordChar, Bool.or_eq_true, Bool.and_eq_true, decide_eq_true_eq, beq_iff_eq] at hc
    rcases hc with ((⟨hlow, hhigh⟩ | ⟨hlow, hhigh⟩) | ⟨hlow, hhigh⟩) | rfl
    · exact ⟨Nat.le_trans (by decide) hlow, Nat.le_trans hhigh (by decide)⟩
    · exact ⟨Nat.le_trans (by decide) hlow, Nat.le_trans hhigh (by decide)⟩
    · exact ⟨Nat.le_trans (by decide) hlow, Nat.le_trans hhigh (by decide)⟩
    · decide
  exact isAllowed_of_printable hrange.1 hrange.2

theorem isAllowed_hexDigits (count n : Nat) : (hexDigits count n).all isAllowed = true := by
  induction count with
  | zero => rfl
  | succ count ih =>
    have hdigits : ∀ d < 16, isAllowed (Nat.digitChar d) = true := by decide
    rw [hexDigits, List.all_cons, ih, hdigits _ (Nat.mod_lt _ (by decide))]
    rfl

theorem isAllowed_escape (c : Char) : (escape c).all isAllowed = true := by
  unfold escape
  by_cases hverbatim : isVerbatim c = true
  · obtain ⟨low, high, -, -⟩ := isVerbatim_iff.mp hverbatim
    rw [if_pos hverbatim, List.all_cons, isAllowed_of_printable low high]
    rfl
  · rw [if_neg hverbatim]
    by_cases hmarked : c = '"' ∨ c = '\\'
    · rw [if_pos hmarked]
      rcases hmarked with rfl | rfl <;> decide
    · rw [if_neg hmarked, List.all_cons, List.all_cons, isAllowed_hexDigits]
      rfl

theorem isAllowed_scalarText {text : String} {style : Style}
    (h : isWritableScalar text style = true) : (scalarText text style).all isAllowed = true := by
  cases style with
  | plain =>
    obtain ⟨-, hall⟩ : text.toList ≠ [] ∧ text.toList.all isWordChar = true := by
      simpa [isWritableScalar, isWord] using h
    rw [List.all_eq_true] at hall
    exact List.all_eq_true.mpr fun c hc => isAllowed_of_isWordChar (hall c hc)
  | quoted =>
    have hbody : (text.toList.flatMap escape).all isAllowed = true := by
      rw [List.all_flatMap]
      exact List.all_eq_true.mpr fun c _ => isAllowed_escape c
    rw [scalarText, List.all_cons, List.all_append, hbody]
    decide

theorem isAllowed_key {key : Node} (hkey : key.isKey = true) : key.flow.all isAllowed = true := by
  cases key with
  | sequence items => cases hkey
  | mapping entries => cases hkey
  | scalar text style =>
    rw [Node.isKey, Bool.and_eq_true] at hkey
    exact isAllowed_scalarText hkey.1

mutual

/-- What is written for a tree may stand in a document. -/
theorem isAllowed_flow (node : Node) (hwritable : node.isWritable = true) :
    node.flow.all isAllowed = true := by
  match node with
  | .scalar text style => exact isAllowed_scalarText hwritable
  | .sequence items =>
    rw [Node.flow, List.all_cons, List.all_append, isAllowed_flowItems items hwritable]
    decide
  | .mapping entries =>
    rw [Node.flow, List.all_cons, List.all_append, isAllowed_flowEntries entries hwritable]
    decide

theorem isAllowed_flowItems (items : List Node) (hwritable : areWritable items = true) :
    (flowItems items).all isAllowed = true := by
  match items with
  | [] => rfl
  | [item] =>
    simp only [areWritable, Bool.and_true] at hwritable
    exact isAllowed_flow item hwritable
  | item :: next :: more =>
    rw [areWritable, Bool.and_eq_true] at hwritable
    rw [flowItems_cons_cons, List.all_append, List.all_cons, List.all_cons,
      isAllowed_flow item hwritable.1, isAllowed_flowItems (next :: more) hwritable.2]
    decide

theorem isAllowed_flowEntries (entries : List (Node × Node))
    (hwritable : areWritableEntries entries = true) :
    (flowEntries entries).all isAllowed = true := by
  match entries with
  | [] => rfl
  | [(key, value)] =>
    simp only [areWritableEntries, Bool.and_true, Bool.and_eq_true] at hwritable
    rw [flowEntries, List.all_append, List.all_cons, List.all_cons, isAllowed_key hwritable.1,
      isAllowed_flow value hwritable.2]
    decide
  | (key, value) :: next :: more =>
    rw [areWritableEntries, Bool.and_eq_true, Bool.and_eq_true] at hwritable
    obtain ⟨⟨hkey, hvalue⟩, hmore⟩ := hwritable
    rw [flowEntries_cons_cons, List.all_append, List.all_cons, List.all_cons, List.all_append,
      List.all_cons, List.all_cons, isAllowed_key hkey, isAllowed_flow value hvalue,
      isAllowed_flowEntries (next :: more) hmore]
    decide

end

/-- **What is written for a collection has the tokens of the tree.** -/
theorem ofChars?_flow (node : Node) (hwritable : node.isWritable = true)
    (hcollection : ∀ text style, node ≠ .scalar text style) :
    Token.ofChars? node.flow = some node.tokens := by
  have hread := flow_leadsTo node hwritable [] []
    (fun text style h => absurd h (hcollection text style)) loose_none {} 0 true []
  obtain ⟨place, candidate, hloose, hrun⟩ := hread
  rw [List.append_nil, run_nil hloose] at hrun
  rw [Token.ofChars?, if_pos (isAllowed_flow node hwritable)]
  have hstart : Reader.run { cursor := ⟨{}, node.flow⟩ } = some ([] ++ node.tokens).toArray := hrun
  rw [hstart]
  rfl

/-! ## From tokens to trees -/

/-- A tree starts with a token that starts a node in flow style. -/
theorem exists_tokens_eq (node : Node) :
    ∃ first rest, node.tokens = first :: rest ∧ startsNode false false [first] = true := by
  cases node with
  | scalar text style => exact ⟨_, _, rfl, rfl⟩
  | sequence items => exact ⟨_, _, rfl, rfl⟩
  | mapping entries => exact ⟨_, _, rfl, rfl⟩

/-- What does not start a node is not what a tree starts with. -/
theorem ne_of_startsNode {first other : Token} (h : startsNode false false [first] = true)
    (hother : startsNode false false [other] = false) (rest rest' : List Token) :
    first :: rest = other :: rest' → False := by
  intro heq
  obtain ⟨rfl, -⟩ := List.cons.inj heq
  rw [h] at hother
  cases hother

section Grammar

variable {item key value : Node} {anchors : Anchors} {rest : List Token}

/-- An item that is no key is a node. -/
theorem flowItem?_of_node?
    (hitem : node? false false anchors (item.tokens ++ rest) = some ⟨item, anchors, rest⟩) :
    flowItem? anchors (item.tokens ++ rest) = some ⟨item, anchors, rest⟩ := by
  obtain ⟨first, more, htokens, hfirst⟩ := exists_tokens_eq item
  rw [← hitem, htokens, List.cons_append, flowItem?]
  exact fun _ => ne_of_startsNode hfirst rfl _ _

/-- The last item. -/
theorem flowItems?_last
    (hitem : node? false false anchors (item.tokens ++ .flowSequenceEnd :: rest) =
      some ⟨item, anchors, .flowSequenceEnd :: rest⟩) (done : List Node) :
    flowItems? anchors done (item.tokens ++ .flowSequenceEnd :: rest) =
      some ⟨item :: done, anchors, rest⟩ := by
  have hread := flowItem?_of_node? hitem
  obtain ⟨first, more, htokens, hfirst⟩ := exists_tokens_eq item
  rw [htokens, List.cons_append] at hread ⊢
  rw [flowItems?, hread]
  exact fun _ => ne_of_startsNode hfirst rfl _ _

/-- An item with others behind it. -/
theorem flowItems?_cons
    (hitem : node? false false anchors (item.tokens ++ .flowEntry :: rest) =
      some ⟨item, anchors, .flowEntry :: rest⟩) (done : List Node) :
    flowItems? anchors done (item.tokens ++ .flowEntry :: rest) =
      flowItems? anchors (item :: done) rest := by
  have hread := flowItem?_of_node? hitem
  have hless : rest.length < (item.tokens ++ .flowEntry :: rest).length := by
    rw [List.length_append, List.length_cons]
    omega
  obtain ⟨first, more, htokens, hfirst⟩ := exists_tokens_eq item
  rw [htokens, List.cons_append] at hread hless ⊢
  rw [flowItems?, hread]
  · simp only [if_pos hless]
  · exact fun _ => ne_of_startsNode hfirst rfl _ _

/-- A node where something else could stand instead. -/
theorem nodeUnless?_of_node? {heads : List Token}
    (hheads : ∀ head ∈ heads, startsNode false false [head] = false)
    (hitem : node? false false anchors (item.tokens ++ rest) = some ⟨item, anchors, rest⟩) :
    nodeUnless? heads false false anchors (item.tokens ++ rest) = some ⟨item, anchors, rest⟩ := by
  obtain ⟨first, more, htokens, hfirst⟩ := exists_tokens_eq item
  have hstart : startsWith (item.tokens ++ rest) heads = false := by
    rw [htokens, List.cons_append, startsWith, List.contains_eq_mem, decide_eq_false_iff_not]
    intro hmem
    exact ne_of_startsNode hfirst (hheads first hmem) [] [] rfl
  rw [nodeUnless?, hstart, if_neg Bool.false_ne_true, hitem]

/-- An entry: a key and its value. -/
theorem flowEntry?_of_node?
    (hkey : node? false false anchors (key.tokens ++ .value :: (value.tokens ++ rest)) =
      some ⟨key, anchors, .value :: (value.tokens ++ rest)⟩)
    (hvalue : node? false false anchors (value.tokens ++ rest) = some ⟨value, anchors, rest⟩) :
    flowEntry? anchors (.key :: (key.tokens ++ .value :: (value.tokens ++ rest))) =
      some ⟨(key, value), anchors, rest⟩ := by
  have hlength : (Token.value :: (value.tokens ++ rest)).length ≤
      (key.tokens ++ .value :: (value.tokens ++ rest)).length := by
    rw [List.length_append]
    omega
  rw [ flowEntry?, nodeUnless?_of_node? (by decide) hkey]
  simp only [if_pos hlength]
  rw [valueUnless?, nodeUnless?_of_node? (by decide) hvalue]
  rfl

/-- The last entry. -/
theorem flowEntries?_last
    (hkey : ∀ rest, node? false false anchors (key.tokens ++ rest) = some ⟨key, anchors, rest⟩)
    (hvalue : node? false false anchors (value.tokens ++ .flowMappingEnd :: rest) =
      some ⟨value, anchors, .flowMappingEnd :: rest⟩) (done : List (Node × Node)) :
    flowEntries? anchors done
      (.key :: (key.tokens ++ .value :: (value.tokens ++ .flowMappingEnd :: rest))) =
      some ⟨(key, value) :: done, anchors, rest⟩ := by
  rw [flowEntries?, flowEntry?_of_node? (hkey _) hvalue]
  simp

/-- An entry with others behind it. -/
theorem flowEntries?_cons
    (hkey : ∀ rest, node? false false anchors (key.tokens ++ rest) = some ⟨key, anchors, rest⟩)
    (hvalue : node? false false anchors (value.tokens ++ .flowEntry :: rest) =
      some ⟨value, anchors, .flowEntry :: rest⟩) (done : List (Node × Node)) :
    flowEntries? anchors done
      (.key :: (key.tokens ++ .value :: (value.tokens ++ .flowEntry :: rest))) =
      flowEntries? anchors ((key, value) :: done) rest := by
  have hless : rest.length <
      (Token.key :: (key.tokens ++ .value :: (value.tokens ++ .flowEntry :: rest))).length := by
    simp only [List.length_append, List.length_cons]
    omega
  rw [flowEntries?, flowEntry?_of_node? (hkey _) hvalue]
  · simp only [if_pos hless]
  · simp

end Grammar

mutual

/-- **The tokens of a tree are read as the tree.** -/
theorem node?_tokens (node : Node) (block indentless : Bool) (anchors : Anchors)
    (rest : List Token) :
    node? block indentless anchors (node.tokens ++ rest) = some ⟨node, anchors, rest⟩ := by
  match node with
  | .scalar text style => simp [Node.tokens, node?, content?]
  | .sequence items =>
    have hitems := flowItems?_tokens items anchors [] rest
    rw [Node.tokens, List.cons_append, List.append_assoc, List.singleton_append]
    simp only [node?, content?, hitems]
    simp [sequence]
  | .mapping entries =>
    have hentries := flowEntries?_tokens entries anchors [] rest
    rw [Node.tokens, List.cons_append, List.append_assoc, List.singleton_append]
    simp only [node?, content?, hentries]
    simp [mapping]

/-- The tokens of items and the one behind them are read as the items. -/
theorem flowItems?_tokens (items : List Node) (anchors : Anchors) (done : List Node)
    (rest : List Token) :
    flowItems? anchors done (itemTokens items ++ .flowSequenceEnd :: rest) =
      some ⟨items.reverse ++ done, anchors, rest⟩ := by
  match items with
  | [] => simp [itemTokens, flowItems?]
  | [item] =>
    rw [itemTokens, flowItems?_last (node?_tokens item false false anchors _) done]
    rfl
  | item :: next :: more =>
    rw [itemTokens_cons_cons, List.append_assoc, List.cons_append,
      flowItems?_cons (node?_tokens item false false anchors _) done,
      flowItems?_tokens (next :: more) anchors (item :: done) rest]
    simp

/-- The tokens of entries and the one behind them are read as the entries. -/
theorem flowEntries?_tokens (entries : List (Node × Node)) (anchors : Anchors)
    (done : List (Node × Node)) (rest : List Token) :
    flowEntries? anchors done (entryTokens entries ++ .flowMappingEnd :: rest) =
      some ⟨entries.reverse ++ done, anchors, rest⟩ := by
  match entries with
  | [] => simp [entryTokens, flowEntries?]
  | [(key, value)] =>
    rw [entryTokens, List.cons_append, List.append_assoc, List.cons_append,
      flowEntries?_last (node?_tokens key false false anchors)
        (node?_tokens value false false anchors _) done]
    rfl
  | (key, value) :: next :: more =>
    rw [entryTokens_cons_cons, List.cons_append, List.append_assoc, List.cons_append,
      List.append_assoc, List.cons_append, flowEntries?_cons (node?_tokens key false false anchors)
        (node?_tokens value false false anchors _) done,
      flowEntries?_tokens (next :: more) anchors ((key, value) :: done) rest]
    simp

end

/-- **A collection as it is written is read back.** -/
theorem ofString?_flow (node : Node) (hwritable : node.isWritable = true)
    (hcollection : ∀ text style, node ≠ .scalar text style) :
    Node.ofString? (String.ofList node.flow) = some [node] := by
  have hnode := node?_tokens node true false [] []
  rw [Node.ofString?, String.toList_ofList, ofChars?_flow node hwritable hcollection,
    Option.bind_some]
  obtain ⟨first, rest, htokens, hfirst⟩ := exists_tokens_eq node
  have hfurther : furtherDocuments? [] = some [] := by
    rw [furtherDocuments?]
    rfl
  rw [List.append_nil] at hnode
  rw [htokens] at hnode ⊢
  rw [documents?, hnode]
  · simp only [hfurther, Option.map_some]
  · intro hnil
    cases hnil
  · exact fun _ => ne_of_startsNode hfirst rfl _ _

end Admission.Yaml
