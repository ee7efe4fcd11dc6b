/-!
# Fields of a text

Texts are handled as lists of characters wherever a rule looks inside them. Here a text is cut at
a separator into its fields and put together again, and cut once at the first occurrence of a mark.

Main statements: `unfields_fields` (cutting loses nothing), `not_mem_of_mem_fields` (no field holds
the separator), `fields_unfields` (fields that do not hold the separator come back),
`fields_append_sep` (a separator parts the fields on its two sides), and `cut_eq_some` (a cut gives
the text back). All loops are structural.
-/

namespace Admission.Text

/-! ## Cutting at every separator -/

/-- Puts a character in front of the first field. -/
def consField (c : Char) : List (List Char) → List (List Char)
  | [] => [[c]]
  | f :: fs => (c :: f) :: fs

/-- The fields of a text between the occurrences of `sep`; the empty text has one empty field. -/
def fields (sep : Char) : List Char → List (List Char)
  | [] => [[]]
  | c :: rest => if c = sep then [] :: fields sep rest else consField c (fields sep rest)

/-- The fields written one after the other with `sep` between them. -/
def unfields (sep : Char) : List (List Char) → List Char
  | [] => []
  | [f] => f
  | f :: g :: rest => f ++ sep :: unfields sep (g :: rest)

theorem consField_ne_nil (c : Char) (fs : List (List Char)) : consField c fs ≠ [] := by
  cases fs <;> simp [consField]

theorem fields_ne_nil (sep : Char) (text : List Char) : fields sep text ≠ [] := by
  cases text with
  | nil => simp [fields]
  | cons c rest =>
    rw [fields]
    split
    · simp
    · exact consField_ne_nil c _

theorem unfields_cons (sep : Char) (f : List Char) {fs : List (List Char)} (h : fs ≠ []) :
    unfields sep (f :: fs) = f ++ sep :: unfields sep fs := by
  cases fs with
  | nil => exact absurd rfl h
  | cons g rest => rfl

theorem unfields_append (sep : Char) {fs gs : List (List Char)} (hfs : fs ≠ []) (hgs : gs ≠ []) :
    unfields sep (fs ++ gs) = unfields sep fs ++ sep :: unfields sep gs := by
  induction fs with
  | nil => exact absurd rfl hfs
  | cons f rest ih =>
    by_cases hrest : rest = []
    · subst hrest
      exact unfields_cons sep f hgs
    · rw [List.cons_append, unfields_cons sep f (by simp [hrest]), unfields_cons sep f hrest,
        ih hrest]
      simp

theorem unfields_consField (sep c : Char) {fs : List (List Char)} (h : fs ≠ []) :
    unfields sep (consField c fs) = c :: unfields sep fs := by
  match fs, h with
  | [f], _ => rfl
  | f :: g :: rest, _ => rfl

/-- **Cutting loses nothing:** the fields put together again are the text. -/
@[simp]
theorem unfields_fields (sep : Char) (text : List Char) :
    unfields sep (fields sep text) = text := by
  induction text with
  | nil => rfl
  | cons c rest ih =>
    rw [fields]
    split
    · next h => rw [unfields_cons _ _ (fields_ne_nil sep rest), ih, h]; rfl
    · rw [unfields_consField _ _ (fields_ne_nil sep rest), ih]

/-- **No field holds the separator.** -/
theorem not_mem_of_mem_fields {sep : Char} {text f : List Char} (h : f ∈ fields sep text) :
    sep ∉ f := by
  induction text generalizing f with
  | nil => simp_all [fields]
  | cons c rest ih =>
    rw [fields] at h
    split at h
    · rcases List.mem_cons.mp h with rfl | h
      · simp
      · exact ih h
    · next hc =>
      generalize hg : fields sep rest = gs at h ih
      match gs, h with
      | [], h =>
        rcases List.mem_singleton.mp h with rfl
        simpa using fun e => hc e.symm
      | g :: gs, h =>
        rcases List.mem_cons.mp h with rfl | h
        · have := ih (f := g) (by simp)
          simp [this]
          exact fun e => hc e.symm
        · exact ih (by simp [h])

/-- A text without the separator is its own only field. -/
theorem fields_of_not_mem {sep : Char} {text : List Char} (h : sep ∉ text) :
    fields sep text = [text] := by
  induction text with
  | nil => rfl
  | cons c rest ih =>
    simp only [List.mem_cons, not_or] at h
    rw [fields, if_neg (fun e => h.1 e.symm), ih h.2]
    rfl

/-- The first field of a text is what stands before the first separator. -/
theorem headD_fields (sep : Char) (text : List Char) :
    (fields sep text).headD [] = text.takeWhile (· ≠ sep) := by
  induction text with
  | nil => rfl
  | cons c rest ih =>
    rw [fields]
    by_cases hc : c = sep
    · subst hc
      simp
    · rw [if_neg hc, List.takeWhile_cons, if_pos (decide_eq_true hc), ← ih]
      cases hfields : fields sep rest with
      | nil => exact absurd hfields (fields_ne_nil sep rest)
      | cons field more => rfl

theorem fields_append_cons {sep : Char} {f : List Char} (h : sep ∉ f) (rest : List Char) :
    fields sep (f ++ sep :: rest) = f :: fields sep rest := by
  induction f with
  | nil => simp [fields]
  | cons c tail ih =>
    simp only [List.mem_cons, not_or] at h
    rw [List.cons_append, fields, if_neg (fun e => h.1 e.symm), ih h.2]
    rfl

/-- **Fields without the separator come back** when they are put together and cut again. -/
theorem fields_unfields {sep : Char} {fs : List (List Char)} (hne : fs ≠ [])
    (h : ∀ f ∈ fs, sep ∉ f) : fields sep (unfields sep fs) = fs := by
  induction fs with
  | nil => exact absurd rfl hne
  | cons f rest ih =>
    obtain ⟨hf, hrest⟩ := List.forall_mem_cons.mp h
    by_cases hlast : rest = []
    · subst hlast
      exact fields_of_not_mem hf
    · rw [unfields_cons sep f hlast, fields_append_cons hf, ih hlast hrest]

theorem fields_eq_splitOn (sep : Char) (text : List Char) : fields sep text = text.splitOn sep := by
  induction text with
  | nil => rfl
  | cons c rest ih =>
    rw [fields, List.splitOn_cons_eq_if_modifyHead, ← ih]
    by_cases hc : c = sep
    · simp [hc]
    · rw [if_neg hc, if_neg (by simpa using hc)]
      cases hfields : fields sep rest with
      | nil => exact absurd hfields (fields_ne_nil sep rest)
      | cons field more => rfl

theorem splitOn_cons_sep (sep : Char) (text : List Char) :
    (sep :: text).splitOn sep = [] :: text.splitOn sep :=
  List.splitOn_append_cons_self [] text

theorem unfields_eq_intercalate (sep : Char) (fs : List (List Char)) :
    unfields sep fs = [sep].intercalate fs := by
  induction fs with
  | nil => rfl
  | cons f rest ih =>
    cases rest with
    | nil => simp [unfields]
    | cons g more => rw [unfields_cons sep f (by simp), ih, List.intercalate_cons_cons]; simp

/-- **A separator parts the fields before it from the fields after it.** -/
theorem fields_append_sep (sep : Char) (before after : List Char) :
    fields sep (before ++ sep :: after) = fields sep before ++ fields sep after := by
  simp only [fields_eq_splitOn, List.splitOn_append_cons_self]

/-- A character of a text is the separator or one of a field. -/
theorem eq_or_mem_of_mem_unfields {sep c : Char} {fs : List (List Char)}
    (h : c ∈ unfields sep fs) : c = sep ∨ ∃ f ∈ fs, c ∈ f := by
  induction fs with
  | nil => cases h
  | cons f rest ih =>
    by_cases hlast : rest = []
    · subst hlast
      exact .inr ⟨f, List.mem_cons_self, h⟩
    · rw [unfields_cons sep f hlast, List.mem_append, List.mem_cons] at h
      rcases h with hmem | rfl | hmem
      · exact .inr ⟨f, List.mem_cons_self, hmem⟩
      · exact .inl rfl
      · rcases ih hmem with rfl | ⟨g, hg, hmem⟩
        · exact .inl rfl
        · exact .inr ⟨g, List.mem_cons_of_mem f hg, hmem⟩

/-- The characters of the fields are all written. -/
theorem mem_unfields_of_mem (sep : Char) {c : Char} {fs : List (List Char)} {f : List Char}
    (hf : f ∈ fs) (hc : c ∈ f) : c ∈ unfields sep fs := by
  induction fs with
  | nil => cases hf
  | cons g rest ih =>
    by_cases hlast : rest = []
    · subst hlast
      obtain rfl := List.mem_singleton.mp hf
      exact hc
    · rw [unfields_cons sep g hlast]
      rcases List.mem_cons.mp hf with rfl | hrest
      · exact List.mem_append_left _ hc
      · exact List.mem_append_right _ (List.mem_cons_of_mem sep (ih hrest))

/-! ## Cutting once -/

/-- The texts before and after the first occurrence of `mark`. -/
def cut (mark : List Char) : List Char → Option (List Char × List Char)
  | [] => if mark = [] then some ([], []) else none
  | c :: rest =>
    if mark.isPrefixOf (c :: rest) then some ([], (c :: rest).drop mark.length)
    else (cut mark rest).map fun (before, after) => (c :: before, after)

/-- **A cut gives the text back.** -/
theorem cut_eq_some {mark text before after : List Char}
    (h : cut mark text = some (before, after)) :
    text = before ++ mark ++ after := by
  induction text generalizing before with
  | nil =>
    rw [cut] at h
    split at h
    · next hm => simp_all
    · simp at h
  | cons c rest ih =>
    rw [cut] at h
    split at h
    · next hp =>
      obtain ⟨tail, ht⟩ := List.isPrefixOf_iff_prefix.mp hp
      simp only [Option.some.injEq, Prod.mk.injEq] at h
      obtain ⟨rfl, rfl⟩ := h
      rw [← ht]
      simp
    · obtain ⟨⟨b, a⟩, hb, he⟩ := Option.map_eq_some_iff.mp h
      simp only [Prod.mk.injEq] at he
      obtain ⟨rfl, rfl⟩ := he
      simp [ih hb]

/-- A cut passes over characters that the mark does not start with. -/
theorem cut_append {m : Char} {mark f : List Char} (h : m ∉ f) (rest : List Char) :
    cut (m :: mark) (f ++ rest) =
      (cut (m :: mark) rest).map fun (before, after) => (f ++ before, after) := by
  induction f with
  | nil => simp
  | cons c tail ih =>
    simp only [List.mem_cons, not_or] at h
    have hprefix : ¬ (m :: mark).isPrefixOf (c :: (tail ++ rest)) := by
      simp [List.isPrefixOf, h.1]
    rw [List.cons_append, cut, if_neg hprefix, ih h.2, Option.map_map]
    rfl

/-- The text after `mark`, if it starts with it. -/
def after? (mark text : List Char) : Option (List Char) :=
  if mark.isPrefixOf text then some (text.drop mark.length) else none

theorem after?_eq_some {mark text rest : List Char} :
    after? mark text = some rest ↔ text = mark ++ rest := by
  unfold after?
  split
  · next hp =>
    obtain ⟨tail, rfl⟩ := List.isPrefixOf_iff_prefix.mp hp
    simp [eq_comm]
  · next hp =>
    simp only [reduceCtorEq, false_iff]
    rintro rfl
    exact hp (List.isPrefixOf_iff_prefix.mpr ⟨rest, rfl⟩)

end Admission.Text
