import Admission.Path.Pattern
import Admission.Proofs.Path.NormalForm
/-!
# Wildcard patterns

A pattern with a `*` is compared as a text: its stem and a slash have to stand at the front of the
resolved path and a slash. The slash at both ends makes this a comparison of whole segments. Because
resolved paths are canonical and stems are taken as they are written, a stem at the root that is not
canonical is met by no path at all.

1. `append_sep_prefix_iff`: one text and a separator stand at the front of another text and a
   separator exactly if the fields of the one stand at the front of the fields of the other
2. `accepts_iff_stem`, `accepts_iff_splitOn`: so a pattern compares segments
3. `isCanonical_of_prefix_splitOn`: at the root, only canonical stems are met
4. `wildcard_compares_segments`: what follows for all patterns with a `*` and all paths
-/

namespace Admission

/-- **A separator at both ends makes a comparison of texts one of whole fields.** -/
theorem Text.append_sep_prefix_iff (sep : Char) (front text : List Char) :
    front ++ [sep] <+: text ++ [sep] ↔ fields sep front <+: fields sep text := by
  constructor
  · rintro ⟨rest, hrest⟩
    have hjoined : front ++ sep :: rest = text ++ [sep] := by simpa using hrest
    have hfields : fields sep front ++ fields sep rest = fields sep text ++ [[]] := by
      rw [← fields_append_sep, hjoined, fields_append_sep, fields]
    -- the last field on both sides is the empty one behind the last separator
    refine ⟨(fields sep rest).dropLast, ?_⟩
    rw [← List.dropLast_append_of_ne_nil (fields_ne_nil sep rest), hfields, List.dropLast_concat]
  · rintro ⟨more, hmore⟩
    have htext := unfields_fields sep text
    by_cases hnil : more = []
    · rw [← hmore, hnil, List.append_nil, unfields_fields] at htext
      exact ⟨[], by rw [htext, List.append_nil]⟩
    · rw [← hmore, unfields_append sep (fields_ne_nil sep front) hnil, unfields_fields] at htext
      rw [← htext]
      exact ⟨unfields sep more ++ [sep], by simp⟩

namespace PathPattern

/-! ## The stem of a pattern -/

/-- The stem of a pattern is the pattern without one final `/*`, or else the whole pattern. -/
inductive IsStem : String → String → Prop where
  | cut (stem : String) : IsStem (stem ++ "/*") stem
  | whole {pattern : String} (h : ∀ stem, pattern ≠ stem ++ "/*") : IsStem pattern pattern

variable {pattern stem path : String}

theorem exists_isStem (pattern : String) : ∃ stem, IsStem pattern stem := by
  by_cases h : ∃ stem, pattern = stem ++ "/*"
  · obtain ⟨stem, rfl⟩ := h
    exact ⟨stem, .cut stem⟩
  · exact ⟨pattern, .whole fun stem hpattern => h ⟨stem, hpattern⟩⟩

/-- Whether a pattern is its own stem shows in its last two characters. -/
theorem isSuffixOf_eq_false_iff :
    ending.isSuffixOf pattern.toList = false ↔ ∀ stem, pattern ≠ stem ++ "/*" := by
  rw [Bool.eq_false_iff, ne_eq, List.isSuffixOf_iff_suffix]
  constructor
  · rintro h stem rfl
    exact h ⟨stem.toList, by simp [ending]⟩
  · rintro h ⟨front, hfront⟩
    exact h (String.ofList front) (String.toList_inj.mp (by simp [← hfront, ending]))

theorem IsStem.stemChars_eq (h : IsStem pattern stem) :
    stemChars pattern.toList = stem.toList := by
  cases h with
  | cut =>
    simp [stemChars, ending]
  | whole h =>
    simp [stemChars, isSuffixOf_eq_false_iff.mpr h]

/-- A pattern with a `*` compiles to its stem and a slash. -/
theorem ofString_of_star (hstar : '*' ∈ pattern.toList) (hstem : IsStem pattern stem) :
    ofString pattern = .under (stem ++ "/") := by
  have hne : pattern.toList ≠ [] := List.ne_nil_of_mem hstar
  have hchars : String.ofList (stem.toList ++ ['/']) = stem ++ "/" :=
    String.toList_inj.mp (by simp)
  simp only [ofString, if_neg hne, if_pos hstar, hstem.stemChars_eq, hchars]

/-- A path satisfies a pattern with a `*` if the stem and a slash stand at the front of the resolved
path and a slash. -/
theorem accepts_iff_stem (hstar : '*' ∈ pattern.toList) (hstem : IsStem pattern stem) :
    (ofString pattern).accepts path = true ↔
      stem.toList ++ ['/'] <+: (Path.clean path).toList ++ ['/'] := by
  rw [ofString_of_star hstar hstem, accepts_under_iff, Path.toList_clean]
  simp

theorem accepts_iff_splitOn (hstar : '*' ∈ pattern.toList) (hstem : IsStem pattern stem) :
    (ofString pattern).accepts path = true ↔
      stem.toList.splitOn '/' <+: (Path.clean path).toList.splitOn '/' := by
  rw [accepts_iff_stem hstar hstem, Text.append_sep_prefix_iff, Text.fields_eq_splitOn,
    Text.fields_eq_splitOn]

/-- A path satisfies such a pattern if it resolves to the stem or to what lies under it. -/
theorem accepts_iff_eq_or_under (hstar : '*' ∈ pattern.toList) (hstem : IsStem pattern stem) :
    (ofString pattern).accepts path = true ↔
      Path.clean path = stem ∨ ∃ rest, Path.clean path = stem ++ "/" ++ rest := by
  rw [accepts_iff_stem hstar hstem, List.prefix_concat_iff]
  refine or_congr ?_ ?_
  · rw [List.append_cancel_right_eq, String.toList_inj, eq_comm]
  · constructor
    · rintro ⟨rest, hrest⟩
      refine ⟨String.ofList rest, String.toList_inj.mp ?_⟩
      simp [← hrest]
    · rintro ⟨rest, hrest⟩
      exact ⟨rest.toList, by simp [hrest]⟩

/-- A segment is met as a whole or not at all. -/
theorem accepts_eq_false_of_sibling (hstar : '*' ∈ pattern.toList) (hstem : IsStem pattern stem)
    {extra : String} (hextra : extra ≠ "") (hhead : extra.toList.head? ≠ some '/')
    (hclean : Path.clean path = stem ++ extra) : (ofString pattern).accepts path = false := by
  rw [Bool.eq_false_iff]
  intro haccepts
  rcases (accepts_iff_eq_or_under hstar hstem).mp haccepts with hsame | ⟨rest, hunder⟩
  · rw [hsame, ← String.toList_inj, String.toList_append, List.self_eq_append_right] at hclean
    exact hextra (String.toList_inj.mp hclean)
  · rw [hunder, String.append_assoc, String.append_right_inj] at hclean
    exact hhead (by simp [← hclean])

/-! ## Stems at the root -/

/-- The first segment of a canonical path is empty if and only if the path starts at the root. -/
theorem head?_of_prefix_splitOn {path : List Char} (h : Path.IsCanonical path)
    {fields : List (List Char)} (hfields : [] :: fields <+: path.splitOn '/') :
    path.head? = some '/' := by
  rw [← Text.fields_eq_splitOn] at hfields
  have hfirst := Text.headD_fields '/' path
  obtain ⟨more, hmore⟩ := hfields
  rw [← hmore, List.cons_append, List.headD_cons] at hfirst
  obtain ⟨c, rest, rfl⟩ := List.exists_cons_of_ne_nil h.ne_nil
  by_cases hc : c = '/'
  · rw [hc]
    rfl
  · rw [List.takeWhile_cons, if_pos (decide_eq_true hc)] at hfirst
    cases hfirst

/-- **At the root, only canonical stems are met**, and the root itself only by the root. -/
theorem isCanonical_of_prefix_splitOn {stem path : List Char} (hpath : Path.IsCanonical path)
    (hstem : stem.head? = some '/') (h : stem.splitOn '/' <+: path.splitOn '/') :
    Path.IsCanonical stem ∧ (stem = ['/'] → path = ['/']) := by
  obtain ⟨rest, rfl⟩ := List.head?_eq_some_iff.mp hstem
  rw [Text.splitOn_cons_sep] at h
  rcases hpath.splitOn_of_head? (head?_of_prefix_splitOn hpath h) with rfl |
    ⟨names, -, hnames, hpathSplit⟩
  · -- the root has two empty segments, so the stem has no more
    have hempty : rest.splitOn '/' <+: [[]] := (List.cons_prefix_cons.mp h).2
    have hsplitRest : rest.splitOn '/' = [[]] := by
      rw [← List.nil_append [[]], List.prefix_concat_iff] at hempty
      rcases hempty with hsame | hnone
      · exact hsame
      · exact absurd (List.prefix_nil.mp hnone) (List.splitOn_ne_nil '/' rest)
    have hjoin : ['/'].intercalate (rest.splitOn '/') = rest := List.intercalate_splitOn '/'
    rw [hsplitRest] at hjoin
    obtain rfl : [] = rest := hjoin
    exact ⟨.root, fun _ => rfl⟩
  · -- the segments of the stem are names because those of the path are
    rw [hpathSplit] at h
    have hrest : rest.splitOn '/' <+: names := (List.cons_prefix_cons.mp h).2
    have hareNames : ∀ name ∈ rest.splitOn '/', Path.IsName name := fun name hname =>
      hnames name (hrest.subset hname)
    refine ⟨?_, fun hroot => ?_⟩
    · have hcanonical := Path.IsCanonical.rooted (List.splitOn_ne_nil '/' rest) hareNames
      rw [List.intercalate_splitOn] at hcanonical
      exact hcanonical
    · obtain rfl : rest = [] := List.cons.inj hroot |>.2
      exact absurd rfl (hareNames [] (by simp)).ne_nil

/-- The root as a stem is met by what resolves to the root. -/
theorem accepts_iff_eq_root (hstar : '*' ∈ pattern.toList) (hstem : IsStem pattern "/") :
    (ofString pattern).accepts path = true ↔ Path.clean path = "/" := by
  rw [accepts_iff_splitOn hstar hstem]
  constructor
  · intro h
    have hpath := isCanonical_of_prefix_splitOn (Path.isCanonical_clean path) rfl h
    exact String.toList_inj.mp (hpath.2 rfl)
  · intro h
    exact ⟨[], by rw [h, List.append_nil]⟩

/-- The empty stem is met by what starts with a slash. -/
theorem accepts_iff_head? (path : String) :
    (ofString "/*").accepts path = true ↔ path.toList.head? = some '/' := by
  have hstem : IsStem "/*" "" := .cut ""
  rw [accepts_iff_splitOn (by decide) hstem, ← Path.head?_cleanChars, ← Path.toList_clean]
  constructor
  · exact head?_of_prefix_splitOn (Path.isCanonical_clean path)
  · intro hhead
    obtain ⟨rest, hrest⟩ := List.head?_eq_some_iff.mp hhead
    rw [hrest, Text.splitOn_cons_sep]
    exact List.prefix_append [[]] _

/-! ## All patterns with a `*` -/

/--
**Wildcard patterns compare segments.** Let a pattern hold a `*`. It has a stem, which is the
pattern without one final `/*`, or the whole pattern if it has none. A path satisfies the pattern if
and only if the segments of the stem stand at the front of the segments of the resolved path.

* So it satisfies the pattern exactly if it resolves to the stem or to the stem, a slash and
  anything, and never if it resolves to a longer text that goes on without a slash.
* For the root as a stem it satisfies the pattern exactly if it resolves to the root.
* For any other stem at the root that is not canonical it never does.
* It satisfies the pattern `/*` exactly if it starts with a slash.
-/
theorem wildcard_compares_segments {pattern : String} (hstar : '*' ∈ pattern.toList) :
    (∃ stem, IsStem pattern stem) ∧ ∀ stem, IsStem pattern stem → ∀ path : String,
      ((ofString pattern).accepts path = true ↔
        stem.toList.splitOn '/' <+: (Path.clean path).toList.splitOn '/') ∧
      ((ofString pattern).accepts path = true ↔
        Path.clean path = stem ∨ ∃ rest, Path.clean path = stem ++ "/" ++ rest) ∧
      (∀ extra : String, extra ≠ "" → extra.toList.head? ≠ some '/' →
        Path.clean path = stem ++ extra → (ofString pattern).accepts path = false) ∧
      (stem = "/" → ((ofString pattern).accepts path = true ↔ Path.clean path = "/")) ∧
      (stem.toList.head? = some '/' → ¬ Path.IsCanonical stem.toList →
        (ofString pattern).accepts path = false) ∧
      (pattern = "/*" →
        ((ofString pattern).accepts path = true ↔ path.toList.head? = some '/')) := by
  refine ⟨exists_isStem pattern, fun stem hstem path => ?_⟩
  refine ⟨accepts_iff_splitOn hstar hstem, accepts_iff_eq_or_under hstar hstem, ?_, ?_, ?_, ?_⟩
  · intro extra hextra hhead hclean
    exact accepts_eq_false_of_sibling hstar hstem hextra hhead hclean
  · rintro rfl
    exact accepts_iff_eq_root hstar hstem
  · intro hroot hstemNot
    rw [Bool.eq_false_iff]
    intro haccepts
    have hsegments := (accepts_iff_splitOn hstar hstem).mp haccepts
    exact hstemNot (isCanonical_of_prefix_splitOn (Path.isCanonical_clean path) hroot hsegments).1
  · rintro rfl
    exact accepts_iff_head? path

/-- What is under a stem, a sibling of a stem, a stem with a slash too many, the root as a stem, and
the empty stem. -/
theorem wildcard_compares_segments_of_api :
    ('*' ∈ "/api/*".toList ∧ IsStem "/api/*" "/api") ∧
      (ofString "/api/*").accepts "/x/../api//v1/" = true ∧
      (ofString "/api/*").accepts "/apiextra" = false ∧
      (ofString "/api//*").accepts "/api/v1" = false ∧
      (ofString "//*").accepts "/api/.." = true ∧
      (ofString "/*").accepts "/deep/path" = true := by
  have hstar : '*' ∈ "/api/*".toList := by decide
  have hstem : IsStem "/api/*" "/api" := .cut "/api"
  have hdoubled : IsStem "/api//*" "/api/" := .cut "/api/"
  obtain ⟨-, hunder, -⟩ := (wildcard_compares_segments hstar).2 _ hstem "/x/../api//v1/"
  obtain ⟨-, -, hsibling, -⟩ := (wildcard_compares_segments hstar).2 _ hstem "/apiextra"
  obtain ⟨-, -, -, -, hnone, -⟩ :=
    (wildcard_compares_segments (by decide)).2 _ hdoubled "/api/v1"
  obtain ⟨-, -, -, hroot, -⟩ :=
    (wildcard_compares_segments (by decide)).2 _ (.cut "/") "/api/.."
  obtain ⟨-, -, -, -, -, hall⟩ :=
    (wildcard_compares_segments (by decide)).2 _ (.cut "") "/deep/path"
  refine ⟨⟨hstar, hstem⟩, ?_, ?_, ?_, ?_, ?_⟩
  · exact hunder.mpr (.inr ⟨"v1", by decide⟩)
  · exact hsibling "extra" (by decide) (by decide) (by decide)
  · exact hnone (by decide) (by decide)
  · exact (hroot rfl).mpr (by decide)
  · exact (hall rfl).mpr (by decide)

end PathPattern

end Admission
