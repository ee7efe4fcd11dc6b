import Admission.Proofs.Path.Wildcards
import Admission.Rule
/-!
# Printed patterns

A compiled pattern is shown as a text, and the text can be compiled in turn. Which patterns come
back is said without compiling: a stem that ends in a slash, or a canonical path without a `*`. Each
pattern but the empty one compiles to one of these.

For a path this takes more than resolving it twice. Its text must not hold a `*`, and it does not
because resolving makes nothing up: what is written is a selection of the segments that were there.

1. `push_subset`, `segments_subset_fields`: the segments of a resolved path are the path's own
2. `mem_cleanChars`: so a resolved path holds no characters of its own but a slash and a point
3. `ofString_text_iff`: which compiled patterns come back
4. `isPrintable_ofString_iff`: they are those of the non-empty patterns
5. `printed_patterns_faithful`: what follows for all patterns and for the rules made with them
-/

namespace Admission

/-! ## Resolving makes nothing up -/

namespace Path

variable {rooted : Bool} {path : List Char} {c : Char}

/-- **A step puts nothing on the stack but the segment itself.** -/
theorem push_subset (rooted : Bool) (stack : List (List Char)) (segment : List Char) :
    push rooted stack segment ⊆ segment :: stack := by
  intro kept hkept
  unfold push at hkept
  split at hkept
  · exact List.mem_cons_of_mem segment hkept
  split at hkept
  · next hup =>
    subst hup
    cases stack with
    | nil =>
      cases rooted with
      | true => cases hkept
      | false => exact hkept
    | cons top below =>
      dsimp only at hkept
      split at hkept
      · exact List.mem_cons_of_mem up (List.mem_cons_of_mem top hkept)
      · cases rooted with
        | true => exact List.mem_cons_of_mem up hkept
        | false => exact hkept
  · exact hkept

theorem foldl_push_subset (segments stack : List (List Char)) :
    segments.foldl (push rooted) stack ⊆ segments ++ stack := by
  induction segments generalizing stack with
  | nil => exact List.Subset.refl stack
  | cons segment rest ih =>
    intro kept hkept
    rcases List.mem_append.mp (ih _ hkept) with hrest | hstack
    · exact List.mem_append_left stack (List.mem_cons_of_mem segment hrest)
    · rcases List.mem_cons.mp (push_subset rooted stack segment hstack) with rfl | hbelow
      · exact List.mem_append_left stack List.mem_cons_self
      · exact List.mem_append_right (segment :: rest) hbelow

/-- **Every segment of a resolved path is one of the path's own.** -/
theorem segments_subset_fields (path : List Char) :
    (resolve path).segments ⊆ Text.fields '/' path := by
  intro segment hsegment
  have hkept := foldl_push_subset _ [] (List.mem_reverse.mp hsegment)
  rwa [List.append_nil] at hkept

/-- What is written for a resolved path is made of its segments, slashes and at most a point. -/
theorem Resolved.mem_chars {resolved : Resolved} (h : c ∈ resolved.chars) :
    c = '/' ∨ c = '.' ∨ ∃ segment ∈ resolved.segments, c ∈ segment := by
  have hsegments : c ∈ Text.unfields '/' resolved.segments →
      c = '/' ∨ c = '.' ∨ ∃ segment ∈ resolved.segments, c ∈ segment := by
    intro hmem
    rcases Text.eq_or_mem_of_mem_unfields hmem with hslash | hsegment
    · exact .inl hslash
    · exact .inr (.inr hsegment)
  unfold Resolved.chars at h
  split at h
  · rcases List.mem_cons.mp h with hslash | hmem
    · exact .inl hslash
    · exact hsegments hmem
  split at h
  · exact .inr (.inl (List.mem_singleton.mp h))
  · exact hsegments h

/-- **A resolved path holds no characters of its own** but a slash and a point. -/
theorem mem_cleanChars (h : c ∈ cleanChars path) : c = '/' ∨ c = '.' ∨ c ∈ path := by
  rcases Resolved.mem_chars h with hslash | hpoint | ⟨segment, hsegment, hmem⟩
  · exact .inl hslash
  · exact .inr (.inl hpoint)
  · have hpath := Text.mem_unfields_of_mem '/' (segments_subset_fields path hsegment) hmem
    rw [Text.unfields_fields] at hpath
    exact .inr (.inr hpath)

theorem star_not_mem_clean {path : String} (h : '*' ∉ path.toList) :
    '*' ∉ (clean path).toList := by
  rw [toList_clean]
  intro hstar
  rcases mem_cleanChars hstar with hslash | hpoint | hmem
  · exact absurd hslash (by decide)
  · exact absurd hpoint (by decide)
  · exact h hmem

end Path

namespace PathPattern

/-! ## What patterns compile to -/

variable {pattern stem : String}

/-- A compiled pattern that its text tells in full: a stem that ends in a slash, or a canonical path
without a `*`. -/
inductive IsPrintable : PathPattern → Prop where
  | under (stem : String) : IsPrintable (.under (stem ++ "/"))
  | exact {path : String} (canonical : Path.IsCanonical path.toList)
      (star_not_mem : '*' ∉ path.toList) : IsPrintable (.exact path)

theorem ofString_of_star_not_mem (hne : pattern ≠ "") (hstar : '*' ∉ pattern.toList) :
    ofString pattern = .exact (Path.clean pattern) := by
  have hchars : pattern.toList ≠ [] := mt String.toList_eq_nil_iff.mp hne
  simp only [ofString, if_neg hchars, if_neg hstar]

/-- **The patterns that are not empty compile to what can be printed.** -/
theorem isPrintable_ofString_iff : IsPrintable (ofString pattern) ↔ pattern ≠ "" := by
  constructor
  · rintro h rfl
    cases h
  · intro hne
    by_cases hstar : '*' ∈ pattern.toList
    · obtain ⟨stem, hstem⟩ := exists_isStem pattern
      rw [ofString_of_star hstar hstem]
      exact .under stem
    · rw [ofString_of_star_not_mem hne hstar]
      exact .exact (Path.isCanonical_clean pattern) (Path.star_not_mem_clean hstar)

/-! ## Compiling what is printed -/

theorem text_under (stem : String) : (under (stem ++ "/")).text = stem ++ "/*" := by
  rw [text, String.append_assoc]
  rfl

/-- **The compiled patterns that come back are those that can be printed.** -/
theorem ofString_text_iff {compiled : PathPattern} :
    ofString compiled.text = compiled ↔ IsPrintable compiled := by
  constructor
  · intro h
    cases compiled with
    | any => exact absurd h (by decide)
    | under stem =>
      -- the text ends in `*`, so what comes back ends in a slash
      have hstar : '*' ∈ (under stem).text.toList := by simp [text]
      obtain ⟨front, hfront⟩ := exists_isStem (under stem).text
      rw [ofString_of_star hstar hfront] at h
      rw [← h]
      exact .under front
    | exact path =>
      have hprintable : IsPrintable (ofString path) := by
        apply isPrintable_ofString_iff.mpr
        rintro rfl
        cases h
      rwa [show ofString path = .exact path from h] at hprintable
  · intro h
    cases h with
    | under stem =>
      rw [text_under, ofString_of_star (by simp) (.cut stem)]
    | @exact path hcanonical hstar =>
      have hne : path ≠ "" := by
        rintro rfl
        exact hcanonical.ne_nil rfl
      rw [text, ofString_of_star_not_mem hne hstar, Path.clean_eq_self_iff.mpr hcanonical]

/-! ## What is printed -/

/-- A pattern without a `*` is printed as its resolved form. -/
theorem text_ofString_of_star_not_mem (hne : pattern ≠ "") (hstar : '*' ∉ pattern.toList) :
    (ofString pattern).text = Path.clean pattern := by
  rw [ofString_of_star_not_mem hne hstar]
  rfl

/-- A pattern with a `*` is printed as its stem with the ending that is cut off stems. -/
theorem text_ofString_of_star (hstar : '*' ∈ pattern.toList) (hstem : IsStem pattern stem) :
    (ofString pattern).text = stem ++ "/*" := by
  rw [ofString_of_star hstar hstem, text_under]

/-- A rule is made again from the text of its pattern. -/
theorem make_text_of_make {pattern method key : String} {limit : UInt64} {period : Duration}
    {rule : Rule} (hne : pattern ≠ "") (h : Rule.make pattern method key limit period = .ok rule) :
    Rule.make rule.pattern.text method key limit period = .ok rule := by
  obtain ⟨hname, hpattern, hrest⟩ := Rule.make_eq_ok_iff.mp h
  have hprintable : IsPrintable rule.pattern := by
    rw [hpattern]
    exact isPrintable_ofString_iff.mpr hne
  have hback : ofString rule.pattern.text = rule.pattern := ofString_text_iff.mpr hprintable
  exact Rule.make_eq_ok_iff.mpr ⟨hname, hback.symm, hrest⟩

/--
**Printed patterns are faithful.** The text of a compiled pattern compiles to the same pattern again
if and only if the pattern was not empty. So for every pattern that is not empty

* the printed pattern is satisfied by exactly the same paths;
* without a `*`, it is the resolved form of the pattern, and with one it is the stem and `/*`;
* a rule made with the printed pattern is the very rule that was made with the pattern.
-/
theorem printed_patterns_faithful (pattern : String) :
    (ofString (ofString pattern).text = ofString pattern ↔ pattern ≠ "") ∧
    (pattern ≠ "" →
      (∀ path : String,
        (ofString (ofString pattern).text).accepts path = (ofString pattern).accepts path) ∧
      ('*' ∉ pattern.toList → (ofString pattern).text = Path.clean pattern) ∧
      ('*' ∈ pattern.toList → ∀ stem, IsStem pattern stem →
        (ofString pattern).text = stem ++ "/*") ∧
      ∀ (method key : String) (limit : UInt64) (period : Duration) (rule : Rule),
        Rule.make pattern method key limit period = .ok rule →
          Rule.make rule.pattern.text method key limit period = .ok rule) := by
  have hback : ofString (ofString pattern).text = ofString pattern ↔ pattern ≠ "" :=
    ofString_text_iff.trans isPrintable_ofString_iff
  refine ⟨hback, fun hne => ⟨fun path => ?_, ?_, ?_, ?_⟩⟩
  · rw [hback.mpr hne]
  · exact text_ofString_of_star_not_mem hne
  · intro hstar stem hstem
    exact text_ofString_of_star hstar hstem
  · intro method key limit period rule hmake
    exact make_text_of_make hne hmake

/-- A path with detours, a stem that no path resolves to, a lone `*`, one within a segment, and the
empty pattern, whose text names a path. -/
theorem printed_patterns_faithful_of_each_form :
    ("//login/./x/.." ≠ "" ∧ '*' ∉ "//login/./x/..".toList ∧
      (ofString "//login/./x/..").text = "/login" ∧
      ofString "/login" = ofString "//login/./x/..") ∧
    ('*' ∈ "/api//*".toList ∧ IsStem "/api//*" "/api/" ∧ (ofString "/api//*").text = "/api//*" ∧
      ∃ rule, Rule.make "/api//*" "GET" "k" 1 (.ofSecs 60) = .ok rule ∧
        Rule.make rule.pattern.text "GET" "k" 1 (.ofSecs 60) = .ok rule) ∧
    (IsStem "*" "*" ∧ (ofString "*").text = "*/*" ∧ ofString "*/*" = ofString "*") ∧
    (IsStem "/v*s" "/v*s" ∧ (ofString "/v*s").text = "/v*s/*" ∧
      (ofString "/v*s").accepts "/v*s/../v*s/1" = true ∧
      (ofString "/v*s/*").accepts "/v*s/../v*s/1" = true) ∧
    ofString (ofString "").text ≠ ofString "" := by
  refine ⟨?_, ?_, ?_, ?_, ?_⟩
  · obtain ⟨hback, hprinted⟩ := printed_patterns_faithful "//login/./x/.."
    obtain ⟨-, hclean, -, -⟩ := hprinted (by decide)
    have htext : (ofString "//login/./x/..").text = "/login" :=
      (hclean (by decide)).trans (by decide)
    rw [htext] at hback
    exact ⟨by decide, by decide, htext, hback.mpr (by decide)⟩
  · obtain ⟨-, hprinted⟩ := printed_patterns_faithful "/api//*"
    obtain ⟨-, -, htext, hrule⟩ := hprinted (by decide)
    have hstem : IsStem "/api//*" "/api/" := .cut "/api/"
    have hmake : Rule.make "/api//*" "GET" "k" 1 (.ofSecs 60) = .ok _ := rfl
    exact ⟨by decide, hstem, htext (by decide) _ hstem, _, hmake, hrule _ _ _ _ _ hmake⟩
  · obtain ⟨hback, hprinted⟩ := printed_patterns_faithful "*"
    obtain ⟨-, -, htext, -⟩ := hprinted (by decide)
    have hstem : IsStem "*" "*" := .whole (isSuffixOf_eq_false_iff.mp (by decide))
    have htext : (ofString "*").text = "*/*" := htext (by decide) _ hstem
    rw [htext] at hback
    exact ⟨hstem, htext, hback.mpr (by decide)⟩
  · obtain ⟨-, hprinted⟩ := printed_patterns_faithful "/v*s"
    obtain ⟨haccepts, -, htext, -⟩ := hprinted (by decide)
    have hstem : IsStem "/v*s" "/v*s" := .whole (isSuffixOf_eq_false_iff.mp (by decide))
    have htext : (ofString "/v*s").text = "/v*s/*" := htext (by decide) _ hstem
    have hmet : (ofString "/v*s").accepts "/v*s/../v*s/1" = true := by decide
    rw [htext] at haccepts
    exact ⟨hstem, htext, hmet, (haccepts _).trans hmet⟩
  · obtain ⟨hback, -⟩ := printed_patterns_faithful ""
    exact mt hback.mp (by decide)

end PathPattern

end Admission
