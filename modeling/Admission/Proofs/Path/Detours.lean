import Admission.Proofs.Path.NormalForm
import Admission.Rule
import Mathlib.Logic.Relation
/-!
# Detours in paths

Resolving a path is a walk: what stands after a slash is resolved from wherever the text before the
slash has led to. So the text before a slash can be resolved first, and what is written between two
slashes counts for nothing if it leads back to where it started. No rule can be told apart by such
detours, however many of them a request path takes.

1. `resolve_append_sep`: the text after a slash is resolved from where the text before it leads
2. `clean_append_sep`: so resolving the text before the slash first changes nothing
3. `resolve_append_sep_congr`: two texts after a slash that lead to the same place from everywhere
4. `Detour.clean_eq`: such are the detours
5. `detours_evade_no_rule`: what follows for the rules
-/

namespace Admission.Path

/-! ## Walking on from a resolved path -/

/-- The path that some more segments lead to from a resolved path. -/
def Resolved.walk (resolved : Resolved) (segments : List (List Char)) : Resolved :=
  ⟨resolved.rooted,
    (segments.foldl (push resolved.rooted) resolved.segments.reverse).reverse⟩

namespace Resolved

variable (resolved : Resolved) (segments : List (List Char))

@[simp]
theorem walk_nil : resolved.walk [] = resolved := by
  simp [walk]

@[simp]
theorem walk_cons_nil : resolved.walk ([] :: segments) = resolved.walk segments := by
  simp [walk]

@[simp]
theorem walk_cons_here : resolved.walk (Path.here :: segments) = resolved.walk segments := by
  simp [walk]

/-- **A step into a name and up again leads back.** -/
theorem walk_cons_name_up {name : List Char} (h : IsName name) :
    resolved.walk (name :: up :: segments) = resolved.walk segments := by
  simp only [walk, List.foldl_cons]
  rw [push_name resolved.rooted _ h.ne_nil h.ne_here h.ne_up, push_up_name _ _ h.ne_up]

end Resolved

theorem resolve_cons_sep (after : List Char) :
    resolve ('/' :: after) = Resolved.walk ⟨true, []⟩ (Text.fields '/' after) := by
  simp [resolve, Resolved.walk, Text.fields]

/-- **The text after a slash is resolved from where the text before it leads.** -/
theorem resolve_append_sep {before : List Char} (h : before ≠ []) (after : List Char) :
    resolve (before ++ '/' :: after) = (resolve before).walk (Text.fields '/' after) := by
  have hhead : (before ++ '/' :: after).head? = before.head? := by
    obtain ⟨c, rest, rfl⟩ := List.exists_cons_of_ne_nil h
    rfl
  simp only [resolve, Resolved.walk]
  rw [hhead, Text.fields_append_sep, List.foldl_append, List.reverse_reverse]

/-- The text before a slash may be resolved first. -/
theorem clean_append_sep {before : String} (h : before ≠ "") (after : String) :
    clean (before ++ "/" ++ after) = clean (clean before ++ "/" ++ after) := by
  have hbefore : before.toList ≠ [] := mt String.toList_eq_nil_iff.mp h
  have hclean : cleanChars before.toList ≠ [] := (isCanonical_cleanChars before.toList).ne_nil
  have hresolve : resolve (before.toList ++ '/' :: after.toList) =
      resolve (cleanChars before.toList ++ '/' :: after.toList) := by
    rw [resolve_append_sep hbefore, resolve_append_sep hclean, resolve_cleanChars]
  apply String.toList_inj.mp
  simp [cleanChars, hresolve]

/-- Two texts after a slash that lead to the same place from everywhere. -/
theorem resolve_append_sep_congr {after after' : List Char}
    (h : ∀ resolved : Resolved, resolved.walk (Text.fields '/' after) =
      resolved.walk (Text.fields '/' after')) (before : List Char) :
    resolve (before ++ '/' :: after) = resolve (before ++ '/' :: after') := by
  by_cases hbefore : before = []
  · rw [hbefore, List.nil_append, List.nil_append, resolve_cons_sep, resolve_cons_sep, h]
  · rw [resolve_append_sep hbefore, resolve_append_sep hbefore, h]

/-! ## Detours -/

/-- A path and the same path with one detour. After one of its slashes stands another slash, or the
segment that stays and a slash, or a name, a step up and a slash; or at its end stands a slash, or a
slash and the segment that stays. -/
inductive Detour : String → String → Prop where
  | slash (before after : String) : Detour (before ++ "/" ++ after) (before ++ "//" ++ after)
  | stay (before after : String) : Detour (before ++ "/" ++ after) (before ++ "/./" ++ after)
  | back (before name after : String) (h : IsName name.toList) :
      Detour (before ++ "/" ++ after) (before ++ "/" ++ name ++ "/../" ++ after)
  | endSlash {path : String} (h : path ≠ "") : Detour path (path ++ "/")
  | endStay {path : String} (h : path ≠ "") : Detour path (path ++ "/.")

/-- **A detour leads to the same path.** -/
theorem Detour.clean_eq {path path' : String} (h : Detour path path') :
    clean path' = clean path := by
  suffices hresolve : resolve path'.toList = resolve path.toList by
    rw [clean, clean, cleanChars, cleanChars, hresolve]
  cases h with
  | slash before after =>
    have hwalk : ∀ resolved : Resolved, resolved.walk (Text.fields '/' ('/' :: after.toList)) =
        resolved.walk (Text.fields '/' after.toList) := by
      intro resolved
      rw [Text.fields, if_pos rfl, Resolved.walk_cons_nil]
    simpa using resolve_append_sep_congr hwalk before.toList
  | stay before after =>
    have hwalk : ∀ resolved : Resolved,
        resolved.walk (Text.fields '/' (here ++ '/' :: after.toList)) =
          resolved.walk (Text.fields '/' after.toList) := by
      intro resolved
      rw [Text.fields_append_cons (by decide), Resolved.walk_cons_here]
    simpa [here] using resolve_append_sep_congr hwalk before.toList
  | back before name after hname =>
    have hwalk : ∀ resolved : Resolved,
        resolved.walk (Text.fields '/' (name.toList ++ '/' :: (up ++ '/' :: after.toList))) =
          resolved.walk (Text.fields '/' after.toList) := by
      intro resolved
      rw [Text.fields_append_cons hname.slash_not_mem, Text.fields_append_cons (by decide),
        Resolved.walk_cons_name_up _ _ hname]
    simpa [up] using resolve_append_sep_congr hwalk before.toList
  | endSlash hpath =>
    have hend := resolve_append_sep (mt String.toList_eq_nil_iff.mp hpath) []
    simpa [Text.fields] using hend
  | endStay hpath =>
    have hend := resolve_append_sep (mt String.toList_eq_nil_iff.mp hpath) here
    rw [Text.fields_of_not_mem (by decide), Resolved.walk_cons_here, Resolved.walk_nil] at hend
    simpa [here] using hend

/--
**Detours evade no rule.** The text before a slash may be resolved first. So a path with any number
of detours put in or taken out resolves to the same path, and every rule, whatever its pattern and
its method, applies to the one exactly if it applies to the other.
-/
theorem detours_evade_no_rule :
    (∀ before after : String, before ≠ "" →
      clean (before ++ "/" ++ after) = clean (clean before ++ "/" ++ after)) ∧
    (∀ path path' : String, Relation.EqvGen Detour path path' →
      clean path' = clean path ∧
        ∀ (rule : Rule) (method : String),
          rule.applies path' method = rule.applies path method) := by
  have hclean : ∀ path path' : String, Relation.EqvGen Detour path path' →
      clean path' = clean path := by
    intro path path' h
    induction h with
    | rel path path' h => exact h.clean_eq
    | refl path => rfl
    | symm path path' _ ih => exact ih.symm
    | trans path path' path'' _ _ ih ih' => exact ih'.trans ih
  refine ⟨fun before after hbefore => clean_append_sep hbefore after, fun path path' h => ?_⟩
  exact ⟨hclean path path' h, fun rule method => rule.applies_congr (hclean path path' h)⟩

/-- Three detours on the way to a login page, and a step up after a path that leads nowhere. -/
theorem detours_evade_no_rule_at_login :
    Relation.EqvGen Detour "/login" "/static/..//login/." ∧
      clean "/static/..//login/." = "/login" ∧
      (∀ (rule : Rule) (method : String),
        rule.applies "/static/..//login/." method = rule.applies "/login" method) ∧
      clean ("a/.." ++ "/" ++ "../b") = clean (clean "a/.." ++ "/" ++ "../b") := by
  have hback : Detour "/login" "/static/../login" :=
    .back "" "static" "login" ⟨by decide, by decide, by decide, by decide⟩
  have hslash : Detour "/static/../login" "/static/..//login" := .slash "/static/.." "login"
  have hstay : Detour "/static/..//login" "/static/..//login/." := .endStay (by decide)
  have hchain : Relation.EqvGen Detour "/login" "/static/..//login/." :=
    .trans _ _ _ (.rel _ _ hback) (.trans _ _ _ (.rel _ _ hslash) (.rel _ _ hstay))
  obtain ⟨hfirst, hdetours⟩ := detours_evade_no_rule
  obtain ⟨hclean, hrules⟩ := hdetours _ _ hchain
  have hlogin : clean "/login" = "/login" := by decide
  exact ⟨hchain, hclean.trans hlogin, hrules, hfirst "a/.." "../b" (by decide)⟩

end Admission.Path
