import Admission.KeyTemplate
/-!
# Substitution in key templates

What a template turns into, said without reading it: every place of its text is looked at by itself.
Where a placeholder stands, its filling is put; the other places that the placeholder takes up are
left out; every other place is copied. The fillings are not looked at, so nothing in them counts.

A placeholder starts with the only `%` in it. So no two of them overlap, and a template may be cut
anywhere but inside a placeholder.

1. `substituted_append`: a cut that is not inside a placeholder parts the substitution
2. `not_isInside_mark`: the end of a placeholder is such a cut
3. `renderChars_eq_substituted`: so reading from left to right fills in every place as it should be
4. `render_substitutes_at_once`: what follows for templates
-/

namespace Admission.KeyTemplate

/-- The two placeholders. -/
inductive Placeholder where
  | client
  | path
  deriving DecidableEq, Repr

namespace Placeholder

/-- The text that stands for a placeholder. -/
def mark : Placeholder → List Char
  | client => ['%', '{', 'i', 'p', '}']
  | path => ['%', '{', 'p', 'a', 't', 'h', '}']

/-- What a placeholder turns into. -/
def filling (client path : List Char) : Placeholder → List Char
  | .client => client
  | .path => path

/-- A placeholder stands at a place of a text. -/
def StandsAt (placeholder : Placeholder) (text : List Char) (place : Nat) : Prop :=
  placeholder.mark <+: text.drop place

instance (placeholder : Placeholder) (text : List Char) (place : Nat) :
    Decidable (placeholder.StandsAt text place) :=
  inferInstanceAs (Decidable (placeholder.mark <+: text.drop place))

instance (p : Placeholder → Prop) [DecidablePred p] : Decidable (∃ placeholder, p placeholder) :=
  decidable_of_iff (p client ∨ p path)
    ⟨fun h => h.elim (fun h => ⟨_, h⟩) (fun h => ⟨_, h⟩), fun ⟨placeholder, h⟩ => by
      cases placeholder with
      | client => exact .inl h
      | path => exact .inr h⟩

end Placeholder

open Placeholder

/-- A place lies inside a placeholder that stands at an earlier place. -/
def IsInside (text : List Char) (place : Nat) : Prop :=
  ∃ placeholder : Placeholder, ∃ start < place,
    place < start + placeholder.mark.length ∧ placeholder.StandsAt text start

instance (text : List Char) (place : Nat) : Decidable (IsInside text place) :=
  inferInstanceAs (Decidable (∃ _, _))

/-- What stands in for a place of a text. -/
def standIn (client path text : List Char) (place : Nat) : List Char :=
  if Placeholder.client.StandsAt text place then client
  else if Placeholder.path.StandsAt text place then path
  else if IsInside text place then []
  else text[place]?.toList

/-- A text with all its placeholders filled in at once. -/
def substituted (client path text : List Char) : List Char :=
  (List.range text.length).flatMap (standIn client path text)

variable {client path a b text rest : List Char} {placeholder : Placeholder} {place : Nat}
  {c : Char}

/-! ## Cuts -/

theorem standsAt_append_right :
    placeholder.StandsAt (a ++ b) (a.length + place) ↔ placeholder.StandsAt b place := by
  rw [StandsAt, StandsAt, List.drop_length_add_append]

/-- A placeholder that stands before a cut stands there without what follows the cut. -/
theorem standsAt_append_left (hcut : ¬ IsInside (a ++ b) a.length) (hplace : place < a.length) :
    placeholder.StandsAt (a ++ b) place ↔ placeholder.StandsAt a place := by
  have hdrop : (a ++ b).drop place = a.drop place ++ b :=
    List.drop_append_of_le_length (Nat.le_of_lt hplace)
  constructor
  · intro hstands
    have hfits : place + placeholder.mark.length ≤ a.length := Nat.le_of_not_lt fun hlong =>
      hcut ⟨placeholder, place, hplace, hlong, hstands⟩
    rw [StandsAt, hdrop] at hstands
    refine List.prefix_of_prefix_length_le hstands (List.prefix_append _ _) ?_
    rw [List.length_drop]
    omega
  · intro hstands
    rw [StandsAt, hdrop]
    exact hstands.trans (List.prefix_append _ _)

theorem isInside_append_left (hcut : ¬ IsInside (a ++ b) a.length) (hplace : place < a.length) :
    IsInside (a ++ b) place ↔ IsInside a place := by
  constructor
  · rintro ⟨placeholder, start, hstart, hlt, hstands⟩
    exact ⟨placeholder, start, hstart, hlt, (standsAt_append_left hcut (by omega)).mp hstands⟩
  · rintro ⟨placeholder, start, hstart, hlt, hstands⟩
    exact ⟨placeholder, start, hstart, hlt, (standsAt_append_left hcut (by omega)).mpr hstands⟩

theorem isInside_append_right (hcut : ¬ IsInside (a ++ b) a.length) :
    IsInside (a ++ b) (a.length + place) ↔ IsInside b place := by
  constructor
  · rintro ⟨placeholder, start, hstart, hlt, hstands⟩
    -- a placeholder that starts before the cut would reach over it
    have hafter : a.length ≤ start := Nat.le_of_not_lt fun hbefore =>
      hcut ⟨placeholder, start, hbefore, by omega, hstands⟩
    obtain ⟨start, rfl⟩ := Nat.exists_eq_add_of_le hafter
    exact ⟨placeholder, start, by omega, by omega, standsAt_append_right.mp hstands⟩
  · rintro ⟨placeholder, start, hstart, hlt, hstands⟩
    exact ⟨placeholder, a.length + start, by omega, by omega, standsAt_append_right.mpr hstands⟩

theorem standIn_append_left (hcut : ¬ IsInside (a ++ b) a.length) (hplace : place < a.length) :
    standIn client path (a ++ b) place = standIn client path a place := by
  simp only [standIn, standsAt_append_left hcut hplace, isInside_append_left hcut hplace,
    List.getElem?_append_left hplace]

theorem standIn_append_right (hcut : ¬ IsInside (a ++ b) a.length) :
    standIn client path (a ++ b) (a.length + place) = standIn client path b place := by
  simp only [standIn, standsAt_append_right, isInside_append_right hcut,
    List.getElem?_append_right (Nat.le_add_right a.length place), Nat.add_sub_cancel_left]

/-- **A cut that is not inside a placeholder parts the substitution.** -/
theorem substituted_append (client path : List Char) (hcut : ¬ IsInside (a ++ b) a.length) :
    substituted client path (a ++ b) = substituted client path a ++ substituted client path b := by
  have hleft : (List.range a.length).map (standIn client path (a ++ b)) =
      (List.range a.length).map (standIn client path a) :=
    List.map_congr_left fun place hplace => standIn_append_left hcut (List.mem_range.mp hplace)
  have hright : (List.range b.length).map (standIn client path (a ++ b) ∘ (a.length + ·)) =
      (List.range b.length).map (standIn client path b) :=
    List.map_congr_left fun place _ => standIn_append_right hcut
  simp only [substituted, List.flatMap_def]
  rw [List.length_append, List.range_add, List.map_append, List.map_map, hleft, hright,
    List.flatten_append]

/-! ## Placeholders do not overlap -/

theorem getElem?_of_standsAt (h : placeholder.StandsAt text place) : text[place]? = some '%' := by
  obtain ⟨rest, hrest⟩ := h
  rw [← List.head?_drop, ← hrest]
  cases placeholder <;> rfl

/-- A placeholder holds no second `%`. -/
theorem getElem?_mark_ne (placeholder : Placeholder) (hpos : 0 < place) :
    placeholder.mark[place]? ≠ some '%' := by
  obtain ⟨before, rfl⟩ := Nat.exists_eq_succ_of_ne_zero (Nat.ne_of_gt hpos)
  intro h
  have hmem : '%' ∈ placeholder.mark.tail := by
    rw [Nat.succ_eq_add_one, ← List.getElem?_tail] at h
    exact List.mem_of_getElem? h
  revert hmem
  cases placeholder <;> decide

/-- At one place there is one placeholder at most. -/
theorem eq_of_standsAt {other : Placeholder} (h : placeholder.StandsAt text place)
    (hother : other.StandsAt text place) : placeholder = other := by
  obtain ⟨rest, hrest⟩ := h
  obtain ⟨rest', hrest'⟩ := hother
  have hthird := congrArg (·[2]?) (hrest.trans hrest'.symm)
  cases placeholder with
  | client =>
    cases other with
    | client => rfl
    | path => cases hthird
  | path =>
    cases other with
    | client => cases hthird
    | path => rfl

/-- **The end of a placeholder is not inside another one.** -/
theorem not_isInside_mark (placeholder : Placeholder) (rest : List Char) :
    ¬ IsInside (placeholder.mark ++ rest) placeholder.mark.length := by
  rintro ⟨other, start, hstart, hlt, hstands⟩
  by_cases hzero : start = 0
  · -- at the same place it is the same placeholder, which ends at its end
    subst hzero
    have hself : placeholder.StandsAt (placeholder.mark ++ rest) 0 := List.prefix_append _ _
    rw [eq_of_standsAt hself hstands, Nat.zero_add] at hlt
    exact Nat.lt_irrefl _ hlt
  · -- further on there is no `%` for it to start with
    have hpercent := getElem?_of_standsAt hstands
    rw [List.getElem?_append_left hstart] at hpercent
    exact getElem?_mark_ne placeholder (Nat.pos_of_ne_zero hzero) hpercent

/-- One character that starts no placeholder is not inside one either. -/
theorem not_isInside_one (h : ∀ placeholder : Placeholder, ¬ placeholder.StandsAt (c :: rest) 0) :
    ¬ IsInside ([c] ++ rest) 1 := by
  rintro ⟨placeholder, start, hstart, -, hstands⟩
  obtain rfl : start = 0 := by omega
  exact h placeholder hstands

/-! ## Reading from left to right -/

theorem standIn_mark_zero (client path : List Char) (placeholder : Placeholder) :
    standIn client path placeholder.mark 0 = placeholder.filling client path := by
  cases placeholder <;> rfl

theorem standIn_mark_pos (client path : List Char) (hpos : 0 < place)
    (hlt : place < placeholder.mark.length) : standIn client path placeholder.mark place = [] := by
  have hnone : ∀ other : Placeholder, ¬ other.StandsAt placeholder.mark place :=
    fun other hstands => getElem?_mark_ne placeholder hpos (getElem?_of_standsAt hstands)
  have hinside : IsInside placeholder.mark place :=
    ⟨placeholder, 0, hpos, by omega, List.prefix_refl _⟩
  rw [standIn, if_neg (hnone _), if_neg (hnone _), if_pos hinside]

/-- A placeholder alone turns into its filling. -/
theorem substituted_mark (client path : List Char) (placeholder : Placeholder) :
    substituted client path placeholder.mark = placeholder.filling client path := by
  obtain ⟨length, hlength⟩ : ∃ length, placeholder.mark.length = length + 1 := by
    cases placeholder <;> exact ⟨_, rfl⟩
  have hrest : (List.range length).map (standIn client path placeholder.mark ∘ Nat.succ) =
      (List.range length).map fun _ => [] :=
    List.map_congr_left fun place hplace =>
      standIn_mark_pos client path (Nat.succ_pos place) (by have := List.mem_range.mp hplace; omega)
  rw [substituted, hlength, List.flatMap_def, List.range_succ_eq_map, List.map_cons, List.map_map,
    hrest, standIn_mark_zero]
  simp

/-- A character alone stays. -/
theorem substituted_singleton (client path : List Char) (c : Char) :
    substituted client path [c] = [c] := by
  have hnone : ∀ placeholder : Placeholder, ¬ placeholder.StandsAt [c] 0 := by
    intro placeholder hstands
    have hlength : placeholder.mark.length ≤ 1 := hstands.length_le
    cases placeholder <;> exact absurd hlength (by decide)
  have houtside : ¬ IsInside [c] 0 := fun ⟨_, _, hstart, _⟩ => absurd hstart (Nat.not_lt_zero _)
  simp [substituted, standIn, hnone, houtside]

theorem substituted_mark_append (client path : List Char) (placeholder : Placeholder)
    (rest : List Char) : substituted client path (placeholder.mark ++ rest) =
      placeholder.filling client path ++ substituted client path rest := by
  rw [substituted_append client path (not_isInside_mark placeholder rest), substituted_mark]

theorem substituted_cons (client path : List Char)
    (h : ∀ placeholder : Placeholder, ¬ placeholder.StandsAt (c :: rest) 0) :
    substituted client path (c :: rest) = c :: substituted client path rest := by
  have hcut := substituted_append client path (not_isInside_one h)
  rw [substituted_singleton] at hcut
  exact hcut

/-- **Reading from left to right fills in every place as it should be.** -/
theorem renderChars_eq_substituted (client path template : List Char) :
    renderChars client path template = substituted client path template := by
  rw [renderChars]
  fun_induction pieces template with
  | case1 rest ih =>
    rw [List.flatMap_cons, ih]
    exact (substituted_mark_append client path .client rest).symm
  | case2 rest ih =>
    rw [List.flatMap_cons, ih]
    exact (substituted_mark_append client path .path rest).symm
  | case3 c rest hclient hpath ih =>
    have hnone : ∀ placeholder : Placeholder, ¬ placeholder.StandsAt (c :: rest) 0 := by
      rintro placeholder ⟨tail, htail⟩
      cases placeholder with
      | client =>
        obtain ⟨hc, hrest⟩ := List.cons.inj htail
        exact hclient tail hc.symm hrest.symm
      | path =>
        obtain ⟨hc, hrest⟩ := List.cons.inj htail
        exact hpath tail hc.symm hrest.symm
    rw [List.flatMap_cons, ih, substituted_cons client path hnone]
    rfl
  | case4 => rfl

/-- Placeholders that are filled in with themselves stay. -/
theorem renderChars_marks (template : List Char) :
    renderChars Placeholder.client.mark Placeholder.path.mark template = template := by
  rw [renderChars]
  fun_induction pieces template with
  | case1 rest ih =>
    rw [List.flatMap_cons, ih]
    rfl
  | case2 rest ih =>
    rw [List.flatMap_cons, ih]
    rfl
  | case3 c rest _ _ ih =>
    rw [List.flatMap_cons, ih]
    rfl
  | case4 => rfl

/-! ## Templates -/

/--
**Rendering is simultaneous substitution.** For every template, client and path

* every place of the template turns into what stands in for it: where a placeholder stands, what it
  is filled in with, nothing at the other places of a placeholder, and itself at every other place;
* filling in the placeholders with themselves gives the template back;
* a template may be cut into two and these rendered apart, wherever the cut is not inside a
  placeholder.
-/
theorem render_substitutes_at_once (template : KeyTemplate) (client path : String) :
    (template.render client path).toList =
      (List.range template.text.toList.length).flatMap
        (standIn client.toList path.toList template.text.toList) ∧
    template.render "%\x7bip\x7d" "%\x7bpath\x7d" = template.text ∧
    ∀ front back : String, template.text = front ++ back →
      ¬ IsInside template.text.toList front.toList.length →
      template.render client path =
        (KeyTemplate.mk front).render client path ++ (KeyTemplate.mk back).render client path := by
  refine ⟨?_, ?_, ?_⟩
  · rw [render, String.toList_ofList, renderChars_eq_substituted]
    rfl
  · have hclient : "%\x7bip\x7d".toList = Placeholder.client.mark := by decide
    have hpath : "%\x7bpath\x7d".toList = Placeholder.path.mark := by decide
    rw [render, hclient, hpath, renderChars_marks, String.ofList_toList]
  · intro front back htext hcut
    rw [htext, String.toList_append] at hcut
    apply String.toList_inj.mp
    simp only [render, String.toList_append, String.toList_ofList, htext,
      renderChars_eq_substituted]
    exact substituted_append _ _ hcut

/-- A template with a placeholder after a lone `%`, one after an opening that is none, and an
opening at its end. -/
def nested : KeyTemplate := ⟨"%%\x7bpath\x7d:%\x7b%\x7bip\x7d:%\x7b"⟩

/-- The client and the path look like placeholders themselves, and the cut is between the two
characters of an opening. -/
theorem render_substitutes_at_once_of_nested :
    nested.render "%\x7bpath\x7d" "/%\x7bip\x7d" =
        "%/%\x7bip\x7d:%\x7b%\x7bpath\x7d:%\x7b" ∧
      ¬ IsInside nested.text.toList "%%\x7bpath\x7d:%".toList.length ∧
      nested.render "%\x7bpath\x7d" "/%\x7bip\x7d" =
        (KeyTemplate.mk "%%\x7bpath\x7d:%").render "%\x7bpath\x7d" "/%\x7bip\x7d" ++
          (KeyTemplate.mk "\x7b%\x7bip\x7d:%\x7b").render "%\x7bpath\x7d" "/%\x7bip\x7d" := by
  obtain ⟨hplaces, -, hcut⟩ :=
    render_substitutes_at_once nested "%\x7bpath\x7d" "/%\x7bip\x7d"
  have houtside : ¬ IsInside nested.text.toList "%%\x7bpath\x7d:%".toList.length := by decide
  refine ⟨String.toList_inj.mp (hplaces.trans ?_), houtside, hcut _ _ (by decide) houtside⟩
  decide

end Admission.KeyTemplate
