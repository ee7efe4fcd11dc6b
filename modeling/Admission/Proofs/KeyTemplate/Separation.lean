import Admission.Proofs.KeyTemplate.Substitution
import Admission.Text.Fields
/-!
# Separation of clients

A key is the text of a template with the client and the path put in, and says nothing about where
either begins or ends. Still no two clients share a key of a template in which the client comes
first and no `/` stands before the path: no address holds a `/` and every path starts with one, so
the first `/` after the client is that of the path. What stands before it is as long as the clients
in it make it, and in the same way what stands after it is as long as the paths in it make it.

1. `substituted_congr`: only the placeholders that stand in a text matter
2. `length_substituted_le`, `eq_of_append_eq`: longer fillings make no shorter text, so a filling at
   the front is known from the whole
3. `substituted_around`, `slash_not_mem_append`, `append_inj_of_slash`: where the path begins
4. `LeadsWithClient.exists_parts`: the parts of a template
5. `client_eq_and_path_eq`, `substituted_eq_iff`: what is known from a key
6. `render_eq_iff_same_client`: what follows for templates
-/

namespace Admission.KeyTemplate

open Placeholder

variable {client client' path path' text front back middle : List Char}
  {placeholder : Placeholder} {place start : Nat}

/-! ## What a substitution depends on -/

/-- **Only the placeholders that stand in a text matter** for what it turns into. -/
theorem substituted_congr
    (hclient : (∃ place, Placeholder.client.StandsAt text place) → client = client')
    (hpath : (∃ place, Placeholder.path.StandsAt text place) → path = path') :
    substituted client path text = substituted client' path' text := by
  have hplace : standIn client path text = standIn client' path' text := by
    funext place
    unfold standIn
    split
    · next h => exact hclient ⟨place, h⟩
    · split
      · next h => exact hpath ⟨place, h⟩
      · rfl
  rw [substituted, substituted, hplace]

/-- Longer fillings make no shorter text. -/
theorem length_substituted_le (hclient : client.length ≤ client'.length)
    (hpath : path.length ≤ path'.length) (text : List Char) :
    (substituted client path text).length ≤ (substituted client' path' text).length := by
  have hpiece : ∀ piece : Piece,
      (piece.fill client path).length ≤ (piece.fill client' path').length := by
    intro piece
    cases piece with
    | literal c => exact Nat.le_refl _
    | client => exact hclient
    | path => exact hpath
  rw [← renderChars_eq_substituted, ← renderChars_eq_substituted, renderChars, renderChars]
  induction pieces text with
  | nil => exact Nat.le_refl _
  | cons piece rest ih =>
    rw [List.flatMap_cons, List.flatMap_cons, List.length_append, List.length_append]
    exact Nat.add_le_add (hpiece piece) ih

/-- Without a placeholder of the path it does not matter which path is put in. -/
theorem substituted_congr_path (h : ∀ place, ¬ Placeholder.path.StandsAt text place) :
    substituted client path text = substituted client path' text :=
  substituted_congr (fun _ => rfl) fun ⟨place, hplace⟩ => absurd hplace (h place)

/-- **A text at the front is known from the whole**, if what follows it grows with it. -/
theorem eq_of_append_eq (rest : List Char → List Char) {a b : List Char}
    (hgrows : ∀ {a b : List Char}, a.length ≤ b.length → (rest a).length ≤ (rest b).length)
    (h : a ++ rest a = b ++ rest b) : a = b := by
  have hlength : a.length + (rest a).length = b.length + (rest b).length := by
    rw [← List.length_append, h, List.length_append]
  have hsame : a.length = b.length := by
    rcases Nat.le_total a.length b.length with hle | hle
    · have := hgrows hle
      omega
    · have := hgrows hle
      omega
  exact List.append_inj_left h hsame

theorem client_eq_of_append_eq
    (h : client ++ substituted client path text = client' ++ substituted client' path text) :
    client = client' :=
  eq_of_append_eq (substituted · path text)
    (fun hle => length_substituted_le hle (Nat.le_refl _) text) h

theorem path_eq_of_append_eq
    (h : path ++ substituted client path text = path' ++ substituted client path' text) :
    path = path' :=
  eq_of_append_eq (substituted client · text)
    (fun hle => length_substituted_le (Nat.le_refl _) hle text) h

/-! ## Where the path begins -/

/-- A place at which a placeholder stands is not inside another one. -/
theorem not_isInside_of_standsAt (h : placeholder.StandsAt text place) : ¬ IsInside text place := by
  rintro ⟨other, start, hstart, hlt, rest, hrest⟩
  -- what is inside a placeholder is not the `%` that one starts with
  have hpercent : other.mark[place - start]? = some '%' := by
    have hhere : text[place]? = (text.drop start)[place - start]? := by
      rw [List.getElem?_drop]
      congr 1
      omega
    rw [← getElem?_of_standsAt h, hhere, ← hrest, List.getElem?_append_left (by omega)]
  exact getElem?_mark_ne other (by omega) hpercent

/-- A placeholder parts a text into what stands before it and what stands after it. -/
theorem substituted_around (client path front back : List Char) (placeholder : Placeholder) :
    substituted client path (front ++ (placeholder.mark ++ back)) =
      substituted client path front ++
        (placeholder.filling client path ++ substituted client path back) := by
  have hfirst : placeholder.StandsAt (placeholder.mark ++ back) 0 := List.prefix_append _ _
  have hstands : placeholder.StandsAt (front ++ (placeholder.mark ++ back)) front.length :=
    standsAt_append_right.mpr hfirst
  rw [substituted_append client path (not_isInside_of_standsAt hstands), substituted_mark_append]

/-- **No `/` comes before the path**, neither from the client nor from the text before the path. -/
theorem slash_not_mem_append (hclient : '/' ∉ client) (htext : '/' ∉ text)
    (hpath : ∀ place, ¬ Placeholder.path.StandsAt text place) :
    '/' ∉ client ++ substituted client path text := by
  rw [List.mem_append]
  rintro (hmem | hmem)
  · exact hclient hmem
  · obtain ⟨place, -, hplace⟩ := List.mem_flatMap.mp hmem
    unfold standIn at hplace
    split at hplace
    · exact hclient hplace
    · rw [if_neg (hpath place)] at hplace
      split at hplace
      · cases hplace
      · exact htext (List.mem_of_getElem? (Option.mem_toList.mp hplace))

/-- Two texts that are cut in front of their first `/` are cut at the same place. -/
theorem append_inj_of_slash {a b s t : List Char} (ha : '/' ∉ a) (hb : '/' ∉ b)
    (hs : s.head? = some '/') (ht : t.head? = some '/') (h : a ++ s = b ++ t) : a = b ∧ s = t := by
  obtain ⟨s, rfl⟩ := List.head?_eq_some_iff.mp hs
  obtain ⟨t, rfl⟩ := List.head?_eq_some_iff.mp ht
  have hfields := congrArg (Text.fields '/') h
  rw [Text.fields_append_cons ha, Text.fields_append_cons hb] at hfields
  obtain rfl := (List.cons.inj hfields).1
  exact ⟨rfl, List.append_cancel_left h⟩

/-! ## Templates in which the client comes first -/

/-- A placeholder stands at a place of a text and at no place before. -/
def Placeholder.FirstAt (placeholder : Placeholder) (text : List Char) (place : Nat) : Prop :=
  placeholder.StandsAt text place ∧ ∀ earlier < place, ¬ placeholder.StandsAt text earlier

instance (placeholder : Placeholder) (text : List Char) (place : Nat) :
    Decidable (placeholder.FirstAt text place) :=
  inferInstanceAs (Decidable (_ ∧ _))

/-- The client stands in a text, and if the path does, then first after the client, without a `/`
between the two. -/
def LeadsWithClient (text : List Char) : Prop :=
  ∃ start, Placeholder.client.FirstAt text start ∧
    ∀ place, Placeholder.path.FirstAt text place →
      start < place ∧ '/' ∉ (text.take place).drop start

theorem Placeholder.exists_firstAt (h : ∃ place, placeholder.StandsAt text place) :
    ∃ place, placeholder.FirstAt text place := by
  obtain ⟨place, hplace⟩ := h
  induction place using Nat.strongRecOn with
  | _ place ih =>
    by_cases hearlier : ∃ earlier < place, placeholder.StandsAt text earlier
    · obtain ⟨earlier, hlt, hstands⟩ := hearlier
      exact ih earlier hlt hstands
    · exact ⟨place, hplace, fun earlier hlt hstands => hearlier ⟨earlier, hlt, hstands⟩⟩

theorem Placeholder.FirstAt.unique {other : Nat} (h : placeholder.FirstAt text place)
    (hother : placeholder.FirstAt text other) : place = other := by
  rcases Nat.lt_trichotomy place other with hlt | heq | hlt
  · exact absurd h.1 (hother.2 place hlt)
  · exact heq
  · exact absurd hother.1 (h.2 other hlt)

theorem Placeholder.StandsAt.lt_length (h : placeholder.StandsAt text place) :
    place < text.length :=
  (List.getElem?_eq_some_iff.mp (getElem?_of_standsAt h)).1

/-- What stands in the front of a text stands in the text. -/
theorem Placeholder.StandsAt.append (h : placeholder.StandsAt front place) (back : List Char) :
    placeholder.StandsAt (front ++ back) place := by
  rw [StandsAt, List.drop_append_of_le_length (Nat.le_of_lt h.lt_length)]
  exact h.trans (List.prefix_append _ _)

theorem standsAt_after_mark {other : Placeholder} :
    other.StandsAt (front ++ (placeholder.mark ++ back))
        (front.length + (placeholder.mark.length + place)) ↔ other.StandsAt back place := by
  rw [standsAt_append_right, standsAt_append_right]

/-- The text before and after the first place of a placeholder. -/
theorem Placeholder.FirstAt.exists_parts (h : placeholder.FirstAt text start) :
    ∃ front back, text = front ++ (placeholder.mark ++ back) ∧ front.length = start ∧
      ∀ place, ¬ placeholder.StandsAt front place := by
  obtain ⟨hstands, hfirst⟩ := h
  obtain ⟨back, hback⟩ := id hstands
  have hlength : (text.take start).length = start :=
    List.length_take_of_le (Nat.le_of_lt hstands.lt_length)
  refine ⟨text.take start, back, ?_, hlength, fun place hplace => ?_⟩
  · rw [hback, List.take_append_drop]
  · have hin := hplace.append (text.drop start)
    rw [List.take_append_drop] at hin
    exact hfirst place (hlength ▸ hplace.lt_length) hin

/-- **The parts of a template**: what stands before the client, and if there is a path, what stands
between the client and the path. -/
theorem LeadsWithClient.exists_parts (h : LeadsWithClient text) :
    ∃ front back, text = front ++ (Placeholder.client.mark ++ back) ∧
      (∀ placeholder : Placeholder, ∀ place, ¬ placeholder.StandsAt front place) ∧
      ((∀ place, ¬ Placeholder.path.StandsAt text place) ∨
        ∃ middle rest, back = middle ++ (Placeholder.path.mark ++ rest) ∧ '/' ∉ middle ∧
          ∀ place, ¬ Placeholder.path.StandsAt middle place) := by
  obtain ⟨start, hclient, hpath⟩ := h
  obtain ⟨front, back, rfl, rfl, hfront⟩ := hclient.exists_parts
  refine ⟨front, back, rfl, ?_, ?_⟩
  · intro placeholder place hplace
    cases placeholder with
    | client => exact hfront place hplace
    | path =>
      -- the first path would stand before the first client
      have hin := hplace.append (Placeholder.client.mark ++ back)
      obtain ⟨first, hfirst⟩ := exists_firstAt ⟨place, hin⟩
      have hle : first ≤ place := Nat.le_of_not_lt fun hlt => hfirst.2 place hlt hin
      have hafter := (hpath first hfirst).1
      have hbefore := hplace.lt_length
      omega
  · by_cases hstands : ∃ place,
      Placeholder.path.StandsAt (front ++ (Placeholder.client.mark ++ back)) place
    · obtain ⟨first, hfirst⟩ := exists_firstAt hstands
      obtain ⟨hafter, hslash⟩ := hpath first hfirst
      have houtside : front.length + Placeholder.client.mark.length ≤ first :=
        Nat.le_of_not_lt fun hlt =>
          not_isInside_of_standsAt hfirst.1 ⟨.client, front.length, hafter, hlt, hclient.1⟩
      obtain ⟨place, rfl⟩ := Nat.exists_eq_add_of_le houtside
      rw [Nat.add_assoc] at hfirst hslash
      have hback : Placeholder.path.FirstAt back place :=
        ⟨standsAt_after_mark.mp hfirst.1, fun earlier hlt hearlier =>
          hfirst.2 _ (by omega) (standsAt_after_mark.mpr hearlier)⟩
      obtain ⟨middle, rest, rfl, rfl, hmiddle⟩ := hback.exists_parts
      refine .inr ⟨middle, rest, rfl, fun hmem => hslash ?_, hmiddle⟩
      rw [List.take_length_add_append, List.take_length_add_append, List.drop_left,
        List.take_left]
      exact List.mem_append_right _ hmem
    · exact .inl fun place hplace => hstands ⟨place, hplace⟩

/-! ## Keys -/

/-- **The client and the path are known from what begins with the client**, if no `/` stands between
the two. -/
theorem client_eq_and_path_eq (hclient : '/' ∉ client) (hclient' : '/' ∉ client')
    (hpath : path.head? = some '/') (hpath' : path'.head? = some '/') (hslash : '/' ∉ middle)
    (hmiddle : ∀ place, ¬ Placeholder.path.StandsAt middle place)
    (h : client ++ substituted client path (middle ++ (Placeholder.path.mark ++ back)) =
      client' ++ substituted client' path' (middle ++ (Placeholder.path.mark ++ back))) :
    client = client' ∧ path = path' := by
  have hstart : ∀ more, (path ++ more).head? = some '/' := fun more => by simp [hpath]
  have hstart' : ∀ more, (path' ++ more).head? = some '/' := fun more => by simp [hpath']
  rw [substituted_around, substituted_around, ← List.append_assoc] at h
  obtain ⟨hbefore, hafter⟩ := append_inj_of_slash
    (slash_not_mem_append hclient hslash hmiddle) (slash_not_mem_append hclient' hslash hmiddle)
    (hstart _) (hstart' _) (h.trans (List.append_assoc ..).symm)
  have hpathless : substituted client' path' middle = substituted client' path middle :=
    substituted_congr_path hmiddle
  rw [hpathless] at hbefore
  obtain rfl := client_eq_of_append_eq hbefore
  exact ⟨rfl, path_eq_of_append_eq hafter⟩

/-- **Keys are the same exactly for the same clients and paths**, as far as the template has
them. -/
theorem substituted_eq_iff (h : LeadsWithClient text) (hclient : '/' ∉ client)
    (hclient' : '/' ∉ client') (hpath : path.head? = some '/') (hpath' : path'.head? = some '/') :
    substituted client path text = substituted client' path' text ↔
      client = client' ∧
        ((∃ place, Placeholder.path.StandsAt text place) → path = path') := by
  refine ⟨fun heq => ?_, fun ⟨hsame, hpaths⟩ => substituted_congr (fun _ => hsame) hpaths⟩
  obtain ⟨front, back, rfl, hfront, hparts⟩ := h.exists_parts
  have hbefore : substituted client path front = substituted client' path' front :=
    substituted_congr (fun ⟨place, hplace⟩ => absurd hplace (hfront _ place))
      fun ⟨place, hplace⟩ => absurd hplace (hfront _ place)
  rw [substituted_around, substituted_around, hbefore] at heq
  have hrest : client ++ substituted client path back =
      client' ++ substituted client' path' back := List.append_cancel_left heq
  rcases hparts with hnone | ⟨middle, back, rfl, hslash, hmiddle⟩
  · -- without a path all that follows the client is as long as the client makes it
    have hnone' : ∀ place, ¬ Placeholder.path.StandsAt back place := fun place hplace =>
      hnone _ (standsAt_after_mark.mpr hplace)
    have hpathless : substituted client' path' back = substituted client' path back :=
      substituted_congr_path hnone'
    rw [hpathless] at hrest
    exact ⟨client_eq_of_append_eq hrest, fun ⟨place, hplace⟩ => absurd hplace (hnone place)⟩
  · -- the first `/` after the client is that of the path
    obtain ⟨hsame, hpaths⟩ :=
      client_eq_and_path_eq hclient hclient' hpath hpath' hslash hmiddle hrest
    exact ⟨hsame, fun _ => hpaths⟩

/--
**A template that leads with the client has a key of its own for every client.** Let the template
have a client and, if it has a path, the first path after the first client and no `/` between the
two; both may come up again any number of times, among whatever other text. Then for clients without
a `/` and paths that start with one, two keys are the same exactly if the clients are, and if the
template has a path, the paths are too.
-/
theorem render_eq_iff_same_client (template : KeyTemplate)
    (h : LeadsWithClient template.text.toList) (client client' path path' : String)
    (hclient : '/' ∉ client.toList) (hclient' : '/' ∉ client'.toList)
    (hpath : path.toList.head? = some '/') (hpath' : path'.toList.head? = some '/') :
    template.render client path = template.render client' path' ↔
      client = client' ∧
        ((∃ place, Placeholder.path.StandsAt template.text.toList place) → path = path') := by
  have hsame := substituted_eq_iff h hclient hclient' hpath hpath'
  rw [String.toList_inj, String.toList_inj] at hsame
  rw [← hsame, render, render, String.ofList_inj, renderChars_eq_substituted,
    renderChars_eq_substituted]

/-- A template with text that looks like an address or a path, and with both placeholders
repeated. -/
def repeated : KeyTemplate :=
  ⟨"/10.0.0.1/%\x7bip\x7d1.%\x7bip\x7d%\x7bpath\x7d%\x7bip\x7d/%\x7bpath\x7d"⟩

theorem leadsWithClient_repeated : LeadsWithClient repeated.text.toList := by
  have hpath : Placeholder.path.FirstAt repeated.text.toList 22 := by decide
  refine ⟨10, by decide, fun place hplace => ?_⟩
  obtain rfl := hplace.unique hpath
  decide

/-- A client that is the front of another one has another key, with whatever paths. -/
theorem render_eq_iff_same_client_of_repeated :
    repeated.render "10.0.0.1" "/1/" ≠ repeated.render "10.0.0.11" "/" ∧
      repeated.render "10.0.0.1" "/1/" ≠ repeated.render "10.0.0.1" "/1" := by
  have hiff := render_eq_iff_same_client repeated leadsWithClient_repeated
  constructor
  · intro hsame
    have hclient := ((hiff "10.0.0.1" "10.0.0.11" "/1/" "/" (by decide) (by decide) rfl rfl).mp
      hsame).1
    exact absurd hclient (by decide)
  · intro hsame
    have hpath := ((hiff "10.0.0.1" "10.0.0.1" "/1/" "/1" (by decide) (by decide) rfl rfl).mp
      hsame).2 ⟨22, by decide⟩
    exact absurd hpath (by decide)

end Admission.KeyTemplate
