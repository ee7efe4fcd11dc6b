import Mathlib.Data.List.Forall2
import Admission.Config.Decode
import Admission.Config.Tree
/-!
# Decoding what is spelled out

The values of the fields are decoded from the trees they are written as: a text from between its
quotes, a list item by item, and a number from its digits, since these have neither a mark of
another base nor a zero in front.
-/

namespace Admission

open Yaml (Node Style Scalar)

/-! ## Distinct names -/

section Names

variable {α : Type} {name : String} {done rest : List (String × α)}

theorem lookup_of_not_mem (h : name ∉ done.map Prod.fst) : done.lookup name = none := by
  rw [List.lookup_eq_none_iff]
  intro entry hentry
  have hne : name ≠ entry.1 := by
    rintro rfl
    exact h (List.mem_map_of_mem hentry)
  simpa using hne

/-- Of distinct names none comes before itself. -/
theorem not_mem_of_nodup {entry : String × α}
    (h : ((done ++ entry :: rest).map Prod.fst).Nodup) : entry.1 ∉ done.map Prod.fst := by
  rw [List.map_append, List.map_cons] at h
  intro hmem
  exact (List.nodup_append.mp h).2.2 entry.1 hmem entry.1 (.head _) rfl

end Names

/-! ## Numbers -/

/-- The digits of a number have no mark of a base in front. -/
theorem Yaml.Scalar.marked?_decimal (n : Nat) : Scalar.marked? (Text.decimal n) = none := by
  have hmarks : ∀ mark ∈ Scalar.radixMarks, mark.1.isPrefixOf (Text.decimal n) = false := by
    intro mark hmark
    rw [Bool.eq_false_iff]
    intro hprefix
    have hsub : ∀ c ∈ mark.1, c ∈ Text.decimal n :=
      (List.isPrefixOf_iff_prefix.mp hprefix).subset
    simp only [Scalar.radixMarks, List.mem_cons, List.not_mem_nil, or_false] at hmark
    rcases hmark with rfl | rfl | rfl
    · exact Text.ne_of_mem_decimal (hsub 'x' (by decide)) (d := 'x') (by decide) rfl
    · exact Text.ne_of_mem_decimal (hsub 'o' (by decide)) (d := 'o') (by decide) rfl
    · exact Text.ne_of_mem_decimal (hsub 'b' (by decide)) (d := 'b') (by decide) rfl
  rw [Scalar.marked?, List.findSome?_eq_none_iff]
  intro mark hmark
  simp [hmarks mark hmark]

/-- The digits of a number have no zero in front of others. -/
theorem Yaml.Scalar.hasLeadingZero_decimal (n : Nat) :
    Scalar.hasLeadingZero (Text.decimal n) = false := by
  rcases Nat.eq_zero_or_pos n with rfl | hpos
  · decide
  · have hhead := Text.head?_decimal hpos
    obtain ⟨c, rest, hrest, hplus, hminus⟩ := Text.exists_decimal_eq n
    rw [hrest] at hhead ⊢
    have hzero : c ≠ '0' := by simpa using hhead
    simp [Scalar.hasLeadingZero, hplus, hminus, hzero]

/-- **The digits of a number mean the number.** -/
theorem Yaml.Scalar.unsigned?_decimal (n : Nat) : Scalar.unsigned? (Text.decimal n) = some n := by
  have hmarked := Scalar.marked?_decimal n
  have hleading := Scalar.hasLeadingZero_decimal n
  have hnatural := Text.natural?_decimal n
  obtain ⟨c, rest, hrest, hplus, -⟩ := Text.exists_decimal_eq n
  rw [hrest] at hmarked hleading hnatural ⊢
  simp [Scalar.unsigned?, hplus, hmarked, hleading, hnatural]

namespace Config

@[simp]
theorem word64Of_ofWord64 (n : UInt64) : word64Of (.ofWord64 n) = .ok n := by
  rw [Node.ofWord64, word64Of, String.toList_ofList, Scalar.unsigned?_decimal]
  simp only [if_pos n.toNat_lt, UInt64.ofNat_toNat]

/-! ## Texts and lists -/

@[simp]
theorem textOf_ofText (text : String) : textOf (.ofText text) = .ok text := rfl

@[simp]
theorem optionalTextOf_ofText? (text : Option String) :
    optionalTextOf (.ofText? text) = .ok text := by
  cases text with
  | none => rfl
  | some text => rfl

@[simp]
theorem backendOf_ofText_name (backend : StorageBackend) :
    backendOf (.ofText backend.name) = .ok backend := by
  rw [Node.ofText, backendOf, StorageBackend.ofName?_name]

/-- Items that are all decoded. -/
theorem itemsFrom_of_forall₂ {α : Type} {decode : Node → Decoded α} {items : List α}
    {nodes : List Node} (h : List.Forall₂ (fun a node => decode node = .ok a) items nodes)
    (place : Nat) : itemsFrom decode place nodes = .ok items := by
  induction h generalizing place with
  | nil => rfl
  | cons hitem _ ih =>
    rw [itemsFrom, hitem]
    simp only [within, ih]
    rfl

@[simp]
theorem listOf_ofTexts (texts : List String) : listOf textOf (.ofTexts texts) = .ok texts := by
  have htexts : List.Forall₂ (fun text node => textOf node = .ok text) texts
      (texts.map Node.ofText) := by
    rw [List.forall₂_map_right_iff, List.forall₂_same]
    exact fun text _ => textOf_ofText text
  exact itemsFrom_of_forall₂ htexts 0

end Config

end Admission
