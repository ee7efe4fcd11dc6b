import Mathlib.Algebra.Group.Nat.Defs
import Admission.Address.Text
/-!
# Address texts are read back

The text of an address is read as this address, both where an address stands alone and where it is
that of a network: the two grammars differ in what they allow beyond the texts that are written.

1. `ofDigits_toDigits`, `ofOctets_octets`, `ofGroups_groups`: an address is the number that its
   octets or groups write
2. `octet?_decimal`, `group?_groupText`: each of them is read back from its field
3. `not_mem_of_octets?`, `not_mem_of_groups?`: the fields hold none of the separators, so that
   splitting finds the fields that were joined
4. `cut_groupsText_append`: the first `::` of a text is that of the gap
5. `v6?_mapped`, `v6?_gap`, `v6?_groupsText`: the three forms of an IPv6 address
6. `read?_chars`, `ofString?_text`: an address of either family

Step 3 is about every text that is read, and not only about those that are written. Hence no text
of an address, however it is written, holds a `/` (`slash_not_mem_of_ofString?`).
-/

namespace Admission.Address

open Admission.Text

/-! ## Digits -/

theorem ofDigits_append_singleton (size : Nat) (digits : List Nat) (digit : Nat) :
    ofDigits size (digits ++ [digit]) = ofDigits size digits * 2 ^ size + digit := by
  unfold ofDigits
  rw [List.foldl_append]
  rfl

theorem toDigits_succ (size count value : Nat) :
    toDigits size (count + 1) value =
      toDigits size count (value / 2 ^ size) ++ [value % 2 ^ size] := by
  unfold toDigits
  rw [List.range_succ, List.map_append, List.map_singleton]
  congr 1
  · refine List.map_congr_left fun i hi => ?_
    have hlt : i < count := List.mem_range.mp hi
    have hpow : size * (count + 1 - 1 - i) = size + size * (count - 1 - i) := by
      rw [show count + 1 - 1 - i = 1 + (count - 1 - i) by omega, Nat.mul_add, Nat.mul_one]
    show value / 2 ^ (size * (count + 1 - 1 - i)) % 2 ^ size = _
    rw [hpow, Nat.pow_add, ← Nat.div_div_eq_div_mul]
    rfl
  · simp

/-- **The digits of a number write the number**, up to what they cannot write. -/
theorem ofDigits_toDigits (size count value : Nat) :
    ofDigits size (toDigits size count value) = value % 2 ^ (size * count) := by
  induction count generalizing value with
  | zero => simp [toDigits, ofDigits, Nat.mod_one]
  | succ count ih =>
    rw [toDigits_succ, ofDigits_append_singleton, ih, Nat.mul_succ, Nat.pow_add,
      Nat.mul_comm (2 ^ (size * count)), Nat.mod_mul]
    ac_rfl

theorem ofOctets_octets (bits : BitVec 32) : ofOctets (octets bits) = bits := by
  rw [ofOctets, octets, ofDigits_toDigits, Nat.mod_eq_of_lt bits.isLt, BitVec.ofNat_toNat,
    BitVec.setWidth_eq]

theorem ofGroups_groups (bits : BitVec 128) : ofGroups (groups bits) = bits := by
  rw [ofGroups, groups, ofDigits_toDigits, Nat.mod_eq_of_lt bits.isLt, BitVec.ofNat_toNat,
    BitVec.setWidth_eq]

/-! ## Fields -/

variable {grammar : Grammar} {c : Char}

theorem octet?_decimal {n : Nat} (h : n < 256) : octet? grammar (decimal n) = some n := by
  have hlength : (decimal n).length ≤ 3 :=
    (Nat.length_toDigits_le_iff (by decide) (by decide)).mpr (by omega)
  have hzero : ∀ n < 256, ¬ (1 < (decimal n).length ∧ (decimal n).head? = some '0') := by
    decide +kernel
  have hform : ¬ (3 < (decimal n).length ∨
      (¬ grammar.leadingZeros ∧ 1 < (decimal n).length ∧ (decimal n).head? = some '0')) := by
    rintro (hlong | ⟨-, hlead⟩)
    · omega
    · exact hzero n h hlead
  rw [octet?, if_neg hform, natural?_decimal]
  exact if_pos h

theorem group?_groupText {g : Nat} (h : g < 65536) : group? (groupText g) = some g := by
  have hlength : (groupText g).length ≤ 4 :=
    (Nat.length_toDigits_le_iff (by decide) (by decide)).mpr h
  rw [group?, if_neg (by omega), groupText, natural?_toDigits (by decide) (by decide)]

theorem natural?_of_octet? {text : List Char} {n : Nat} (h : octet? grammar text = some n) :
    natural? 10 text = some n := by
  rw [octet?] at h
  split at h
  · cases h
  · cases hn : natural? 10 text with
    | none => simp [hn] at h
    | some m =>
      simp only [hn] at h
      split at h
      · exact h
      · cases h

theorem natural?_of_group? {text : List Char} {g : Nat} (h : group? text = some g) :
    natural? 16 text = some g := by
  rw [group?] at h
  split at h
  · cases h
  · exact h

theorem mapM_map_eq_some {α β : Type} {write : α → β} {read : β → Option α} {values : List α}
    (h : ∀ value ∈ values, read (write value) = some value) :
    (values.map write).mapM read = some values := by
  induction values with
  | nil => rfl
  | cons first rest ih =>
    obtain ⟨hfirst, hrest⟩ := List.forall_mem_cons.mp h
    rw [List.map_cons, List.mapM_cons, hfirst, ih hrest]
    rfl

theorem exists_of_mem_of_mapM {α β : Type} {read : β → Option α} {texts : List β}
    {values : List α} (h : texts.mapM read = some values) {text : β} (hmem : text ∈ texts) :
    ∃ value, read text = some value := by
  induction texts generalizing values with
  | nil => cases hmem
  | cons first rest ih =>
    rw [List.mapM_cons] at h
    obtain ⟨value, hfirst, h⟩ := Option.bind_eq_some_iff.mp h
    obtain ⟨others, hrest, -⟩ := Option.bind_eq_some_iff.mp h
    rcases List.mem_cons.mp hmem with rfl | hmem
    · exact ⟨value, hfirst⟩
    · exact ih hrest hmem

/-! ## Octets -/

/-- Octets are read from digits and dots only. -/
theorem not_mem_of_octets? {text : List Char} {values : List Nat}
    (h : octets? grammar text = some values) (hc : digitValue c = none) (hdot : c ≠ '.') :
    c ∉ text := by
  intro hmem
  rw [octets?] at h
  split at h
  · rw [← unfields_fields '.' text] at hmem
    rcases eq_or_mem_of_mem_unfields hmem with heq | ⟨field, hfield, hmem⟩
    · exact hdot heq
    · obtain ⟨n, hn⟩ := exists_of_mem_of_mapM h hfield
      exact not_mem_of_natural? (natural?_of_octet? hn) hc hmem
  · cases h

theorem octets?_octetsText (bits : BitVec 32) :
    octets? grammar (octetsText bits) = some (octets bits) := by
  have hne : (octets bits).map decimal ≠ [] := by
    rw [← List.length_pos_iff, List.length_map, length_octets]
    decide
  have hfields : fields '.' (octetsText bits) = (octets bits).map decimal := by
    refine fields_unfields hne fun field hfield => ?_
    obtain ⟨n, -, rfl⟩ := List.mem_map.mp hfield
    exact not_mem_of_natural? (natural?_decimal n) (by decide)
  have hlength : ((octets bits).map decimal).length = 4 := by
    rw [List.length_map, length_octets]
  rw [octets?, hfields]
  exact (if_pos hlength).trans (mapM_map_eq_some fun n hn => octet?_decimal (octets_lt hn))

/-! ## Groups -/

/-- Groups are read from digits only, but for the dots of an IPv4 address at the end. -/
theorem not_mem_of_groups? {ipv4 : Bool} {texts : List (List Char)} {values : List Nat}
    (h : groups? grammar ipv4 texts = some values) (hc : digitValue c = none) (hdot : c ≠ '.') :
    ∀ text ∈ texts, c ∉ text := by
  induction texts generalizing values with
  | nil => exact List.forall_mem_nil _
  | cons first rest ih =>
    cases rest with
    | nil =>
      rw [List.forall_mem_singleton]
      rw [groups?] at h
      cases hgroup : group? first with
      | some g => exact not_mem_of_natural? (natural?_of_group? hgroup) hc
      | none =>
        cases hoctets : octets? grammar first with
        | some octets => exact not_mem_of_octets? hoctets hc hdot
        | none => simp [hgroup, hoctets] at h
    | cons second others =>
      rw [groups?] at h
      · cases hgroup : group? first with
        | none => simp [hgroup] at h
        | some g =>
          cases hrest : groups? grammar ipv4 (second :: others) with
          | none => simp [hgroup, hrest] at h
          | some gs =>
            rw [List.forall_mem_cons]
            exact ⟨not_mem_of_natural? (natural?_of_group? hgroup) hc, ih hrest⟩
      · simp

theorem groups?_map_groupText (ipv4 : Bool) {values : List Nat} (h : ∀ g ∈ values, g < 65536) :
    groups? grammar ipv4 (values.map groupText) = some values := by
  induction values with
  | nil => rfl
  | cons first rest ih =>
    obtain ⟨hfirst, hrest⟩ := List.forall_mem_cons.mp h
    cases rest with
    | nil => simp only [List.map_cons, List.map_nil, groups?, group?_groupText hfirst]
    | cons second others =>
      have ih := ih hrest
      rw [List.map_cons] at ih ⊢
      rw [List.map_cons, groups?, group?_groupText hfirst, ih]
      simp

/-- The field of a group is not empty and holds no colon. -/
theorem groupText_plain (g : Nat) : groupText g ≠ [] ∧ ':' ∉ groupText g :=
  ⟨Nat.toDigits_ne_nil,
    not_mem_of_natural? (natural?_toDigits (by decide) (by decide) g) (by decide)⟩

theorem side_groupsText (values : List Nat) :
    side (groupsText values) = values.map groupText := by
  cases values with
  | nil => rfl
  | cons first rest =>
    have hfields : fields ':' (groupsText (first :: rest)) = (first :: rest).map groupText := by
      refine fields_unfields (by simp) fun field hfield => ?_
      obtain ⟨g, -, rfl⟩ := List.mem_map.mp hfield
      exact (groupText_plain g).2
    have hne : groupsText (first :: rest) ≠ [] := by
      intro hempty
      rw [hempty] at hfields
      exact (groupText_plain first).1 (List.cons.inj hfields).1.symm
    rw [side, if_neg hne, hfields]

/-! ## The gap -/

theorem cut_colon {text : List Char} (h : text.head? ≠ some ':') :
    cut [':', ':'] (':' :: text) =
      (cut [':', ':'] text).map fun (before, after) => (':' :: before, after) := by
  have hprefix : ¬ [':', ':'].isPrefixOf (':' :: text) := by
    cases text with
    | nil => decide
    | cons c rest =>
      have hc : ':' ≠ c := fun heq => h (by rw [← heq]; rfl)
      simp [List.isPrefixOf, hc]
  rw [cut, if_neg hprefix]

theorem head?_groupsText_append (first : Nat) (rest : List Nat) (text : List Char) :
    (groupsText (first :: rest) ++ text).head? ≠ some ':' := by
  obtain ⟨hne, hcolon⟩ := groupText_plain first
  obtain ⟨c, tail, hfirst⟩ := List.exists_cons_of_ne_nil hne
  have hc : c ≠ ':' := fun heq => hcolon (by simp [hfirst, heq])
  cases rest <;> simp [groupsText, unfields, hfirst, hc]

/-- **A cut passes over groups**: there is no gap before the end of them. -/
theorem cut_groupsText_append (values : List Nat) (text : List Char) :
    cut [':', ':'] (groupsText values ++ text) = (cut [':', ':'] text).map
      fun (before, after) => (groupsText values ++ before, after) := by
  induction values with
  | nil => simp [groupsText, unfields]
  | cons first rest ih =>
    cases rest with
    | nil => exact cut_append (groupText_plain first).2 text
    | cons second others =>
      have hunfold : groupsText (first :: second :: others) =
          groupText first ++ ':' :: groupsText (second :: others) := rfl
      rw [hunfold, List.append_assoc, List.cons_append, cut_append (groupText_plain first).2,
        cut_colon (head?_groupsText_append second others text), ih, Option.map_map, Option.map_map]
      simp [Function.comp_def]

theorem cut_groupsText (values : List Nat) : cut [':', ':'] (groupsText values) = none := by
  have h := cut_groupsText_append values []
  rwa [List.append_nil] at h

theorem cut_gap (head tail : List Nat) :
    cut [':', ':'] (groupsText head ++ [':', ':'] ++ groupsText tail) =
      some (groupsText head, groupsText tail) := by
  rw [List.append_assoc, cut_groupsText_append]
  simp [cut]

/-- A gap lies within the eight groups, and they are zero there. -/
theorem gap?_eq_some {values : List Nat} {start length : Nat}
    (h : gap? values = some (start, length)) : 2 ≤ length ∧ start + length ≤ 8 ∧
      ∀ g ∈ (values.drop start).take length, g = 0 := by
  have hgaps : ∀ gap ∈ gaps, 2 ≤ gap.2 ∧ gap.1 + gap.2 ≤ 8 := by decide
  obtain ⟨hlow, hhigh⟩ := hgaps _ (List.mem_of_find?_eq_some h)
  have hzero := List.find?_some h
  simp only [List.all_eq_true, beq_iff_eq] at hzero
  exact ⟨hlow, hhigh, hzero⟩

/-- The groups around a gap and the zeros in it are all groups. -/
theorem fill_gap {values : List Nat} (hlength : values.length = 8) {start length : Nat}
    (h : gap? values = some (start, length)) :
    values.take start ++
        List.replicate (8 - (values.take start).length - (values.drop (start + length)).length) 0 ++
        values.drop (start + length) = values := by
  obtain ⟨-, hhigh, hzero⟩ := gap?_eq_some h
  have hrun : (values.drop start).take length = List.replicate length 0 := by
    refine List.eq_replicate_iff.mpr ⟨?_, hzero⟩
    rw [List.length_take, List.length_drop]
    omega
  have hcount : 8 - (values.take start).length - (values.drop (start + length)).length =
      length := by
    rw [List.length_take, List.length_drop]
    omega
  rw [hcount, ← hrun, List.append_assoc, ← List.drop_drop, List.take_append_drop,
    List.take_append_drop]

/-! ## IPv4 within IPv6 -/

/-- An IPv6 address that stands for an IPv4 address has it in its last two groups. -/
theorem ofGroups_mapped {bits : BitVec 128} {inner : BitVec 32} (h : mapped? bits = some inner)
    {a b c d : Nat} (hoctets : octets inner = [a, b, c, d]) :
    ofGroups [0, 0, 0, 0, 0, 0xffff, a * 256 + b, c * 256 + d] = bits := by
  unfold mapped? at h
  split at h
  · next hhead =>
    have hinner : ofDigits 8 (octets inner) = inner.toNat := by
      rw [octets, ofDigits_toDigits, Nat.mod_eq_of_lt inner.isLt]
    have hlow : inner.toNat = bits.toNat % 2 ^ 32 := by
      rw [← Option.some.inj h]
      simp
    have hhigh : bits.toNat / 2 ^ 32 = 0xffff := by
      have htop : bits.toNat / 2 ^ 32 < 2 ^ 96 := by
        have := bits.isLt
        omega
      have hvalue := congrArg BitVec.toNat hhead
      rw [BitVec.extractLsb'_toNat, Nat.shiftRight_eq_div_pow, Nat.mod_eq_of_lt htop] at hvalue
      exact hvalue
    have hgroups : ofDigits 16 [0, 0, 0, 0, 0, 0xffff, a * 256 + b, c * 256 + d] =
        0xffff * 2 ^ 32 + ofDigits 8 [a, b, c, d] := by
      simp only [ofDigits, List.foldl_cons, List.foldl_nil, Nat.pow_eq, Nat.zero_mul,
        Nat.zero_add, Nat.reducePow]
      omega
    have hvalue : ofDigits 16 [0, 0, 0, 0, 0, 0xffff, a * 256 + b, c * 256 + d] = bits.toNat := by
      rw [hgroups, ← hoctets, hinner, hlow, ← hhigh, Nat.div_add_mod']
    rw [ofGroups, hvalue, BitVec.ofNat_toNat, BitVec.setWidth_eq]
  · cases h

/-! ## Addresses -/

theorem v4?_octetsText (bits : BitVec 32) : v4? grammar (octetsText bits) = some bits := by
  rw [v4?, octets?_octetsText, Option.map_some, ofOctets_octets]

/-- No IPv4 address holds a colon. -/
theorem v4?_eq_none {text : List Char} (h : ':' ∈ text) : v4? grammar text = none := by
  cases hoctets : octets? grammar text with
  | none => rw [v4?, hoctets, Option.map_none]
  | some values => exact absurd h (not_mem_of_octets? hoctets (by decide) (by decide))

theorem v6?_mapped (hgap : grammar.leastGap ≤ 2) {bits : BitVec 128} {inner : BitVec 32}
    (h : mapped? bits = some inner) :
    v6? grammar ([':', ':', 'f', 'f', 'f', 'f', ':'] ++ octetsText inner) = some bits := by
  obtain ⟨a, b, c, d, hoctets⟩ : ∃ a b c d, octets inner = [a, b, c, d] := ⟨_, _, _, _, rfl⟩
  have hread : octets? grammar (octetsText inner) = some [a, b, c, d] := by
    rw [octets?_octetsText, hoctets]
  have hcolon : ':' ∉ octetsText inner := not_mem_of_octets? hread (by decide) (by decide)
  have hfields : side (['f', 'f', 'f', 'f', ':'] ++ octetsText inner) =
      [['f', 'f', 'f', 'f'], octetsText inner] := by
    have hcut := fields_append_cons (show ':' ∉ ['f', 'f', 'f', 'f'] by decide) (octetsText inner)
    rw [fields_of_not_mem hcolon] at hcut
    rw [side, if_neg (by simp)]
    exact hcut
  have hlast : group? (octetsText inner) = none := by
    cases hgroup : group? (octetsText inner) with
    | none => rfl
    | some g =>
      -- the first dot is not a digit
      have hdot : '.' ∉ octetsText inner :=
        not_mem_of_natural? (natural?_of_group? hgroup) (by decide)
      refine absurd ?_ hdot
      rw [octetsText, hoctets]
      simp [unfields]
  have hgroups : groups? grammar true [['f', 'f', 'f', 'f'], octetsText inner] =
      some [0xffff, a * 256 + b, c * 256 + d] := by
    have hfirst : group? ['f', 'f', 'f', 'f'] = some 0xffff := by decide
    rw [groups?, hfirst, groups?, hlast]
    · simp only [if_true, hread]
    · simp
  have hcut : cut [':', ':'] ([':', ':', 'f', 'f', 'f', 'f', ':'] ++ octetsText inner) =
      some ([], ['f', 'f', 'f', 'f', ':'] ++ octetsText inner) := by
    simp [cut]
  have hbefore : groups? grammar false (side []) = some [] := rfl
  rw [v6?, hcut]
  simp only [hbefore, hfields, hgroups]
  rw [if_pos (by simp; omega)]
  exact congrArg some (ofGroups_mapped h hoctets)

theorem v6?_gap (hgap : grammar.leastGap ≤ 2) {bits : BitVec 128} {start length : Nat}
    (h : gap? (groups bits) = some (start, length)) :
    v6? grammar (groupsText ((groups bits).take start) ++ [':', ':'] ++
      groupsText ((groups bits).drop (start + length))) = some bits := by
  obtain ⟨hlow, hhigh, -⟩ := gap?_eq_some h
  have hlength := length_groups bits
  have hhead : groups? grammar false (side (groupsText ((groups bits).take start))) =
      some ((groups bits).take start) := by
    rw [side_groupsText]
    exact groups?_map_groupText false fun g hg => groups_lt (List.mem_of_mem_take hg)
  have htail : groups? grammar true (side (groupsText ((groups bits).drop (start + length)))) =
      some ((groups bits).drop (start + length)) := by
    rw [side_groupsText]
    exact groups?_map_groupText true fun g hg => groups_lt (List.mem_of_mem_drop hg)
  have hfits : ((groups bits).take start).length < 8 ∧ ((groups bits).take start).length +
      ((groups bits).drop (start + length)).length + grammar.leastGap ≤ 8 := by
    rw [List.length_take, List.length_drop, hlength]
    omega
  rw [v6?, cut_gap]
  simp only [hhead, htail]
  rw [if_pos hfits, fill_gap hlength h, ofGroups_groups]

theorem v6?_groupsText (bits : BitVec 128) : v6? grammar (groupsText (groups bits)) = some bits := by
  have hread : groups? grammar true (side (groupsText (groups bits))) = some (groups bits) := by
    rw [side_groupsText]
    exact groups?_map_groupText true fun g hg => groups_lt hg
  rw [v6?, cut_groupsText]
  simp only [hread]
  rw [if_pos (length_groups bits), ofGroups_groups]

/-- An IPv6 address is written in one of three forms. -/
theorem cases_v6Text (bits : BitVec 128) :
    (∃ inner, mapped? bits = some inner ∧
      v6Text bits = [':', ':', 'f', 'f', 'f', 'f', ':'] ++ octetsText inner) ∨
    (∃ start length, gap? (groups bits) = some (start, length) ∧
      v6Text bits = groupsText ((groups bits).take start) ++ [':', ':'] ++
        groupsText ((groups bits).drop (start + length))) ∨
    v6Text bits = groupsText (groups bits) := by
  cases hmapped : mapped? bits with
  | some inner => exact .inl ⟨inner, rfl, by simp only [v6Text, hmapped]⟩
  | none =>
    cases hgap : gap? (groups bits) with
    | some gap => exact .inr (.inl ⟨gap.1, gap.2, rfl, by simp only [v6Text, hmapped, hgap]⟩)
    | none => exact .inr (.inr (by simp only [v6Text, hmapped, hgap]))

theorem v6?_v6Text (hgap : grammar.leastGap ≤ 2) (bits : BitVec 128) :
    v6? grammar (v6Text bits) = some bits := by
  rcases cases_v6Text bits with ⟨inner, hmapped, htext⟩ | ⟨start, length, h, htext⟩ | htext
  · rw [htext, v6?_mapped hgap hmapped]
  · rw [htext, v6?_gap hgap h]
  · rw [htext, v6?_groupsText]

theorem colon_mem_v6Text (bits : BitVec 128) : ':' ∈ v6Text bits := by
  rcases cases_v6Text bits with ⟨inner, -, htext⟩ | ⟨start, length, -, htext⟩ | htext
  · simp [htext]
  · simp [htext]
  · obtain ⟨a, b, rest, hgroups⟩ : ∃ a b rest, groups bits = a :: b :: rest := ⟨_, _, _, rfl⟩
    simp [htext, hgroups, groupsText, unfields]

/-- **Every address is read back from its text.** -/
theorem read?_chars (hgap : grammar.leastGap ≤ 2) (a : Address) :
    read? grammar a.chars = some a := by
  cases a with
  | v4 bits => rw [chars, read?, v4?_octetsText]
  | v6 bits =>
    rw [chars, read?, v4?_eq_none (colon_mem_v6Text bits), v6?_v6Text hgap, Option.map_some]

theorem ofString?_text (a : Address) : ofString? a.text = some a := by
  rw [ofString?, text, String.toList_ofList]
  exact read?_chars (by decide) a

/-! ## Characters of an address -/

theorem not_mem_of_side {text : List Char} (hc : c ≠ ':') (h : ∀ field ∈ side text, c ∉ field) :
    c ∉ text := by
  intro hmem
  have hne : text ≠ [] := List.ne_nil_of_mem hmem
  rw [side, if_neg hne] at h
  rw [← unfields_fields ':' text] at hmem
  rcases eq_or_mem_of_mem_unfields hmem with heq | ⟨field, hfield, hmem⟩
  · exact hc heq
  · exact h field hfield hmem

/-- **An address is read from digits, dots and colons only.** -/
theorem not_mem_of_read? {text : List Char} {a : Address} (h : read? grammar text = some a)
    (hc : digitValue c = none) (hdot : c ≠ '.') (hcolon : c ≠ ':') : c ∉ text := by
  rw [read?] at h
  cases hv4 : v4? grammar text with
  | some bits =>
    obtain ⟨values, hoctets, -⟩ := Option.map_eq_some_iff.mp hv4
    exact not_mem_of_octets? hoctets hc hdot
  | none =>
    simp only [hv4] at h
    obtain ⟨bits, hv6, -⟩ := Option.map_eq_some_iff.mp h
    rw [v6?] at hv6
    cases hcut : cut [':', ':'] text with
    | none =>
      simp only [hcut] at hv6
      cases hgroups : groups? grammar true (side text) with
      | none => simp [hgroups] at hv6
      | some values => exact not_mem_of_side hcolon (not_mem_of_groups? hgroups hc hdot)
    | some parts =>
      obtain ⟨before, after⟩ := parts
      simp only [hcut] at hv6
      cases hhead : groups? grammar false (side before) with
      | none => simp [hhead] at hv6
      | some head =>
        cases htail : groups? grammar true (side after) with
        | none => simp [hhead, htail] at hv6
        | some tail =>
          have hbefore := not_mem_of_side hcolon (not_mem_of_groups? hhead hc hdot)
          have hafter := not_mem_of_side hcolon (not_mem_of_groups? htail hc hdot)
          rw [cut_eq_some hcut]
          simp [hbefore, hafter, hcolon]

theorem slash_not_mem_of_ofString? {text : String} {a : Address} (h : ofString? text = some a) :
    '/' ∉ text.toList :=
  not_mem_of_read? h (by decide) (by decide) (by decide)

end Admission.Address
