import Admission.Proofs.Client.ForwardedFor
/-!
# Entries of trusted peers

What a list of trusted peers answers is read off its entries one by one: an entry trusts the
addresses that have the family and the leading bits of what it writes, and one that writes nothing
trusts nobody. Only the list of a single `*` is not read like this.

An accepted network is written as an address and a length, and reading this text gives the network
again. So the accepted networks, written out and configured once more, trust the same peers.

1. `Network.ofString?_text`: every network is read back from its text
2. `exists_entry?_agrees_iff`, `isNamed_iff`: what an entry writes, and whom it trusts
3. `isNamed_congr`, `isNamed_texts`: lists that trust the same peers
4. `trusts_iff_written`: the answers of a list
-/

namespace Admission

/-- A larger number has no fewer decimal digits. -/
theorem Text.length_decimal_mono {m n : Nat} (h : m ≤ n) :
    (decimal m).length ≤ (decimal n).length := by
  have hpos : 0 < (decimal n).length := List.length_pos_iff.mpr (decimal_ne_nil n)
  have hlt : n < 10 ^ (decimal n).length :=
    (Nat.length_toDigits_le_iff (by decide) hpos).mp (Nat.le_refl _)
  exact length_decimal_le hpos (Nat.lt_of_le_of_lt h hlt)

/-! ## Networks as text -/

namespace Network

theorem length?_decimal {width n : Nat} (h : n ≤ width) :
    length? width (Text.decimal n) = some n := by
  have hdigits : (Text.decimal n).length ≤ (Text.decimal width).length :=
    Text.length_decimal_mono h
  rw [length?, if_neg (Nat.not_lt.mpr hdigits)]
  simp only [Text.natural?_decimal, if_pos h]

/-- **Every network is read back from its text.** -/
theorem ofString?_text (network : Network) : ofString? network.text = some network := by
  obtain ⟨address, n, hn⟩ := network
  have hread : Address.read? Address.inNetwork address.chars = some address :=
    Address.read?_chars (by decide) address
  have hslash : '/' ∉ address.chars :=
    Address.not_mem_of_read? hread (by decide) (by decide) (by decide)
  have hcut : Text.cut ['/'] (address.chars ++ '/' :: Text.decimal n) =
      some (address.chars, Text.decimal n) := by
    rw [Text.cut_append hslash]
    simp [Text.cut]
  rw [ofString?, text, String.toList_ofList, hcut]
  simp only [hread, length?_decimal hn, dif_pos hn]

theorem slash_mem_text (network : Network) : '/' ∈ network.text.toList := by
  rw [text, String.toList_ofList]
  simp

theorem agrees_trunc (network : Network) (a : Address) :
    network.trunc.Agrees a ↔ network.Agrees a := by
  rw [← contains_iff_agrees, ← contains_iff_agrees, contains_trunc]

end Network

namespace TrustedPeers

variable {entries others : List String} {entry host : String} {network : Network}

/-! ## Entries -/

/-- An entry writes a network: with a `/` an address and a length, and otherwise an address of which
all bits count. -/
def Writes (entry : String) (network : Network) : Prop :=
  if '/' ∈ entry.toList then Network.ofString? entry = some network
  else ∃ a, Address.ofString? entry = some a ∧ .single a = network

/-- **An entry is accepted for what it writes**, with the bits cleared that do not count. -/
theorem exists_entry?_agrees_iff (a : Address) :
    (∃ network, entry? entry = some network ∧ network.Agrees a) ↔
      ∃ network, Writes entry network ∧ network.Agrees a := by
  unfold entry? Writes
  split
  · simp only [Option.map_eq_some_iff]
    constructor
    · rintro ⟨_, ⟨network, hparse, rfl⟩, hagrees⟩
      exact ⟨network, hparse, (network.agrees_trunc a).mp hagrees⟩
    · rintro ⟨network, hparse, hagrees⟩
      exact ⟨network.trunc, ⟨network, hparse, rfl⟩, (network.agrees_trunc a).mpr hagrees⟩
  · simp only [Option.map_eq_some_iff]

/-- A single `*` among other entries writes nothing. -/
theorem not_writes_star (network : Network) : ¬ Writes "*" network := by
  have hnone : Address.ofString? "*" = none := by decide +kernel
  rw [Writes, if_neg (by decide), hnone]
  rintro ⟨a, ha, -⟩
  cases ha

theorem isNamed_iff : IsNamed entries host ↔
    ∃ a, Address.ofString? host = some a ∧
      ∃ entry ∈ entries, ∃ network, Writes entry network ∧ network.Agrees a.canonical := by
  simp only [IsNamed, exists_entry?_agrees_iff]

/-! ## Lists -/

/-- **The order of the entries, repeated entries and those that write nothing do not matter.** -/
theorem isNamed_congr
    (h : ∀ entry network, Writes entry network → (entry ∈ entries ↔ entry ∈ others)) :
    IsNamed entries host ↔ IsNamed others host := by
  rw [isNamed_iff, isNamed_iff]
  constructor
  · rintro ⟨a, hhost, entry, hmem, network, hwrites, hagrees⟩
    exact ⟨a, hhost, entry, (h entry network hwrites).mp hmem, network, hwrites, hagrees⟩
  · rintro ⟨a, hhost, entry, hmem, network, hwrites, hagrees⟩
    exact ⟨a, hhost, entry, (h entry network hwrites).mpr hmem, network, hwrites, hagrees⟩

/-- The networks that were accepted. -/
def accepted : TrustedPeers → List Network
  | networks list => list
  | _ => []

theorem accepted_ofEntries (hlist : entries ≠ ["*"]) :
    (ofEntries entries).accepted = entries.filterMap entry? := by
  by_cases hempty : entries = []
  · simp [ofEntries, hempty, accepted]
  · rw [ofEntries, if_neg hempty, if_neg hlist, accepted]

/-- The text of a network is an entry that writes this network. -/
theorem writes_text_iff {other : Network} : Writes network.text other ↔ network = other := by
  rw [Writes, if_pos network.slash_mem_text, network.ofString?_text, Option.some.injEq]

/-- **The accepted networks, written out, name the same peers.** -/
theorem isNamed_texts (entries : List String) :
    IsNamed ((entries.filterMap entry?).map Network.text) host ↔ IsNamed entries host := by
  rw [isNamed_iff, IsNamed]
  simp only [List.mem_map, List.mem_filterMap]
  constructor
  · rintro ⟨a, hhost, _, ⟨network, ⟨entry, hmem, hentry⟩, rfl⟩, other, hwrites, hagrees⟩
    obtain rfl := writes_text_iff.mp hwrites
    exact ⟨a, hhost, entry, hmem, network, hentry, hagrees⟩
  · rintro ⟨a, hhost, entry, hmem, network, hentry, hagrees⟩
    exact ⟨a, hhost, network.text, ⟨network, ⟨entry, hmem, hentry⟩, rfl⟩, network,
      writes_text_iff.mpr rfl, hagrees⟩

theorem texts_ne_star (list : List Network) : list.map Network.text ≠ ["*"] := by
  intro hstar
  obtain ⟨network, -, htext⟩ : ∃ network ∈ list, network.text = "*" := by
    rw [← List.mem_map, hstar]
    exact List.mem_singleton_self _
  have hslash := network.slash_mem_text
  rw [htext] at hslash
  exact absurd hslash (by decide)

theorem trusts_eq_of_isNamed_iff (hlist : entries ≠ ["*"]) (hothers : others ≠ ["*"])
    (h : IsNamed entries host ↔ IsNamed others host) :
    (ofEntries entries).trusts host = (ofEntries others).trusts host := by
  rw [Bool.eq_iff_iff, trusts_iff_isNamed hlist, trusts_iff_isNamed hothers, h]

/--
**What a list of trusted peers means.** A peer is trusted exactly if the list is a single `*`, or
the peer is an address and some entry of the list writes a network of the family of its canonical
form and with the same leading bits. So two lists trust the same peers if neither is a single `*`
and they have the same entries that write a network, in whatever order and how often they have them,
and whatever else they have, such as a `*`. And the accepted networks, written out and configured
again, trust the same peers.
-/
theorem trusts_iff_written (entries : List String) :
    (∀ host, (ofEntries entries).trusts host = true ↔ entries = ["*"] ∨
      ∃ a, Address.ofString? host = some a ∧
        ∃ entry ∈ entries, ∃ network, Writes entry network ∧ network.Agrees a.canonical) ∧
    (∀ network, ¬ Writes "*" network) ∧
    (entries ≠ ["*"] →
      (∀ others : List String, others ≠ ["*"] →
        (∀ entry network, Writes entry network → (entry ∈ entries ↔ entry ∈ others)) →
        ∀ host, (ofEntries entries).trusts host = (ofEntries others).trusts host) ∧
      ∀ host, (ofEntries ((ofEntries entries).accepted.map Network.text)).trusts host =
        (ofEntries entries).trusts host) := by
  refine ⟨fun host => ?_, not_writes_star, fun hlist => ⟨?_, fun host => ?_⟩⟩
  · by_cases hstar : entries = ["*"]
    · simp [hstar, ofEntries, trusts]
    · rw [trusts_iff_isNamed hstar, isNamed_iff]
      simp only [hstar, false_or]
  · intro others hothers hsame host
    exact trusts_eq_of_isNamed_iff hlist hothers (isNamed_congr hsame)
  · rw [accepted_ofEntries hlist]
    exact trusts_eq_of_isNamed_iff (texts_ne_star _) hlist (isNamed_texts entries)

/-- An IPv6 peer that stands for an IPv4 address, over a list with an entry that writes nothing,
over the other entries in another order with a `*` and a repetition, and over the accepted networks.
-/
theorem trusts_iff_written_of_repeated :
    (ofEntries ["unknown", "10.9.0.0/8", "::1"]).trusts "::ffff:10.1.2.3" = true ∧
      (ofEntries ["::1", "*", "10.9.0.0/8", "::1"]).trusts "::ffff:10.1.2.3" = true ∧
      (ofEntries ["10.0.0.0/8", "::1/128"]).trusts "::ffff:10.1.2.3" = true := by
  obtain ⟨hmeaning, -, hlists⟩ := trusts_iff_written ["unknown", "10.9.0.0/8", "::1"]
  obtain ⟨hothers, htexts⟩ := hlists (by decide)
  have htrusts : (ofEntries ["unknown", "10.9.0.0/8", "::1"]).trusts "::ffff:10.1.2.3" = true := by
    refine (hmeaning _).mpr (.inr ⟨.v6 0xffff0a010203#128, by decide +kernel, "10.9.0.0/8",
      by decide, ⟨.v4 0x0a090000#32, 8, by decide⟩, ?_, rfl, by decide +kernel⟩)
    rw [Writes, if_pos (by decide)]
    decide +kernel
  refine ⟨htrusts, ?_, ?_⟩
  · refine (hothers ["::1", "*", "10.9.0.0/8", "::1"] (by decide) ?_ _).symm.trans htrusts
    intro entry network hwrites
    have hstar : entry ≠ "*" := fun heq => not_writes_star network (heq ▸ hwrites)
    have hunknown : entry ≠ "unknown" := by
      rintro rfl
      have hnone : Address.ofString? "unknown" = none := by decide +kernel
      rw [Writes, if_neg (by decide), hnone] at hwrites
      obtain ⟨a, ha, -⟩ := hwrites
      cases ha
    simp only [List.mem_cons, List.not_mem_nil, hstar, hunknown, false_or, or_false]
    grind
  · have haccepted : (ofEntries ["unknown", "10.9.0.0/8", "::1"]).accepted.map Network.text =
        ["10.0.0.0/8", "::1/128"] := by decide +kernel
    exact haccepted ▸ (htexts _).trans htrusts

end TrustedPeers

end Admission
