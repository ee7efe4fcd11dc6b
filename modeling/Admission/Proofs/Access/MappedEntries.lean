import Admission.Client.Identity
import Admission.Proofs.Access.History
import Admission.Proofs.Address.Roundtrip
/-!
# Entries for IPv4 addresses within IPv6

A client is compared in its canonical form, but a network is kept as it was written. As long as an
address is its own canonical form, every entry that holds it is met. An IPv6 address that stands
for an IPv4 address changes its family on the way, and so the entries of its own family are never
met by it: a range that holds it is accepted and denies it nothing, and a trusted peer that is
written in this form is not trusted.

* `Agrees.not_canonical`: a network that holds such an address does not hold its canonical form
* `isBlocked_text`, `trusts_ofEntries_iff`: what is looked up in either list
* `entry_met_iff`: what follows for every accepted entry
* `not_every_entry_is_met`: hence not every accepted entry does what it was added for
-/

namespace Admission

theorem Address.width_canonical_ne {a : Address} (h : a.canonical ≠ a) :
    a.canonical.width ≠ a.width := by
  cases a with
  | v4 bits => exact absurd rfl h
  | v6 bits =>
    cases hmapped : mapped? bits with
    | none => simp [canonical, hmapped] at h
    | some inner => simp [canonical, hmapped, width]

/-- **A network that holds an address does not hold its canonical form**, if this is another one. -/
theorem Network.Agrees.not_canonical {network : Network} {a : Address} (h : network.Agrees a)
    (hc : a.canonical ≠ a) : ¬ network.Agrees a.canonical :=
  fun hcanonical => Address.width_canonical_ne hc (hcanonical.1.symm.trans h.1)

namespace AccessList

variable {additions : List Addition} {cidr : String} {network : Network} {a : Address}

theorem isBlocked_text (additions : List Addition) (a : Address) :
    (built additions).isBlocked a.text = true ↔
      .blocklist a.text ∈ additions ∨ Covers additions a.canonical := by
  rw [isBlocked_built, Address.ofString?_text]
  simp only [Option.some.injEq, exists_eq_left']

/-- **What an accepted range denies.** An address of its network is denied if it is canonical, and
otherwise only by what else was added. -/
theorem isBlocked_text_of_agrees (hmem : .range cidr ∈ additions)
    (hparse : Network.ofString? cidr = some network) (hagrees : network.Agrees a) :
    (built additions).isBlocked a.text = true ↔
      a.canonical = a ∨ (built (additions.filter (· ≠ .range cidr))).isBlocked a.text = true := by
  constructor
  · intro hblocked
    by_cases hc : a.canonical = a
    · exact .inl hc
    · refine .inr ((isBlocked_text _ a).mpr ?_)
      rcases (isBlocked_text additions a).mp hblocked with hlisted | ⟨other, held, hother, hheld⟩
      · exact .inl (List.mem_filter.mpr ⟨hlisted, by simp⟩)
      · have hne : Addition.range other ≠ .range cidr := by
          intro heq
          obtain rfl := Addition.range.inj heq
          obtain rfl := Option.some.inj (hparse.symm.trans hheld.1)
          exact hagrees.not_canonical hc hheld.2
        refine .inr ⟨other, held, List.mem_filter.mpr ⟨hother, decide_eq_true hne⟩, hheld⟩
  · rintro (hc | hothers)
    · refine (isBlocked_text additions a).mpr (.inr ⟨cidr, network, hmem, hparse, ?_⟩)
      rw [hc]
      exact hagrees
    · exact isBlocked_built_mono List.filter_sublist.subset hothers

end AccessList

namespace TrustedPeers

variable {entries : List String} {entry : String} {a : Address}

/-- An address among the entries counts with all its bits. -/
theorem single_of_address (h : Address.ofString? entry = some a) :
    entry? entry = some (.single a) := by
  unfold entry?
  rw [if_neg (Address.slash_not_mem_of_ofString? h), h, Option.map_some]

theorem agrees_single (a : Address) : (Network.single a).Agrees a := ⟨rfl, fun _ _ => rfl⟩

/-- **A peer is trusted if an entry agrees with its canonical address.** -/
theorem trusts_ofEntries_iff (hlist : entries ≠ ["*"]) {host : String}
    (h : Address.ofString? host = some a) : (ofEntries entries).trusts host = true ↔
      ∃ entry ∈ entries, ∃ network, entry? entry = some network ∧ network.Agrees a.canonical := by
  by_cases hempty : entries = []
  · simp [ofEntries, hempty, trusts]
  · rw [ofEntries, if_neg hempty, if_neg hlist, trusts_networks_iff]
    simp only [h, Option.some.injEq, exists_eq_left', List.mem_filterMap,
      Network.contains_iff_agrees]
    constructor
    · rintro ⟨network, ⟨entry, hmem, hentry⟩, hagrees⟩
      exact ⟨entry, hmem, network, hentry, hagrees⟩
    · rintro ⟨entry, hmem, network, hentry, hagrees⟩
      exact ⟨network, ⟨entry, hmem, hentry⟩, hagrees⟩

/-- **What an address among the entries trusts.** It is trusted itself if it is canonical, and
otherwise only because of another entry. -/
theorem trusts_of_mem (hlist : entries ≠ ["*"]) (hmem : entry ∈ entries)
    (h : Address.ofString? entry = some a) : (ofEntries entries).trusts entry = true ↔
      a.canonical = a ∨ ∃ other ∈ entries, other ≠ entry ∧
        ∃ network, entry? other = some network ∧ network.Agrees a.canonical := by
  rw [trusts_ofEntries_iff hlist h]
  constructor
  · rintro ⟨other, hother, network, hnetwork, hagrees⟩
    by_cases hc : a.canonical = a
    · exact .inl hc
    · refine .inr ⟨other, hother, ?_, network, hnetwork, hagrees⟩
      rintro rfl
      obtain rfl := Option.some.inj ((single_of_address h).symm.trans hnetwork)
      exact (agrees_single a).not_canonical hc hagrees
  · rintro (hc | ⟨other, hother, -, network, hnetwork, hagrees⟩)
    · refine ⟨entry, hmem, .single a, single_of_address h, ?_⟩
      rw [hc]
      exact agrees_single a
    · exact ⟨other, hother, network, hnetwork, hagrees⟩

end TrustedPeers

open AccessList TrustedPeers

/--
**When an accepted entry is met by an address that it holds.** A range that was accepted, whatever
else was added, denies every address of its network that is its own canonical form. Any other
address of the network, an IPv6 address that stands for an IPv4 address, is denied only if the other
additions deny it. In the same way an address among the trusted peers is trusted if it is its own
canonical form, and otherwise only because of some other entry.
-/
theorem entry_met_iff (a : Address) :
    (∀ additions cidr network, .range cidr ∈ additions →
      Network.ofString? cidr = some network → network.Agrees a →
      ((built additions).isBlocked a.text = true ↔ a.canonical = a ∨
        (built (additions.filter (· ≠ .range cidr))).isBlocked a.text = true)) ∧
    (∀ entries entry, entries ≠ ["*"] → entry ∈ entries → Address.ofString? entry = some a →
      ((ofEntries entries).trusts entry = true ↔ a.canonical = a ∨
        ∃ other ∈ entries, other ≠ entry ∧
          ∃ network, entry? other = some network ∧ network.Agrees a.canonical)) := by
  constructor
  · intro additions cidr network hmem hparse hagrees
    exact isBlocked_text_of_agrees hmem hparse hagrees
  · intro entries entry hlist hmem h
    exact trusts_of_mem hlist hmem h

/-- The network `::ffff:10.0.0.0/104`, which is `10.0.0.0/8` written within IPv6. -/
def mappedTen : Network := ⟨.v6 0xffff0a000000#128, 104, by decide⟩

/-- The address `::ffff:10.1.2.3` of this network. -/
def mappedClient : Address := .v6 0xffff0a010203#128

theorem mappedTen_agrees : mappedTen.Agrees mappedClient := ⟨rfl, by decide +kernel⟩

theorem ofString?_mappedTen : Network.ofString? "::ffff:10.0.0.0/104" = some mappedTen := by
  decide +kernel

theorem ofString?_mappedClient : Address.ofString? "::ffff:10.1.2.3" = some mappedClient := by
  decide +kernel

/-- The range `::ffff:10.0.0.0/104` denies the address only together with `10.0.0.0/8`, and in the
same way the address is trusted only together with it. -/
theorem entry_met_iff_of_mapped :
    (built [.range "::ffff:10.0.0.0/104", .range "10.0.0.0/8"]).isBlocked mappedClient.text = true ∧
      (ofEntries ["::ffff:10.1.2.3", "10.0.0.0/8"]).trusts "::ffff:10.1.2.3" = true := by
  obtain ⟨hranges, hentries⟩ := entry_met_iff mappedClient
  have hten : Network.ofString? "10.0.0.0/8" = some ⟨.v4 0x0a000000#32, 8, by decide⟩ := by
    decide +kernel
  constructor
  · refine (hranges _ _ _ List.mem_cons_self ofString?_mappedTen mappedTen_agrees).mpr (.inr ?_)
    decide +kernel
  · refine (hentries _ _ (by decide) List.mem_cons_self ofString?_mappedClient).mpr (.inr ?_)
    refine ⟨"10.0.0.0/8", by decide, by decide, ⟨.v4 0x0a000000#32, 8, by decide⟩, ?_, rfl, ?_⟩
    · decide +kernel
    · decide +kernel

/-- **Not every accepted entry does what it was added for.** -/
theorem not_every_entry_is_met :
    (¬ ∀ additions cidr network a, .range cidr ∈ additions →
      Network.ofString? cidr = some network → network.Agrees a →
      (built additions).isBlocked a.text = true) ∧
    (¬ ∀ entries entry a, entries ≠ ["*"] → entry ∈ entries →
      Address.ofString? entry = some a → (ofEntries entries).trusts entry = true) := by
  constructor
  · intro h
    have hblocked := h [.range "::ffff:10.0.0.0/104"] _ _ _ List.mem_cons_self
      ofString?_mappedTen mappedTen_agrees
    have hpasses : (built [.range "::ffff:10.0.0.0/104"]).isBlocked mappedClient.text = false := by
      decide +kernel
    rw [hpasses] at hblocked
    cases hblocked
  · intro h
    have htrusted := h ["::ffff:10.1.2.3"] _ _ (by decide) List.mem_cons_self
      ofString?_mappedClient
    have hunknown : (ofEntries ["::ffff:10.1.2.3"]).trusts "::ffff:10.1.2.3" = false := by
      decide +kernel
    rw [hunknown] at htrusted
    cases htrusted

end Admission
