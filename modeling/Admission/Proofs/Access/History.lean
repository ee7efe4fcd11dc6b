import Mathlib.Data.List.Dedup
import Mathlib.Data.List.Induction
import Admission.AccessList
import Admission.Proofs.Access.Agreement
/-!
# Histories of an access list

An access list is built by additions, one after another. What it answers is read off the additions
alone: it knows which of them were made, and neither their order nor how often they were made.
A range that is refused leaves no trace.

1. `isSafelisted_add`, `contains_blocklist_add`, `ranges_add`: what one addition does
2. `isSafelisted_built`, `contains_blocklist_built`, `ranges_built`: what all of them have done
3. `isBlocked_built`: a client is denied by its text, or by a range that agrees with its address
4. `answers_of_additions`: the answers and the sizes
-/

namespace Admission

/-- A set of texts has as many texts as there are different ones among those that it holds. -/
theorem TextSet.size_eq_length_dedup {set : TextSet} {texts : List String}
    (h : ∀ text, set.contains text = true ↔ text ∈ texts) : set.size = texts.dedup.length := by
  have hmem : ∀ text, text ∈ set.texts ↔ text ∈ texts.dedup := by
    intro text
    rw [List.mem_dedup, ← h text, contains, List.contains_iff_mem]
  exact ((List.perm_ext_iff_of_nodup set.nodup texts.nodup_dedup).mpr hmem).length_eq

namespace AccessList

/-! ## One addition -/

/-- A call that adds to an access list. -/
inductive Addition where
  | safelist (ip : String)
  | blocklist (ip : String)
  | range (cidr : String)
  deriving DecidableEq

namespace Addition

/-- The text that is let through. -/
def safelisted? : Addition → Option String
  | safelist ip => some ip
  | _ => none

/-- The text that is denied. -/
def blocklisted? : Addition → Option String
  | blocklist ip => some ip
  | _ => none

/-- The network that is denied, if there is one: no text but that of a network is accepted. -/
def network? : Addition → Option Network
  | range cidr => Network.ofString? cidr
  | _ => none

theorem safelisted?_eq_some {addition : Addition} {ip : String} :
    addition.safelisted? = some ip ↔ addition = safelist ip := by
  cases addition <;> simp [safelisted?]

theorem blocklisted?_eq_some {addition : Addition} {ip : String} :
    addition.blocklisted? = some ip ↔ addition = blocklist ip := by
  cases addition <;> simp [blocklisted?]

theorem network?_eq_some {addition : Addition} {network : Network} :
    addition.network? = some network ↔
      ∃ cidr, addition = range cidr ∧ Network.ofString? cidr = some network := by
  cases addition <;> simp [network?]

end Addition

variable (list : AccessList) (addition : Addition) {ip cidr : String}

/-- The list after an addition; a range that is refused leaves it as it is. -/
def add : AccessList :=
  match addition with
  | .safelist ip => list.addSafelist ip
  | .blocklist ip => list.addBlocklist ip
  | .range cidr =>
    match list.addRange cidr with
    | .ok after => after
    | .error _ => list

/-- A range is refused if and only if it is not the text of a network. -/
theorem addRange_eq_error_iff {error : Error} :
    list.addRange cidr = .error error ↔
      Network.ofString? cidr = none ∧ error = .invalidCidr cidr := by
  unfold addRange
  cases Network.ofString? cidr with
  | none => simp [eq_comm]
  | some network => simp

theorem add_range_of_eq_none (h : Network.ofString? cidr = none) :
    list.add (.range cidr) = list := by
  simp only [add, addRange, h]

theorem isSafelisted_add : (list.add addition).isSafelisted ip = true ↔
    addition = .safelist ip ∨ list.isSafelisted ip = true := by
  cases addition with
  | safelist other =>
    show (list.addSafelist other).isSafelisted ip = true ↔ _
    rw [isSafelisted_addSafelist, Bool.or_eq_true, beq_iff_eq, Addition.safelist.injEq,
      eq_comm (a := ip)]
  | blocklist other => simp [add]
  | range cidr =>
    cases h : Network.ofString? cidr with
    | none => simp [list.add_range_of_eq_none h]
    | some network => simp [add, addRange, h, isSafelisted]

theorem contains_blocklist_add : (list.add addition).blocklist.contains ip = true ↔
    addition = .blocklist ip ∨ list.blocklist.contains ip = true := by
  cases addition with
  | safelist other => simp [add, addSafelist]
  | blocklist other =>
    show (list.blocklist.insert other).contains ip = true ↔ _
    rw [TextSet.contains_insert, Bool.or_eq_true, beq_iff_eq, Addition.blocklist.injEq,
      eq_comm (a := ip)]
  | range cidr =>
    cases h : Network.ofString? cidr with
    | none => simp [list.add_range_of_eq_none h]
    | some network => simp [add, addRange, h]

theorem ranges_add : (list.add addition).ranges =
    list.ranges ++ (addition.network?.map Network.trunc).toList := by
  cases addition with
  | safelist other => simp [add, addSafelist, Addition.network?]
  | blocklist other => simp [add, addBlocklist, Addition.network?]
  | range cidr =>
    cases h : Network.ofString? cidr with
    | none => simp [list.add_range_of_eq_none h, Addition.network?, h]
    | some network => simp [add, addRange, Addition.network?, h]

/-! ## All additions -/

/-- The list that additions build, one after another. -/
def built (additions : List Addition) : AccessList := additions.foldl add {}

variable {list addition} {additions others : List Addition}

theorem built_append_singleton (additions : List Addition) (addition : Addition) :
    built (additions ++ [addition]) = (built additions).add addition := by
  rw [built, List.foldl_append]
  rfl

theorem isSafelisted_built :
    (built additions).isSafelisted ip = true ↔ .safelist ip ∈ additions := by
  induction additions using List.reverseRecOn with
  | nil => simp [built, isSafelisted]
  | append_singleton earlier last ih =>
    rw [built_append_singleton, isSafelisted_add, ih, List.mem_append, List.mem_singleton, or_comm,
      eq_comm]

theorem contains_blocklist_built :
    (built additions).blocklist.contains ip = true ↔ .blocklist ip ∈ additions := by
  induction additions using List.reverseRecOn with
  | nil => simp [built]
  | append_singleton earlier last ih =>
    rw [built_append_singleton, contains_blocklist_add, ih, List.mem_append, List.mem_singleton,
      or_comm, eq_comm]

/-- **The ranges are the networks that were added, in order and as often as they were.** -/
theorem ranges_built (additions : List Addition) :
    (built additions).ranges = (additions.filterMap Addition.network?).map Network.trunc := by
  induction additions using List.reverseRecOn with
  | nil => rfl
  | append_singleton earlier last ih =>
    rw [built_append_singleton, ranges_add, ih, List.filterMap_append, List.map_append]
    cases h : last.network? <;> simp [h]

/-- One of the additions is a range whose network agrees with an address. -/
def Covers (additions : List Addition) (a : Address) : Prop :=
  ∃ cidr network, .range cidr ∈ additions ∧ Network.ofString? cidr = some network ∧
    network.Agrees a

theorem any_ranges_built (additions : List Addition) (a : Address) :
    (built additions).ranges.any (·.contains a) = true ↔ Covers additions a := by
  rw [ranges_built, List.any_eq_true]
  constructor
  · rintro ⟨_, hmem, hcontains⟩
    obtain ⟨network, hnetwork, rfl⟩ := List.mem_map.mp hmem
    obtain ⟨addition, haddition, hsome⟩ := List.mem_filterMap.mp hnetwork
    obtain ⟨cidr, rfl, hparse⟩ := Addition.network?_eq_some.mp hsome
    -- the bits behind the prefix were cleared, and nobody looks at them
    rw [Network.contains_trunc, Network.contains_iff_agrees] at hcontains
    exact ⟨cidr, network, haddition, hparse, hcontains⟩
  · rintro ⟨cidr, network, haddition, hparse, hagrees⟩
    have hsome : (Addition.range cidr).network? = some network := hparse
    refine ⟨network.trunc, List.mem_map_of_mem (List.mem_filterMap.mpr ⟨_, haddition, hsome⟩), ?_⟩
    rw [Network.contains_trunc, Network.contains_iff_agrees]
    exact hagrees

/-- **A client is denied by its text or by a range that agrees with its canonical address.** -/
theorem isBlocked_built : (built additions).isBlocked ip = true ↔
    .blocklist ip ∈ additions ∨
      ∃ a, Address.ofString? ip = some a ∧ Covers additions a.canonical := by
  rw [isBlocked, Bool.or_eq_true, contains_blocklist_built, inRanges]
  cases h : Address.ofString? ip with
  | none => simp
  | some a => simp only [any_ranges_built, Option.some.injEq, exists_eq_left']

theorem Covers.mono (h : additions ⊆ others) {a : Address} (hcovers : Covers additions a) :
    Covers others a := by
  obtain ⟨cidr, network, hmem, hparse, hagrees⟩ := hcovers
  exact ⟨cidr, network, h hmem, hparse, hagrees⟩

theorem isSafelisted_built_mono (h : additions ⊆ others)
    (hs : (built additions).isSafelisted ip = true) : (built others).isSafelisted ip = true :=
  isSafelisted_built.mpr (h (isSafelisted_built.mp hs))

/-- **The more is added, the more is denied.** -/
theorem isBlocked_built_mono (h : additions ⊆ others)
    (hb : (built additions).isBlocked ip = true) : (built others).isBlocked ip = true := by
  rw [isBlocked_built] at hb ⊢
  rcases hb with htext | ⟨a, hparse, hcovers⟩
  · exact .inl (h htext)
  · exact .inr ⟨a, hparse, hcovers.mono h⟩

theorem built_append_range (before after : List Addition) (h : Network.ofString? cidr = none) :
    built (before ++ .range cidr :: after) = built (before ++ after) := by
  rw [built, built, List.foldl_append, List.foldl_append, List.foldl_cons,
    add_range_of_eq_none _ h]

/-! ## Answers and sizes -/

theorem size_safelist_built (additions : List Addition) : (built additions).safelist.size =
    (additions.filterMap Addition.safelisted?).dedup.length := by
  refine TextSet.size_eq_length_dedup fun text => ?_
  rw [List.mem_filterMap, ← isSafelisted, isSafelisted_built]
  simp only [Addition.safelisted?_eq_some, exists_eq_right]

theorem size_blocklist_built (additions : List Addition) : (built additions).blocklist.size =
    (additions.filterMap Addition.blocklisted?).dedup.length := by
  refine TextSet.size_eq_length_dedup fun text => ?_
  rw [List.mem_filterMap, contains_blocklist_built]
  simp only [Addition.blocklisted?_eq_some, exists_eq_right]

theorem length_ranges_built (additions : List Addition) : (built additions).ranges.length =
    additions.countP fun addition => addition.network?.isSome := by
  rw [ranges_built, List.length_map, List.length_filterMap_eq_countP]

/--
**The meaning of an access list** after any additions, refused ranges among them.

* A client is let through if its text was added to be let through.
* It is denied if its text was added to be denied, or if it is an address and a range was added
  whose network agrees with the canonical form of this address on the leading bits.
* More additions leave no client out that was let through or denied. The same additions in another
  order, or made several times, give the same answers.
* A range is refused if it is not the text of a network, and then nothing ever shows that it was
  added.
* The sizes are the number of different texts of either kind and the number of accepted ranges.
-/
theorem answers_of_additions (additions : List Addition) :
    (∀ ip, (built additions).isSafelisted ip = true ↔ .safelist ip ∈ additions) ∧
    (∀ ip, (built additions).isBlocked ip = true ↔ .blocklist ip ∈ additions ∨
      ∃ a, Address.ofString? ip = some a ∧ ∃ cidr network, .range cidr ∈ additions ∧
        Network.ofString? cidr = some network ∧ network.Agrees a.canonical) ∧
    (∀ others, additions ⊆ others → ∀ ip,
      ((built additions).isSafelisted ip = true → (built others).isSafelisted ip = true) ∧
      ((built additions).isBlocked ip = true → (built others).isBlocked ip = true)) ∧
    (∀ others, (∀ addition, addition ∈ others ↔ addition ∈ additions) → ∀ ip,
      (built others).isSafelisted ip = (built additions).isSafelisted ip ∧
      (built others).isBlocked ip = (built additions).isBlocked ip) ∧
    (∀ cidr error, (built additions).addRange cidr = .error error ↔
      Network.ofString? cidr = none ∧ error = .invalidCidr cidr) ∧
    (∀ cidr, Network.ofString? cidr = none → ∀ more,
      built (additions ++ .range cidr :: more) = built (additions ++ more)) ∧
    (built additions).safelist.size =
      (additions.filterMap Addition.safelisted?).dedup.length ∧
    (built additions).blocklist.size =
      (additions.filterMap Addition.blocklisted?).dedup.length ∧
    (built additions).ranges.length =
      additions.countP fun addition => addition.network?.isSome := by
  refine ⟨fun ip => isSafelisted_built, fun ip => isBlocked_built, fun others h ip => ?_,
    fun others h ip => ?_, fun cidr error => addRange_eq_error_iff _,
    fun cidr h more => built_append_range additions more h, size_safelist_built additions,
    size_blocklist_built additions, length_ranges_built additions⟩
  · exact ⟨isSafelisted_built_mono h, isBlocked_built_mono h⟩
  · have hsub : others ⊆ additions := fun addition => (h addition).mp
    have hsup : additions ⊆ others := fun addition => (h addition).mpr
    constructor
    · exact Bool.eq_iff_iff.mpr ⟨isSafelisted_built_mono hsub, isSafelisted_built_mono hsup⟩
    · exact Bool.eq_iff_iff.mpr ⟨isBlocked_built_mono hsub, isBlocked_built_mono hsup⟩

/-- Ranges of which the second is refused, since no IPv4 address has 33 bits. -/
def officeRanges : List Addition := [.range "172.16.0.9/24", .range "172.16.1.0/33"]

/-- The bits behind the prefix do not matter, an IPv4 address within IPv6 is one of IPv4, and the
refused range leaves no trace. -/
theorem answers_of_additions_with_refused_range :
    (built officeRanges).isBlocked "::ffff:172.16.0.5" = true ∧
      (built officeRanges).isBlocked "172.16.1.5" = false ∧
      (built officeRanges).ranges.length = 1 ∧
      built officeRanges = built [.range "172.16.0.9/24"] := by
  obtain ⟨-, hblocked, -, -, -, -, -, -, hlength⟩ := answers_of_additions officeRanges
  obtain ⟨-, -, -, -, -, hrefused, -⟩ := answers_of_additions [.range "172.16.0.9/24"]
  have haddress : Address.ofString? "::ffff:172.16.0.5" = some (.v6 0xffffac100005#128) := by
    decide +kernel
  have hnetwork : Network.ofString? "172.16.0.9/24" =
      some ⟨.v4 0xac100009#32, 24, by decide⟩ := by
    decide +kernel
  have hagrees : Network.Agrees ⟨.v4 0xac100009#32, 24, by decide⟩
      (Address.v6 0xffffac100005#128).canonical :=
    ⟨rfl, by decide⟩
  refine ⟨?_, by decide +kernel, hlength.trans (by decide +kernel), ?_⟩
  · exact (hblocked _).mpr (.inr ⟨_, haddress, _, _, List.mem_cons_self, hnetwork, hagrees⟩)
  · exact hrefused "172.16.1.0/33" (by decide +kernel) []

end AccessList

end Admission
