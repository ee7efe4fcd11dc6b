import Admission.Error
import Admission.Network
/-!
# Access lists

An access list holds address texts that pass every check, address texts that are always denied, and
networks whose addresses are always denied. The two lists of texts are sets: a text that is already
there is not added again. Ranges are kept one by one, as often as they are added.

Main statements: `TextSet.contains_insert` (what is in a set after an addition) and
`isSafelisted_addSafelist` (who is let through after one).
-/

namespace Admission

/-- A set of texts in the order in which they came. -/
structure TextSet where
  texts : List String
  nodup : texts.Nodup
  deriving DecidableEq

namespace TextSet

/-- The set without a text. -/
def empty : TextSet := ⟨[], List.nodup_nil⟩

/-- Whether a text is in the set. -/
def contains (set : TextSet) (text : String) : Bool := set.texts.contains text

/-- The number of texts. -/
def size (set : TextSet) : Nat := set.texts.length

/-- The set with a text added. -/
def insert (set : TextSet) (text : String) : TextSet :=
  if h : text ∈ set.texts then set
  else ⟨set.texts ++ [text], by
    refine List.nodup_append.mpr ⟨set.nodup, by simp, ?_⟩
    intro a ha b hb
    rw [List.mem_singleton.mp hb]
    exact fun e => h (e ▸ ha)⟩

@[simp]
theorem contains_empty (text : String) : empty.contains text = false := rfl

/-- **A text is in the set after an addition if it was added or there before.** -/
@[simp]
theorem contains_insert (set : TextSet) (text other : String) :
    (set.insert text).contains other = (other == text || set.contains other) := by
  unfold insert
  split
  · next h =>
    by_cases e : other = text
    · subst e; simp [contains, h]
    · simp [e]
  · by_cases e : other = text <;> simp [contains, e]

end TextSet

/-- The texts and networks that are let through or denied without counting. -/
structure AccessList where
  safelist : TextSet := .empty
  blocklist : TextSet := .empty
  ranges : List Network := []
  deriving DecidableEq

namespace AccessList

/-- Adds an address text that passes every check. -/
def addSafelist (list : AccessList) (ip : String) : AccessList :=
  { list with safelist := list.safelist.insert ip }

/-- Adds an address text that is always denied. -/
def addBlocklist (list : AccessList) (ip : String) : AccessList :=
  { list with blocklist := list.blocklist.insert ip }

/-- Adds a network whose addresses are always denied; a text that is no network changes nothing. -/
def addRange (list : AccessList) (cidr : String) : Except Error AccessList :=
  match Network.ofString? cidr with
  | some network => .ok { list with ranges := list.ranges ++ [network.trunc] }
  | none => .error (.invalidCidr cidr)

/-- Whether a client passes every check. -/
def isSafelisted (list : AccessList) (ip : String) : Bool := list.safelist.contains ip

/-- Whether a client lies in a denied network. -/
def inRanges (list : AccessList) (ip : String) : Bool :=
  match Address.ofString? ip with
  | some address => list.ranges.any (·.contains address.canonical)
  | none => false

/-- Whether a client is denied by its text or by its network. -/
def isBlocked (list : AccessList) (ip : String) : Bool :=
  list.blocklist.contains ip || list.inRanges ip

/-! ## One addition -/

@[simp]
theorem isSafelisted_addSafelist (list : AccessList) (ip client : String) :
    (list.addSafelist ip).isSafelisted client = (client == ip || list.isSafelisted client) := by
  simp [isSafelisted, addSafelist]

@[simp]
theorem isSafelisted_addBlocklist (list : AccessList) (ip client : String) :
    (list.addBlocklist ip).isSafelisted client = list.isSafelisted client := rfl

end AccessList

end Admission
