/-!
# Addresses

An internet address is 32 or 128 bits, written in octets or in groups of 16 bits. IPv6 addresses of
the form `::ffff:a.b.c.d` stand for IPv4 addresses; `Address.canonical` turns them into these.
-/

namespace Admission

/-- An IPv4 or an IPv6 address. -/
inductive Address where
  | v4 (bits : BitVec 32)
  | v6 (bits : BitVec 128)
  deriving DecidableEq, Repr

namespace Address

/-- The number of bits of addresses of the same family. -/
def width : Address → Nat
  | v4 _ => 32
  | v6 _ => 128

/-! ## Groups -/

/-- The number that a list of digits writes in base `2 ^ size`. -/
def ofDigits (size : Nat) (digits : List Nat) : Nat :=
  digits.foldl (fun value digit => value * Nat.pow 2 size + digit) 0

/-- The `count` digits of a number in base `2 ^ size`, highest first. -/
def toDigits (size count value : Nat) : List Nat :=
  (List.range count).map fun i => value / Nat.pow 2 (size * (count - 1 - i)) % Nat.pow 2 size

/-- The IPv4 address with the given four octets. -/
def ofOctets (octets : List Nat) : BitVec 32 := BitVec.ofNat 32 (ofDigits 8 octets)

/-- The four octets of an IPv4 address. -/
def octets (bits : BitVec 32) : List Nat := toDigits 8 4 bits.toNat

/-- The IPv6 address with the given eight groups. -/
def ofGroups (groups : List Nat) : BitVec 128 := BitVec.ofNat 128 (ofDigits 16 groups)

/-- The eight groups of an IPv6 address. -/
def groups (bits : BitVec 128) : List Nat := toDigits 16 8 bits.toNat

theorem length_octets (bits : BitVec 32) : (octets bits).length = 4 := by
  simp [octets, toDigits]

theorem length_groups (bits : BitVec 128) : (groups bits).length = 8 := by
  simp [groups, toDigits]

theorem octets_lt {bits : BitVec 32} {n : Nat} (h : n ∈ octets bits) : n < 256 := by
  obtain ⟨i, -, rfl⟩ := List.mem_map.mp h
  exact Nat.mod_lt _ (by decide)

theorem groups_lt {bits : BitVec 128} {n : Nat} (h : n ∈ groups bits) : n < 65536 := by
  obtain ⟨i, -, rfl⟩ := List.mem_map.mp h
  exact Nat.mod_lt _ (by decide)

/-! ## IPv4 within IPv6 -/

/-- The 96 bits in front of an IPv4 address within IPv6. -/
def mappedHead : BitVec 96 := 0xffff#96

/-- The IPv4 address that an IPv6 address stands for. -/
def mapped? (bits : BitVec 128) : Option (BitVec 32) :=
  if bits.extractLsb' 32 96 = mappedHead then some (bits.extractLsb' 0 32) else none

/-- An address with an IPv4 address within IPv6 taken out. -/
def canonical : Address → Address
  | v4 bits => v4 bits
  | v6 bits => match mapped? bits with
    | some inner => v4 inner
    | none => v6 bits

end Address

end Admission
