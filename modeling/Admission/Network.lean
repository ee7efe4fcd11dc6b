import Admission.Address.Text
/-!
# Networks

A network is an address and the number of its leading bits that count. It holds the addresses of
its own family that share these bits; an address is compared as it is, so whoever compares a client
makes it canonical first.

Main statement: `contains_trunc` (the bits that do not count do not matter).
-/

namespace Admission

/-- An address and a number of leading bits. -/
structure Network where
  address : Address
  length : Nat
  length_le : length ≤ address.width
  deriving DecidableEq, Repr

namespace Network

/-- The leading `n` bits of a word, as a number. -/
def leading {w : Nat} (n : Nat) (bits : BitVec w) : Nat := bits.toNat >>> (w - n)

/-- Whether a network holds an address. -/
def contains (network : Network) (a : Address) : Bool :=
  match network.address, a with
  | .v4 base, .v4 bits => leading network.length base == leading network.length bits
  | .v6 base, .v6 bits => leading network.length base == leading network.length bits
  | _, _ => false

/-- A word with all but its leading `n` bits cleared. -/
def clearTail {w : Nat} (n : Nat) (bits : BitVec w) : BitVec w :=
  (bits >>> (w - n)) <<< (w - n)

/-- An address with all but its leading `n` bits cleared. -/
def clear (n : Nat) : Address → Address
  | .v4 bits => .v4 (clearTail n bits)
  | .v6 bits => .v6 (clearTail n bits)

@[simp]
theorem width_clear (n : Nat) (a : Address) : (clear n a).width = a.width := by
  cases a <;> rfl

/-- The network with the bits that do not count cleared. -/
def trunc (network : Network) : Network :=
  ⟨clear network.length network.address, network.length, by simpa using network.length_le⟩

/-- The network that holds one address only. -/
def single (a : Address) : Network := ⟨a, a.width, Nat.le_refl _⟩

/-! ## Membership -/

theorem leading_clearTail {w : Nat} (n : Nat) (bits : BitVec w) :
    leading n (clearTail n bits) = leading n bits := by
  have hb : bits.toNat >>> (w - n) * 2 ^ (w - n) < 2 ^ w := by
    rw [Nat.shiftRight_eq_div_pow]
    exact Nat.lt_of_le_of_lt (Nat.div_mul_le_self _ _) bits.isLt
  simp only [leading, clearTail, BitVec.toNat_shiftLeft, BitVec.toNat_ushiftRight,
    Nat.shiftLeft_eq, Nat.mod_eq_of_lt hb]
  rw [Nat.shiftRight_eq_div_pow, Nat.mul_div_cancel _ (Nat.two_pow_pos _)]

/-- **The bits that do not count do not matter.** -/
@[simp]
theorem contains_trunc (network : Network) (a : Address) :
    network.trunc.contains a = network.contains a := by
  obtain ⟨address, n, hn⟩ := network
  cases address <;> cases a <;> simp [trunc, contains, clear, leading_clearTail]

/-! ## Text -/

/-- The number of leading bits: at most as many digits as the width of the family has. -/
def length? (width : Nat) (text : List Char) : Option Nat :=
  if (Text.decimal width).length < text.length then none
  else match Text.natural? 10 text with
    | some n => if n ≤ width then some n else none
    | none => none

/-- The network that a text `address/length` writes. -/
def ofString? (text : String) : Option Network :=
  match Text.cut ['/'] text.toList with
  | none => none
  | some (before, after) =>
    match Address.read? Address.inNetwork before with
    | none => none
    | some address =>
      match length? address.width after with
      | none => none
      | some n => if h : n ≤ address.width then some ⟨address, n, h⟩ else none

/-- A network as text. -/
def text (network : Network) : String :=
  String.ofList (network.address.chars ++ '/' :: Text.decimal network.length)

end Network

end Admission
