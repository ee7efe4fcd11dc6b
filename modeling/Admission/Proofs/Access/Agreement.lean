import Admission.Network
/-!
# Agreement on the leading bits

A network compares the numbers that the leading bits of two addresses make. Here the same is said
bit by bit, without a shift or a mask: the address is of the family of the network, and each of its
first bits, as many as the length says, is that of the network.

* `testBit_leading`: the bits of the number are the leading bits, the last one lowest
* `leading_eq_leading_iff`: so the numbers are the same if the bits are
* `contains_iff_agrees`: membership is agreement
-/

namespace Admission

/-- The bit of an address at a place counted from the front. -/
def Address.bit : Address → Nat → Bool
  | v4 bits, i => bits.getMsbD i
  | v6 bits, i => bits.getMsbD i

namespace Network

/-- An address is of the family of a network and has the same leading bits. -/
def Agrees (network : Network) (a : Address) : Prop :=
  network.address.width = a.width ∧ ∀ i < network.length, network.address.bit i = a.bit i

theorem testBit_leading {w n : Nat} (h : n ≤ w) (bits : BitVec w) (j : Nat) :
    (leading n bits).testBit j = (decide (j < n) && bits.getMsbD (n - 1 - j)) := by
  have hplace : (leading n bits).testBit j = bits.getLsbD (w - n + j) := by
    rw [leading, Nat.testBit_shiftRight]
    rfl
  rw [hplace]
  by_cases hj : j < n
  · have hback : w - 1 - (n - 1 - j) = w - n + j := by omega
    rw [BitVec.getMsbD, hback, decide_eq_true hj, decide_eq_true (by omega)]
    rfl
  · rw [decide_eq_false hj, Bool.false_and]
    exact BitVec.getLsbD_of_ge bits _ (by omega)

/-- **The leading bits make the same number if and only if they are the same.** -/
theorem leading_eq_leading_iff {w n : Nat} (h : n ≤ w) (a b : BitVec w) :
    leading n a = leading n b ↔ ∀ i < n, a.getMsbD i = b.getMsbD i := by
  constructor
  · intro heq i hi
    have hbit : ∀ bits : BitVec w, (leading n bits).testBit (n - 1 - i) = bits.getMsbD i := by
      intro bits
      rw [testBit_leading h, decide_eq_true (by omega), Bool.true_and]
      congr 1
      omega
    rw [← hbit a, ← hbit b, heq]
  · intro hbits
    refine Nat.eq_of_testBit_eq fun j => ?_
    rw [testBit_leading h, testBit_leading h]
    by_cases hj : j < n
    · rw [hbits (n - 1 - j) (by omega)]
    · rw [decide_eq_false hj, Bool.false_and, Bool.false_and]

/-- **A network holds exactly the addresses that agree with it.** -/
theorem contains_iff_agrees (network : Network) (a : Address) :
    network.contains a = true ↔ network.Agrees a := by
  obtain ⟨address, n, hn⟩ := network
  cases address with
  | v4 base =>
    cases a with
    | v4 bits =>
      have hwidth : n ≤ 32 := hn
      have hbits : contains ⟨.v4 base, n, hn⟩ (.v4 bits) = true ↔
          leading n base = leading n bits := beq_iff_eq
      rw [hbits, leading_eq_leading_iff hwidth]
      exact ⟨fun h => ⟨rfl, h⟩, And.right⟩
    | v6 bits => simp [contains, Agrees, Address.width]
  | v6 base =>
    cases a with
    | v4 bits => simp [contains, Agrees, Address.width]
    | v6 bits =>
      have hwidth : n ≤ 128 := hn
      have hbits : contains ⟨.v6 base, n, hn⟩ (.v6 bits) = true ↔
          leading n base = leading n bits := beq_iff_eq
      rw [hbits, leading_eq_leading_iff hwidth]
      exact ⟨fun h => ⟨rfl, h⟩, And.right⟩

end Network

end Admission
