import Admission.Address.Basic
import Admission.Text.Fields
import Admission.Text.Numeral
/-!
# Addresses as text

Reading follows a grammar with two settings, because an address that stands alone and the address
of a network are written by slightly different rules: whether an octet may have leading zeros, and
how many groups `::` has to stand for. Writing is the same for both: IPv4 in four octets; IPv6 in
lower case with the longest run of two or more zero groups left out, the first of equals; an IPv4
address within IPv6 as `::ffff:a.b.c.d`.

The text is cut at `::` first and then at `:` and `.`, so reading is a function of the fields.
-/

namespace Admission.Address

open Admission.Text

/-! ## Reading -/

/-- The two settings of the grammar of addresses. -/
structure Grammar where
  /-- Whether an octet may start with a zero that is not the whole octet. -/
  leadingZeros : Bool
  /-- The least number of groups that `::` stands for. -/
  leastGap : Nat
  deriving DecidableEq, Repr

/-- An address alone: no leading zeros, and `::` stands for a group at least. -/
def alone : Grammar := ⟨false, 1⟩

/-- The address of a network: leading zeros, and `::` may stand for nothing. -/
def inNetwork : Grammar := ⟨true, 0⟩

/-- An octet: one to three digits and a value below 256. -/
def octet? (grammar : Grammar) (text : List Char) : Option Nat :=
  if 3 < text.length ∨ (¬ grammar.leadingZeros ∧ 1 < text.length ∧ text.head? = some '0') then none
  else match natural? 10 text with
    | some n => if n < 256 then some n else none
    | none => none

/-- Four octets between dots. -/
def octets? (grammar : Grammar) (text : List Char) : Option (List Nat) :=
  let parts := fields '.' text
  if parts.length = 4 then parts.mapM (octet? grammar) else none

/-- A group: one to four hexadecimal digits of either case. -/
def group? (text : List Char) : Option Nat :=
  if 4 < text.length then none else natural? 16 text

/-- Groups from fields; an IPv4 address may stand for the last two. -/
def groups? (grammar : Grammar) (ipv4 : Bool) : List (List Char) → Option (List Nat)
  | [] => some []
  | [last] =>
    match group? last with
    | some g => some [g]
    | none =>
      if ipv4 then
        match octets? grammar last with
        | some [a, b, c, d] => some [a * 256 + b, c * 256 + d]
        | _ => none
      else none
  | field :: rest =>
    match group? field, groups? grammar ipv4 rest with
    | some g, some gs => some (g :: gs)
    | _, _ => none

/-- The fields of one side of `::`; a side may be empty. -/
def side (text : List Char) : List (List Char) :=
  if text = [] then [] else fields ':' text

/-- An IPv6 address: eight groups, or fewer around one `::`. -/
def v6? (grammar : Grammar) (text : List Char) : Option (BitVec 128) :=
  match cut [':', ':'] text with
  | some (before, after) =>
    match groups? grammar false (side before), groups? grammar true (side after) with
    | some head, some tail =>
      if head.length < 8 ∧ head.length + tail.length + grammar.leastGap ≤ 8 then
        some (ofGroups (head ++ List.replicate (8 - head.length - tail.length) 0 ++ tail))
      else none
    | _, _ => none
  | none =>
    match groups? grammar true (side text) with
    | some all => if all.length = 8 then some (ofGroups all) else none
    | none => none

/-- An IPv4 address. -/
def v4? (grammar : Grammar) (text : List Char) : Option (BitVec 32) :=
  (octets? grammar text).map ofOctets

/-- An address of either family. -/
def read? (grammar : Grammar) (text : List Char) : Option Address :=
  match v4? grammar text with
  | some bits => some (v4 bits)
  | none => (v6? grammar text).map v6

/-- The address that a text writes, if it is nothing but an address. -/
def ofString? (text : String) : Option Address := read? alone text.toList

/-! ## Writing -/

/-- Four octets between dots. -/
def octetsText (bits : BitVec 32) : List Char := unfields '.' ((octets bits).map decimal)

/-- A group in lower case without leading zeros. -/
def groupText (group : Nat) : List Char := Nat.toDigits 16 group

/-- Groups between colons. -/
def groupsText (groups : List Nat) : List Char := unfields ':' (groups.map groupText)

/-- Where a run of two or more groups may lie, longest first and then leftmost first. -/
def gaps : List (Nat × Nat) :=
  (List.range 7).flatMap fun shorter =>
    (List.range (shorter + 1)).map fun start => (start, 8 - shorter)

/-- The run of zero groups that is left out. -/
def gap? (groups : List Nat) : Option (Nat × Nat) :=
  gaps.find? fun (start, length) => ((groups.drop start).take length).all (· == 0)

/-- An IPv6 address as text. -/
def v6Text (bits : BitVec 128) : List Char :=
  match mapped? bits with
  | some inner => [':', ':', 'f', 'f', 'f', 'f', ':'] ++ octetsText inner
  | none =>
    let all := groups bits
    match gap? all with
    | some (start, length) =>
      groupsText (all.take start) ++ [':', ':'] ++ groupsText (all.drop (start + length))
    | none => groupsText all

/-- An address as characters. -/
def chars : Address → List Char
  | v4 bits => octetsText bits
  | v6 bits => v6Text bits

/-- An address as text. -/
def text (a : Address) : String := String.ofList a.chars

end Admission.Address
