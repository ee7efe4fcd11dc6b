import Admission.Text.Fields
/-!
# Host of a transport address

A transport address is `host:port` or `[host]:port`. The host of anything else is the empty text,
an address without a port included.

Main statements: `hostChars_plain` and `hostChars_bracketed` (the two forms give their host).
-/

namespace Admission.Client

/-- The mark between a bracketed host and its port. -/
def bracketEnd : List Char := [']', ':']

/-- The host part of a transport address, as characters. -/
def hostChars : List Char → List Char
  | '[' :: rest =>
    match Text.cut bracketEnd rest with
    | some (host, port) => if ':' ∈ port then [] else host
    | none => []
  | address =>
    match Text.fields ':' address with
    | [host, _] => host
    | _ => []

/-- The host part of a transport address. -/
def host (address : String) : String := String.ofList (hostChars address.toList)

/-- **A host and a port without brackets give the host.** -/
theorem hostChars_plain {h p : List Char} (hh : ':' ∉ h) (hb : h.head? ≠ some '[') (hp : ':' ∉ p) :
    hostChars (h ++ ':' :: p) = h := by
  unfold hostChars
  split
  · next rest he =>
    cases h with
    | nil => simp at he
    | cons c t => simp_all
  · rw [Text.fields_append_cons hh, Text.fields_of_not_mem hp]

/-- **A bracketed host and a port give the host.** -/
theorem hostChars_bracketed {h p : List Char}
    (hc : Text.cut bracketEnd (h ++ bracketEnd ++ p) = some (h, p)) (hp : ':' ∉ p) :
    hostChars ('[' :: (h ++ bracketEnd ++ p)) = h := by
  simp only [hostChars, hc, if_neg hp]

end Admission.Client
