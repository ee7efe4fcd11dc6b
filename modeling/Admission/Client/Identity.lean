import Admission.Client.Host
import Admission.Network
import Admission.Request
import Admission.Text.Blank
/-!
# Identity of a client

A client is judged by an address text. It is the first entry of the forwarded-for header if the
peer is trusted to set that header, and the host of the peer otherwise. A list of trusted peers is
configured by texts: no text trusts nobody, a single `*` trusts everybody, and otherwise each text
with a `/` is a network and each other text an address; texts that are neither are skipped.

Main statements: `address_of_untrusted` (an untrusted peer's header is not looked at) and
`trusts_networks_iff`.
-/

namespace Admission

/-- Which peers may say for whom they forward. -/
inductive TrustedPeers where
  | nobody
  | everybody
  | networks (list : List Network)
  deriving DecidableEq, Repr

namespace TrustedPeers

/-- The network that an entry of the configuration names. -/
def entry? (entry : String) : Option Network :=
  if '/' ∈ entry.toList then (Network.ofString? entry).map Network.trunc
  else (Address.ofString? entry).map Network.single

/-- The trusted peers that a list of entries names. -/
def ofEntries (entries : List String) : TrustedPeers :=
  if entries = [] then .nobody
  else if entries = ["*"] then .everybody
  else .networks (entries.filterMap entry?)

/-- Whether a peer host is trusted. -/
def trusts (peers : TrustedPeers) (host : String) : Bool :=
  match peers with
  | nobody => false
  | everybody => true
  | networks list =>
    match Address.ofString? host with
    | some address => list.any (·.contains address.canonical)
    | none => false

/-- **A list of networks trusts exactly the hosts whose canonical address it holds.** -/
theorem trusts_networks_iff {list : List Network} {host : String} :
    (networks list).trusts host = true ↔
      ∃ a, Address.ofString? host = some a ∧ ∃ n ∈ list, n.contains a.canonical = true := by
  simp only [trusts]
  split <;> simp_all

end TrustedPeers

namespace Client

/-- The first entry of a forwarded-for header without its blank border. -/
def firstForwarded (header : String) : List Char :=
  Text.trim ((Text.fields ',' header.toList).headD [])

/-- The address text by which the client of a request is judged. -/
def address (peers : TrustedPeers) (request : Request) : String :=
  let peer := host request.remoteAddr
  match request.forwardedFor with
  | none => peer
  | some header =>
    if peers.trusts peer then
      match firstForwarded header with
      | [] => peer
      | first => String.ofList first
    else peer

/-- **The header of an untrusted peer is not looked at.** -/
theorem address_of_untrusted {peers : TrustedPeers} {request : Request}
    (h : peers.trusts (host request.remoteAddr) = false) :
    address peers request = host request.remoteAddr := by
  unfold address
  cases request.forwardedFor <;> simp [h]

end Client

end Admission
