import Admission.Proofs.Access.MappedEntries
import Admission.Proofs.Decision.Traffic
/-!
# Forwarded-for headers

What a peer says about its client counts only if the peer is trusted. For a list of trusted peers
other than the single `*`, a header that comes from anybody else can be put in, left out or changed
without a trace: neither what is decided, now or later, nor what is counted depends on it. Of the
header of a trusted peer only the text before the first comma is looked at, without its blank
border, and if nothing remains of it the header counts as left out.

Two runs are led side by side whose requests differ in such headers only.

1. `trusts_iff_isNamed`: a peer is trusted if an entry of the list names its address
2. `address_of_isNamed`, `address_of_not_isNamed`: which text a request is judged by
3. `Alike.address_eq`, `judge_congr`: so two such requests are judged alike
4. `headers_of_untrusted_peers_ignored`: and so are two such runs, whatever is stored at the start
-/

namespace Admission

open Store

namespace TrustedPeers

/-- A host is an address, and some entry of the list is a network or an address that agrees with
its canonical form. -/
def IsNamed (entries : List String) (host : String) : Prop :=
  ∃ a, Address.ofString? host = some a ∧ ∃ entry ∈ entries, ∃ network,
    entry? entry = some network ∧ network.Agrees a.canonical

variable {entries : List String} {host : String}

theorem trusts_of_ofString?_eq_none (hlist : entries ≠ ["*"])
    (h : Address.ofString? host = none) : (ofEntries entries).trusts host = false := by
  by_cases hempty : entries = []
  · rw [ofEntries, if_pos hempty]
    rfl
  · rw [ofEntries, if_neg hempty, if_neg hlist]
    simp only [trusts, h]

/-- **A peer is trusted if and only if an entry of the list names it.** -/
theorem trusts_iff_isNamed (hlist : entries ≠ ["*"]) :
    (ofEntries entries).trusts host = true ↔ IsNamed entries host := by
  constructor
  · intro htrusts
    cases hhost : Address.ofString? host with
    | none =>
      rw [trusts_of_ofString?_eq_none hlist hhost] at htrusts
      cases htrusts
    | some a => exact ⟨a, hhost, (trusts_ofEntries_iff hlist hhost).mp htrusts⟩
  · rintro ⟨a, hhost, hentry⟩
    exact (trusts_ofEntries_iff hlist hhost).mpr hentry

end TrustedPeers

open TrustedPeers

namespace Client

/-! ## What is looked at in a header -/

/-- The text of a header before its first comma, without its blank border; nothing if there is no
header. -/
def announced : Option String → List Char
  | none => []
  | some header => Text.trim (header.toList.takeWhile (· ≠ ','))

variable {entries : List String} {request a b : Request}

theorem firstForwarded_eq_announced (header : String) :
    firstForwarded header = announced (some header) := by
  unfold firstForwarded
  rw [Text.headD_fields]
  rfl

/-- **A request of an untrusted peer is judged by the host of the peer.** -/
theorem address_of_not_isNamed (hlist : entries ≠ ["*"])
    (h : ¬ IsNamed entries (host request.remoteAddr)) :
    address (.ofEntries entries) request = host request.remoteAddr := by
  refine address_of_untrusted (Bool.eq_false_iff.mpr ?_)
  intro htrusts
  exact h ((trusts_iff_isNamed hlist).mp htrusts)

/-- **A request of a trusted peer is judged by what the peer announces**, and by its own host if it
announces nothing. -/
theorem address_of_isNamed (hlist : entries ≠ ["*"])
    (h : IsNamed entries (host request.remoteAddr)) :
    address (.ofEntries entries) request =
      if announced request.forwardedFor = [] then host request.remoteAddr
      else String.ofList (announced request.forwardedFor) := by
  have htrusts := (trusts_iff_isNamed hlist).mpr h
  unfold address
  cases hheader : request.forwardedFor with
  | none => rfl
  | some header =>
    simp only [htrusts, firstForwarded_eq_announced]
    cases announced (some header) with
    | nil => rfl
    | cons c rest => rfl

/-! ## Requests that differ in their headers -/

/-- Two requests are the same but for their headers, and if their peer is on the list the headers
announce the same. -/
structure Alike (entries : List String) (a b : Request) : Prop where
  method : a.method = b.method
  path : a.path = b.path
  remoteAddr : a.remoteAddr = b.remoteAddr
  announced : IsNamed entries (host a.remoteAddr) →
    announced a.forwardedFor = announced b.forwardedFor

theorem Alike.address_eq (h : Alike entries a b) (hlist : entries ≠ ["*"]) :
    address (.ofEntries entries) a = address (.ofEntries entries) b := by
  have hremote := h.remoteAddr
  by_cases hnamed : IsNamed entries (host a.remoteAddr)
  · have hannounced := h.announced hnamed
    have hnamed' : IsNamed entries (host b.remoteAddr) := hremote ▸ hnamed
    rw [address_of_isNamed hlist hnamed, address_of_isNamed hlist hnamed', hannounced, hremote]
  · have hnamed' : ¬ IsNamed entries (host b.remoteAddr) := hremote ▸ hnamed
    rw [address_of_not_isNamed hlist hnamed, address_of_not_isNamed hlist hnamed', hremote]

end Client

open Client

variable {entries : List String} {engine : Engine} {a b : Request}

/-- Such requests are judged alike over every store: the calls are the same one by one. -/
theorem Engine.judge_congr (hlist : entries ≠ ["*"]) (hpeers : engine.peers = .ofEntries entries)
    (h : Alike entries a b) (policy : Policy) : engine.judge policy a = engine.judge policy b := by
  have hclient : engine.client a = engine.client b := by
    show address engine.peers a = address engine.peers b
    rw [hpeers]
    exact h.address_eq hlist
  show policy.judge engine.increment (engine.client a) a.path a.method =
    policy.judge engine.increment (engine.client b) b.path b.method
  rw [hclient, h.path, h.method]

namespace Traffic

/-! ## Runs that differ in their headers -/

/-- Two steps are the same but for the header of a request, which an engine judges that knows the
trusted peers by a list. -/
inductive AlikeSteps (entries : List String) : Step → Step → Prop where
  | judge {engine : Engine} {a b : Request} (policy : Policy) {time : Nat}
      (time_lt : time < clockEnd) (hpeers : engine.peers = .ofEntries entries)
      (h : Alike entries a b) :
      AlikeSteps entries ⟨time, .judge engine policy a, time_lt⟩
        ⟨time, .judge engine policy b, time_lt⟩
  | purge {time : Nat} (time_lt : time < clockEnd) :
      AlikeSteps entries ⟨time, .purge, time_lt⟩ ⟨time, .purge, time_lt⟩

variable {step step' : Step} {steps steps' : List Step}

theorem AlikeSteps.perform_eq (h : AlikeSteps entries step step') (hlist : entries ≠ ["*"])
    (table : Counters) : step.perform table = step'.perform table := by
  cases h with
  | judge policy time_lt hpeers halike =>
    simp only [Step.perform, Engine.judge_congr hlist hpeers halike policy]
  | purge time_lt => rfl

theorem run_congr (hlist : entries ≠ ["*"]) (h : List.Forall₂ (AlikeSteps entries) steps steps')
    (table : Counters) : run steps table = run steps' table := by
  induction h generalizing table with
  | nil => rfl
  | cons hstep hrest ih =>
    simp only [run]
    rw [hstep.perform_eq hlist, ih]

/--
**Nobody but a trusted peer is heard.** Let the trusted peers be given by any list other than the
single `*`.

* Two runs that differ only in the headers of requests, anyhow where the peer is not named by the
  list, and where it is named in such a way that they announce the same, come to the same verdicts,
  rule, key and count included, and leave the same store.
* A request is judged by the host of its peer if the list does not name this host, and otherwise by
  the announced text, if there is any.

The store may hold anything at the start.
-/
theorem headers_of_untrusted_peers_ignored (hlist : entries ≠ ["*"]) :
    (∀ steps steps', List.Forall₂ (AlikeSteps entries) steps steps' → ∀ table,
      run steps table = run steps' table) ∧
    (∀ request, ¬ IsNamed entries (host request.remoteAddr) →
      address (.ofEntries entries) request = host request.remoteAddr) ∧
    (∀ request, IsNamed entries (host request.remoteAddr) →
      address (.ofEntries entries) request =
        if announced request.forwardedFor = [] then host request.remoteAddr
        else String.ofList (announced request.forwardedFor)) := by
  refine ⟨?_, ?_, ?_⟩
  · intro steps steps' h table
    exact run_congr hlist h table
  · intro request hnamed
    exact address_of_not_isNamed hlist hnamed
  · intro request hnamed
    exact address_of_isNamed hlist hnamed

/-- Proxies in one network. The other two entries name nobody, the star because it is not alone. -/
def proxies : List String := ["10.0.0.0/8", "proxy.example", "*"]

/-- One request for each client in a minute. -/
def onceAMinute : Rule :=
  ⟨none, .any, "", ⟨"rl:%\x7bip\x7d"⟩, 1, .ofSecs 60, Nat.one_pos, twiceAMinute.period_pos⟩

/-- A request behind the proxies, at an instant in seconds. -/
def forwarded (peer : String) (header : Option String) (second : Nat)
    (h : second * 1_000_000_000 < clockEnd) : Step :=
  ⟨second * 1_000_000_000, .judge { peers := .ofEntries proxies } { rules := [onceAMinute] }
    { remoteAddr := peer, forwardedFor := header }, h⟩

/-- A peer that is no proxy names another client each time. -/
def spoofing : List Step :=
  [forwarded "192.0.2.1:80" (some "198.51.100.1") 0 (by decide),
    forwarded "192.0.2.1:80" (some "198.51.100.2") 1 (by decide),
    forwarded "10.9.9.9:80" (some " 203.0.113.7\t, 192.0.2.1") 2 (by decide)]

/-- The same peers without anything to say but the client of the proxy. -/
def honest : List Step :=
  [forwarded "192.0.2.1:80" none 0 (by decide), forwarded "192.0.2.1:80" none 1 (by decide),
    forwarded "10.9.9.9:80" (some "203.0.113.7") 2 (by decide)]

theorem not_isNamed_outsider : ¬ IsNamed proxies (host "192.0.2.1:80") := by
  intro hnamed
  have htrusts := (trusts_iff_isNamed (by decide)).mpr hnamed
  have hunknown : (ofEntries proxies).trusts (host "192.0.2.1:80") = false := by decide +kernel
  rw [hunknown] at htrusts
  cases htrusts

/-- The second request of the peer is throttled under its own name in both runs. -/
theorem headers_of_untrusted_peers_ignored_of_spoofing :
    List.Forall₂ (AlikeSteps proxies) spoofing honest ∧
      (run spoofing .empty).1 =
        [some (.ok .allowed), some (.ok (.throttled onceAMinute "rl:192.0.2.1" 2)),
          some (.ok .allowed)] := by
  have houtsider : ∀ header header', Alike proxies
      { remoteAddr := "192.0.2.1:80", forwardedFor := header }
      { remoteAddr := "192.0.2.1:80", forwardedFor := header' } := fun header header' =>
    ⟨rfl, rfl, rfl, fun hnamed => absurd hnamed not_isNamed_outsider⟩
  have hproxy : Alike proxies
      { remoteAddr := "10.9.9.9:80", forwardedFor := some " 203.0.113.7\t, 192.0.2.1" }
      { remoteAddr := "10.9.9.9:80", forwardedFor := some "203.0.113.7" } :=
    ⟨rfl, rfl, rfl, fun _ => by decide +kernel⟩
  have halike : List.Forall₂ (AlikeSteps proxies) spoofing honest :=
    .cons (.judge _ _ rfl (houtsider _ _)) <| .cons (.judge _ _ rfl (houtsider _ _)) <|
      .cons (.judge _ _ rfl hproxy) .nil
  have hrun := (headers_of_untrusted_peers_ignored (by decide)).1 _ _ halike .empty
  refine ⟨halike, ?_⟩
  rw [hrun]
  decide +kernel

end Traffic

end Admission
