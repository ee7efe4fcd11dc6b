import Admission.Proofs.Config.Changes
/-!
# Clients without an address

The text by which a request is judged need not be an address: the peer may have no host, and a
trusted peer may announce anything. Such a text lies in no range. It can still be on the safelist or
the blocklist, because both are sets of texts that nobody checks: a client without an address is on
a list exactly if its very text was put there.

1. `inRanges_of_unreadable`: no range holds such a client
2. `evaluate_ne_of_listed`: the rules never find that a client is on a list
3. `judge_eq_safelisted_iff`, `judge_eq_blocked_iff`: who is let through or stopped uncounted
4. `judgedByText`: for such a client the two lists decide first, and the rules after them
5. `unreadable_listed_verbatim`: what follows for every policy, configured or changed
6. `unreadable_may_be_listed`: so such clients are not always left to the rules
-/

namespace Admission

open Store

namespace AccessList

variable {list : AccessList} {client : String}

/-- **A client without an address lies in no range.** -/
theorem inRanges_of_unreadable (h : Address.ofString? client = none) :
    list.inRanges client = false := by
  simp only [inRanges, h]

theorem isBlocked_of_unreadable (h : Address.ofString? client = none) :
    list.isBlocked client = list.blocklist.contains client := by
  rw [isBlocked, inRanges_of_unreadable h, Bool.or_false]

end AccessList

/-- **The rules never find that a client is on a list**, whatever the store tells them. -/
theorem Decision.evaluate_ne_of_listed {σ : Type} (store : Backend σ) (engine : Engine)
    (client path : String) {listed : Decision} (hlisted : listed = .safelisted ∨ listed = .blocked)
    (rules : List Rule) (state : σ) :
    ((evaluate engine.increment client path rules).run store state).result ≠ .ok listed := by
  induction rules generalizing state with
  | nil =>
    intro hresult
    have hallowed : Decision.allowed = listed := Except.ok.inj hresult
    rcases hlisted with rfl | rfl
    · cases hallowed
    · cases hallowed
  | cons rule rest ih =>
    rw [evaluate]
    show ((Dialogue.bind _ _).run store state).result ≠ _
    rw [Dialogue.run_bind]
    cases ((engine.increment (rule.key.render client path) rule.period).run store state).result with
    | error fault =>
      intro hresult
      cases hresult
    | ok count =>
      by_cases hlimit : rule.limit.toNat < count
      · intro hresult
        simp only [if_pos hlimit] at hresult
        have hthrottled : Decision.throttled rule _ count = listed := Except.ok.inj hresult
        rcases hlisted with rfl | rfl
        · cases hthrottled
        · cases hthrottled
      · simp only [if_neg hlimit]
        exact ih _

namespace Policy

variable {σ : Type} {store : Backend σ} {state : σ} {engine : Engine} {policy : Policy}
  {client path method : String}

/-- **Exactly the clients on the safelist are let through uncounted.** -/
theorem judge_eq_safelisted_iff :
    ((policy.judge engine.increment client path method).run store state).result =
      .ok .safelisted ↔ policy.access.isSafelisted client = true := by
  cases hs : policy.access.isSafelisted client with
  | true =>
    rw [judge_of_isSafelisted hs]
    exact ⟨fun _ => rfl, fun _ => rfl⟩
  | false =>
    refine ⟨fun hresult => ?_, fun h => by cases h⟩
    cases hb : policy.access.isBlocked client with
    | true =>
      rw [judge_of_isBlocked hs hb] at hresult
      cases hresult
    | false =>
      rw [judge_of_unlisted hs hb] at hresult
      exact absurd hresult (Decision.evaluate_ne_of_listed store engine _ _ (.inl rfl) _ state)

/-- **Exactly the clients that are denied and not on the safelist are stopped uncounted.** -/
theorem judge_eq_blocked_iff :
    ((policy.judge engine.increment client path method).run store state).result =
      .ok .blocked ↔
      policy.access.isSafelisted client = false ∧ policy.access.isBlocked client = true := by
  cases hs : policy.access.isSafelisted client with
  | true =>
    refine ⟨fun hresult => ?_, fun h => by cases h.1⟩
    rw [judge_of_isSafelisted hs] at hresult
    cases hresult
  | false =>
    cases hb : policy.access.isBlocked client with
    | true =>
      rw [judge_of_isBlocked hs hb]
      exact ⟨fun _ => ⟨rfl, rfl⟩, fun _ => rfl⟩
    | false =>
      refine ⟨fun hresult => ?_, fun h => by cases h.2⟩
      rw [judge_of_unlisted hs hb] at hresult
      exact absurd hresult (Decision.evaluate_ne_of_listed store engine _ _ (.inr rfl) _ state)

end Policy

/--
A client is let through exactly if it passes, over every store. It is stopped without being counted
exactly if it does not pass and is denied, and otherwise nothing but the rules is asked.
-/
structure JudgedByText (engine : Engine) (policy : Policy) (client path method : String)
    (passes denied : Prop) : Prop where
  safelisted : ∀ {σ : Type} (store : Backend σ) (state : σ),
    ((policy.judge engine.increment client path method).run store state).result =
      .ok .safelisted ↔ passes
  blocked : ∀ {σ : Type} (store : Backend σ) (state : σ),
    ((policy.judge engine.increment client path method).run store state).result =
      .ok .blocked ↔ ¬ passes ∧ denied
  evaluated : ¬ passes → ¬ denied → policy.judge engine.increment client path method =
    Decision.evaluate engine.increment client path (policy.matching path method)

section

variable {engine : Engine} {policy : Policy} {client path method : String} {passes denied : Prop}

/-- A client without an address is judged by its text: first by the two sets, then by the rules. -/
theorem judgedByText (h : Address.ofString? client = none)
    (hpasses : policy.access.isSafelisted client = true ↔ passes)
    (hdenied : policy.access.blocklist.contains client = true ↔ denied) :
    JudgedByText engine policy client path method passes denied := by
  rw [← AccessList.isBlocked_of_unreadable h] at hdenied
  constructor
  · intro σ store state
    rw [Policy.judge_eq_safelisted_iff, hpasses]
  · intro σ store state
    rw [Policy.judge_eq_blocked_iff, ← Bool.not_eq_true, hpasses, hdenied]
  · intro hpass hdeny
    have hs : policy.access.isSafelisted client = false := by
      rwa [← Bool.not_eq_true, hpasses]
    have hb : policy.access.isBlocked client = false := by
      rwa [← Bool.not_eq_true, hdenied]
    exact Policy.judge_of_unlisted hs hb

end

namespace Config

/-- A configuration or later changes put a text on the safelist. -/
def Passes (config : Config) (changes : List Policy.Change) (text : String) : Prop :=
  text ∈ config.access.safelist ∨ .access (.safelist text) ∈ changes

/-- A configuration or later changes put a text on the blocklist. -/
def Denies (config : Config) (changes : List Policy.Change) (text : String) : Prop :=
  text ∈ config.access.blocklist ∨ .access (.blocklist text) ∈ changes

variable {config : Config} {policy : Policy} {changes : List Policy.Change} {text : String}

theorem isSafelisted_changed_of_buildPolicy (h : config.buildPolicy = .ok policy) :
    (policy.changed changes).access.isSafelisted text = true ↔ config.Passes changes text := by
  obtain ⟨rules, -, rfl⟩ := exists_changes_of_buildPolicy h
  rw [← Policy.changed_append, Policy.access_changed, AccessList.isSafelisted_built,
    Policy.mem_filterMap_addition?, List.mem_append, mem_changes_safelist]
  rfl

theorem contains_blocklist_changed_of_buildPolicy (h : config.buildPolicy = .ok policy) :
    (policy.changed changes).access.blocklist.contains text = true ↔
      config.Denies changes text := by
  obtain ⟨rules, -, rfl⟩ := exists_changes_of_buildPolicy h
  rw [← Policy.changed_append, Policy.access_changed, AccessList.contains_blocklist_built,
    Policy.mem_filterMap_addition?, List.mem_append, mem_changes_blocklist]
  rfl

end Config

/--
**A client without an address is listed by its text alone.** Take any way to tell the client of a
request, and any policy: one that was built from a configuration, the empty one for instance, and
then changed. If the text of the client is no address, then

* it is let through exactly if this text is on the safelist, and stopped before anything is counted
  exactly if it is not there but on the blocklist. No range matters, and in every other case nothing
  but the rules is asked.
* Hence it is neither let through nor stopped by a policy whose two lists hold addresses only.

The store may be any store.
-/
theorem unreadable_listed_verbatim (extract : Request → String) (request : Request)
    (h : Address.ofString? (extract request) = none) (engine : Engine) (config : Config)
    (policy : Policy) (changes : List Policy.Change) (hbuilt : config.buildPolicy = .ok policy) :
    JudgedByText engine (policy.changed changes) (extract request) request.path request.method
      (config.Passes changes (extract request)) (config.Denies changes (extract request)) ∧
    ((∀ text, config.Passes changes text ∨ config.Denies changes text →
        Address.ofString? text ≠ none) →
      ∀ {σ : Type} (store : Backend σ) (state : σ),
        (((policy.changed changes).judge engine.increment (extract request) request.path
            request.method).run store state).result ≠ .ok .safelisted ∧
        (((policy.changed changes).judge engine.increment (extract request) request.path
            request.method).run store state).result ≠ .ok .blocked) := by
  have hjudged : JudgedByText engine (policy.changed changes) (extract request) request.path
      request.method (config.Passes changes (extract request))
      (config.Denies changes (extract request)) :=
    judgedByText h (Config.isSafelisted_changed_of_buildPolicy hbuilt)
      (Config.contains_blocklist_changed_of_buildPolicy hbuilt)
  refine ⟨hjudged, ?_⟩
  intro haddresses σ store state
  constructor
  · intro hresult
    exact haddresses _ (.inl ((hjudged.safelisted store state).mp hresult)) h
  · intro hresult
    exact haddresses _ (.inr ((hjudged.blocked store state).mp hresult).2) h

/-- A configuration that blocks peers without a host, and every address. -/
def hostless : Config :=
  { access := { blocklist := [""], blocklistCidrs := ["0.0.0.0/0", "::/0"] } }

/-- The policy of this configuration. -/
def hostlessPolicy : Policy :=
  Policy.changed {} [.access (.blocklist ""), .access (.range "0.0.0.0/0"), .access (.range "::/0")]

theorem buildPolicy_hostless : hostless.buildPolicy = .ok hostlessPolicy := by decide +kernel

/-- A peer without a port. -/
def portless : Request := { remoteAddr := "10.0.0.1" }

/-- A client whose name is no address. -/
def unnamed : Request := { remoteAddr := "10.0.0.1:80", forwardedFor := some "unknown" }

/-- A peer without a host is stopped because the empty text is on the blocklist, while a client
that is called `unknown` is left to the rules although every address is blocked. -/
theorem unreadable_listed_verbatim_of_hostless :
    (((Engine.mk .everybody none).judge hostlessPolicy portless).run Memory.store {}).result =
        .ok .blocked ∧
      (((Engine.mk .everybody none).judge hostlessPolicy unnamed).run Memory.store {}).result ≠
        .ok .blocked := by
  obtain ⟨hportless, -⟩ := unreadable_listed_verbatim (Engine.mk .everybody none).client portless
    (by decide +kernel) (.mk .everybody none) hostless hostlessPolicy [] buildPolicy_hostless
  obtain ⟨hunnamed, -⟩ := unreadable_listed_verbatim (Engine.mk .everybody none).client unnamed
    (by decide +kernel) (.mk .everybody none) hostless hostlessPolicy [] buildPolicy_hostless
  constructor
  · refine (hportless.blocked Memory.store {}).mpr ⟨?_, .inl ?_⟩
    · rintro (hconfigured | hchanged)
      · cases hconfigured
      · cases hchanged
    · decide +kernel
  · intro hblocked
    rcases ((hunnamed.blocked Memory.store {}).mp hblocked).2 with hconfigured | hchanged
    · revert hconfigured
      decide +kernel
    · cases hchanged

/-- **Clients without an address are not always left to the rules**: one may be safelisted by a
change of the policy, and one may be blocked by the configuration. -/
theorem unreadable_may_be_listed :
    (¬ ∀ (changes : List Policy.Change) (engine : Engine) (request : Request) (memory : Memory),
      Address.ofString? (engine.client request) = none →
      ((engine.judge (Policy.changed {} changes) request).run Memory.store memory).result ≠
        .ok .safelisted) ∧
    (¬ ∀ (config : Config) (policy : Policy) (engine : Engine) (request : Request)
        (memory : Memory), config.buildPolicy = .ok policy →
      Address.ofString? (engine.client request) = none →
      ((engine.judge policy request).run Memory.store memory).result ≠ .ok .blocked) := by
  constructor
  · intro h
    refine h [.access (.safelist "unknown")] {} unnamed {} (by decide +kernel) ?_
    decide +kernel
  · intro h
    refine h hostless hostlessPolicy {} portless {} buildPolicy_hostless (by decide +kernel) ?_
    decide +kernel

end Admission
