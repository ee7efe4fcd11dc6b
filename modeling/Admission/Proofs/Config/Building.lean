import Admission.Proofs.Config.Changes
import Admission.Proofs.Session.ListedClients
/-!
# Building a policy

A policy is built from the whole of a configuration or not at all. What stands in the way is the
first network that is malformed, and only then the first rule that is refused. A policy that is
built decides by the entries of the configuration and the order of its rules: the order of the other
entries, and how often they are written, does not show in any decision.

1. `foldlM_eq_error_iff`, `exists_foldlM_eq_ok_iff`: a fold that refuses items for what they are
2. `exists_buildPolicy_eq_ok_iff`, `buildPolicy_eq_error_iff`: whether there is a policy, and if not
   for which error
3. `describes_and_changed_of_buildPolicy`: the rules of a policy are those of the configuration, and
   it comes about by additions for the entries
4. `inEffect_of_buildPolicy`: its access list holds the entries that are configured and no others
5. `Same.judge_eq`, `Same.run_eq`: policies after the same additions, whatever their order and
   number, with the same rules in order
6. `buildPolicy_all_or_nothing`: all of this together
-/

namespace Admission

open Store

/-! ## The first refusal -/

/-- An error is that of the first item that is refused. -/
def IsFirstRefusal {α ε : Type} (Refused : α → ε → Prop) (items : List α) (error : ε) : Prop :=
  ∃ before item after, items = before ++ item :: after ∧
    (∀ earlier ∈ before, ∀ e, ¬ Refused earlier e) ∧ Refused item error

section

variable {α β ε : Type} {step : β → α → Except ε β} {Refused : α → ε → Prop}

theorem not_refused_of_eq_ok (hstep : ∀ b a e, step b a = .error e ↔ Refused a e) {start next : β}
    {item : α} (h : step start item = .ok next) (e : ε) : ¬ Refused item e := by
  intro he
  rw [(hstep start item e).mpr he] at h
  cases h

/-- **A fold that refuses items for what they are stops at the first of them.** -/
theorem foldlM_eq_error_iff (hstep : ∀ b a e, step b a = .error e ↔ Refused a e) (items : List α)
    (start : β) (error : ε) :
    items.foldlM step start = .error error ↔ IsFirstRefusal Refused items error := by
  unfold IsFirstRefusal
  induction items generalizing start with
  | nil =>
    refine ⟨fun h => (by cases h), ?_⟩
    rintro ⟨before, item, after, h, -⟩
    cases before <;> cases h
  | cons first rest ih =>
    rw [List.foldlM_cons]
    cases hfirst : step start first with
    | error refusal =>
      have hrefused : Refused first refusal := (hstep start first refusal).mp hfirst
      constructor
      · intro h
        cases h
        exact ⟨[], first, rest, rfl, nofun, hrefused⟩
      · rintro ⟨before, item, after, hitems, hbefore, hitem⟩
        cases before with
        | nil =>
          obtain ⟨rfl, -⟩ := List.cons.inj hitems
          have herror := (hstep start first error).mpr hitem
          rw [hfirst] at herror
          exact herror
        | cons earlier before =>
          obtain ⟨rfl, -⟩ := List.cons.inj hitems
          exact absurd hrefused (hbefore first (.head _) refusal)
    | ok next =>
      have hpasses : ∀ e, ¬ Refused first e := not_refused_of_eq_ok hstep hfirst
      show rest.foldlM step next = .error error ↔ _
      rw [ih next]
      constructor
      · rintro ⟨before, item, after, rfl, hbefore, hitem⟩
        exact ⟨first :: before, item, after, rfl, List.forall_mem_cons.mpr ⟨hpasses, hbefore⟩,
          hitem⟩
      · rintro ⟨before, item, after, hitems, hbefore, hitem⟩
        cases before with
        | nil =>
          obtain ⟨rfl, -⟩ := List.cons.inj hitems
          exact absurd hitem (hpasses error)
        | cons earlier before =>
          obtain ⟨-, rfl⟩ := List.cons.inj hitems
          exact ⟨before, item, after, rfl, (List.forall_mem_cons.mp hbefore).2, hitem⟩

/-- **Such a fold succeeds if it refuses no item.** -/
theorem exists_foldlM_eq_ok_iff (hstep : ∀ b a e, step b a = .error e ↔ Refused a e)
    (items : List α) (start : β) :
    (∃ result, items.foldlM step start = .ok result) ↔ ∀ item ∈ items, ∀ e, ¬ Refused item e := by
  induction items generalizing start with
  | nil => exact ⟨fun _ => nofun, fun _ => ⟨start, rfl⟩⟩
  | cons first rest ih =>
    rw [List.foldlM_cons, List.forall_mem_cons]
    cases hfirst : step start first with
    | error refusal =>
      constructor
      · rintro ⟨result, h⟩
        cases h
      · rintro ⟨hpasses, -⟩
        exact absurd ((hstep start first refusal).mp hfirst) (hpasses refusal)
    | ok next =>
      have hpasses : ∀ e, ¬ Refused first e := not_refused_of_eq_ok hstep hfirst
      show (∃ result, rest.foldlM step next = .ok result) ↔ _
      rw [ih next, and_iff_right hpasses]

end

/-- What the text of a network is refused for. -/
inductive CidrRefused (cidr : String) : Error → Prop where
  | malformed (h : Network.ofString? cidr = none) : CidrRefused cidr (.invalidCidr cidr)

namespace Policy

theorem addRange_eq_error_iff (policy : Policy) (cidr : String) (error : Error) :
    policy.addRange cidr = .error error ↔ CidrRefused cidr error := by
  unfold addRange AccessList.addRange
  cases h : Network.ofString? cidr with
  | none =>
    constructor
    · intro herror
      cases herror
      exact .malformed h
    · rintro ⟨-⟩
      rfl
  | some network =>
    constructor
    · intro herror
      cases herror
    · rintro ⟨hnone⟩
      rw [h] at hnone
      cases hnone

end Policy

theorem forall_not_cidrRefused_iff {cidr : String} :
    (∀ e, ¬ CidrRefused cidr e) ↔ Network.ofString? cidr ≠ none := by
  constructor
  · intro h hnone
    exact h _ (.malformed hnone)
  · rintro h e ⟨hnone⟩
    exact h hnone

namespace RuleConfig

variable {config : RuleConfig} {error : Error} {rule : Rule}

/-- What a rule is refused for; its limit is looked at first. -/
inductive Refused (config : RuleConfig) : Error → Prop where
  | limit (h : config.limit.toNat = 0) : Refused config (.invalidRule .limitZero config.path)
  | period (hlimit : 1 ≤ config.limit.toNat) (h : config.periodSecs.toNat = 0) :
      Refused config (.invalidRule .periodZero config.path)

/-- A rule is what a configuration says. -/
structure Describes (config : RuleConfig) (rule : Rule) : Prop where
  name : rule.name = config.name
  pattern : rule.pattern = .ofString config.path
  method : rule.method = config.method
  key : rule.key = ⟨config.key⟩
  limit : rule.limit = config.limit
  period : rule.period = .ofSecs config.periodSecs

theorem nanos_ofSecs_pos_iff {secs : UInt64} :
    0 < (Duration.ofSecs secs).nanos ↔ 1 ≤ secs.toNat := by
  show 0 < secs.toNat * 1_000_000_000 ↔ _
  omega

/-- **A rule is refused for its limit, or for its period if the limit is in order.** -/
theorem rule_eq_error_iff : config.rule = .error error ↔ config.Refused error := by
  have hmake : config.rule = .error error ↔
      Rule.make config.path config.method config.key config.limit (.ofSecs config.periodSecs) =
        .error error := by
    unfold RuleConfig.rule
    cases Rule.make config.path config.method config.key config.limit (.ofSecs config.periodSecs)
    · exact Iff.rfl
    · exact iff_of_false nofun nofun
  have hperiod : (Duration.ofSecs config.periodSecs).nanos = 0 ↔ config.periodSecs.toNat = 0 := by
    have hpos : 0 < (Duration.ofSecs config.periodSecs).nanos ↔ 1 ≤ config.periodSecs.toNat :=
      nanos_ofSecs_pos_iff
    omega
  rw [hmake, Rule.make_eq_error_iff, hperiod]
  constructor
  · rintro (⟨hlimit, rfl⟩ | ⟨hlimit, hzero, rfl⟩)
    · exact .limit hlimit
    · exact .period hlimit hzero
  · rintro (hlimit | ⟨hlimit, hzero⟩)
    · exact .inl ⟨hlimit, rfl⟩
    · exact .inr ⟨hlimit, hzero, rfl⟩

theorem forall_not_refused_iff :
    (∀ e, ¬ config.Refused e) ↔ 1 ≤ config.limit.toNat ∧ 1 ≤ config.periodSecs.toNat := by
  constructor
  · intro h
    have hlimit : 1 ≤ config.limit.toNat :=
      Nat.one_le_iff_ne_zero.mpr fun hzero => h _ (.limit hzero)
    exact ⟨hlimit, Nat.one_le_iff_ne_zero.mpr fun hzero => h _ (.period hlimit hzero)⟩
  · rintro ⟨hlimit, hperiod⟩ e (hzero | ⟨-, hzero⟩)
    · omega
    · omega

/-- **A rule that is built is what the configuration says.** -/
theorem describes_of_rule_eq_ok (h : config.rule = .ok rule) : config.Describes rule := by
  unfold RuleConfig.rule at h
  cases hmade : Rule.make config.path config.method config.key config.limit
      (.ofSecs config.periodSecs) with
  | error e =>
    rw [hmade] at h
    cases h
  | ok made =>
    rw [hmade] at h
    cases h
    obtain ⟨hname, hpattern, hmethod, hkey, hlimit, hperiod⟩ := Rule.make_eq_ok_iff.mp hmade
    cases hgiven : config.name with
    | none => exact ⟨hname.trans hgiven.symm, hpattern, hmethod, hkey, hlimit, hperiod⟩
    | some name => exact ⟨hgiven.symm, hpattern, hmethod, hkey, hlimit, hperiod⟩

end RuleConfig

/-! ## Policies after the same additions -/

namespace Policy

/-- The rule that a change adds. -/
def Change.rule? : Change → Option Rule
  | .access _ => none
  | .rule added => some added

/-- The rules after changes are those before them and those that are added, in order. -/
theorem rules_changed (policy : Policy) (changes : List Change) :
    (policy.changed changes).rules = policy.rules ++ changes.filterMap Change.rule? := by
  induction changes generalizing policy with
  | nil => exact (List.append_nil _).symm
  | cons first rest ih =>
    show ((policy.change first).changed rest).rules = _
    rw [ih]
    cases first with
    | access addition =>
      rw [change_access]
      rfl
    | rule rule => exact (List.append_cons policy.rules rule _).symm

/-- Two lists of changes make the same additions to the access list, in any order and any number of
times, and add the same rules in order. -/
structure Same (a b : List Change) : Prop where
  access : ∀ addition, .access addition ∈ a ↔ .access addition ∈ b
  rules : a.filterMap Change.rule? = b.filterMap Change.rule?

namespace Same

variable {a b : List Change}

theorem append_singleton (h : Same a b) (last : Change) : Same (a ++ [last]) (b ++ [last]) where
  access := fun addition => by rw [List.mem_append, List.mem_append, h.access]
  rules := by rw [List.filterMap_append, List.filterMap_append, h.rules]

theorem append (h : Same a b) (more : List Change) : Same (a ++ more) (b ++ more) := by
  induction more using List.reverseRecOn with
  | nil => rwa [List.append_nil, List.append_nil]
  | append_singleton earlier last ih =>
    rw [← List.append_assoc, ← List.append_assoc]
    exact ih.append_singleton last

theorem additions (h : Same a b) (addition : AccessList.Addition) :
    addition ∈ a.filterMap Change.addition? ↔ addition ∈ b.filterMap Change.addition? := by
  rw [mem_filterMap_addition?, mem_filterMap_addition?, h.access]

/-- **Policies after the same additions lead the same dialogue with every store.** -/
theorem judge_eq (h : Same a b) (engine : Engine) (request : Request) :
    engine.judge (changed {} a) request = engine.judge (changed {} b) request := by
  have hab : a.filterMap Change.addition? ⊆ b.filterMap Change.addition? :=
    fun addition => (h.additions addition).mp
  have hba : b.filterMap Change.addition? ⊆ a.filterMap Change.addition? :=
    fun addition => (h.additions addition).mpr
  have hsafelisted : ∀ ip, (changed {} a).access.isSafelisted ip =
      (changed {} b).access.isSafelisted ip := by
    intro ip
    rw [access_changed, access_changed]
    exact Bool.eq_iff_iff.mpr
      ⟨AccessList.isSafelisted_built_mono hab, AccessList.isSafelisted_built_mono hba⟩
  have hblocked : ∀ ip, (changed {} a).access.isBlocked ip =
      (changed {} b).access.isBlocked ip := by
    intro ip
    rw [access_changed, access_changed]
    exact Bool.eq_iff_iff.mpr
      ⟨AccessList.isBlocked_built_mono hab, AccessList.isBlocked_built_mono hba⟩
  have hrules : (changed {} a).rules = (changed {} b).rules := by
    rw [rules_changed, rules_changed, h.rules]
  simp only [Engine.judge, judge, matching, hsafelisted, hblocked, hrules]

/-- **A session goes the same with either policy**, whatever is changed in it on the way. -/
theorem run_eq (h : Same a b) (events : List Session.Event) (session : Session Memory) :
    (Session.run events { session with policy := changed {} a }).1 =
      (Session.run events { session with policy := changed {} b }).1 := by
  induction events generalizing session a b with
  | nil => rfl
  | cons event rest ih =>
    simp only [Session.run]
    cases event with
    | judge place request =>
      -- the session after the judgement is the same but for the policy
      have hjudged := h.judge_eq (session.engine place) request
      have hrest := ih h { session with
        store := (((session.engine place).judge (changed {} b) request).run Memory.store
          session.store).state }
      simp only [Session.Event.perform, Session.judge, Session.lead]
      simp only [Session.engine, Session.engines] at hjudged hrest ⊢
      rw [hjudged, hrest]
    | change made =>
      have hrest := ih (h.append_singleton made) session
      rw [changed_append, changed_append] at hrest
      exact congrArg (none :: ·) hrest
    | advance period =>
      exact congrArg (none :: ·) (ih h { session with store := session.store.advance period })
    | purge => exact congrArg (none :: ·) (ih h { session with store := session.store.purge })

end Same

/--
One policy decides as another. For every request an engine leads the same dialogue with the store,
so every call and the decision are the same whatever the state of the store, and also after any
changes that both policies undergo. Every session has the same verdicts.
-/
structure DecidesAs (p q : Policy) : Prop where
  judge : ∀ (changes : List Change) (engine : Engine) (request : Request),
    engine.judge (p.changed changes) request = engine.judge (q.changed changes) request
  run : ∀ (events : List Session.Event) (session : Session Memory),
    (Session.run events { session with policy := p }).1 =
      (Session.run events { session with policy := q }).1

theorem Same.decidesAs {a b : List Change} (h : Same a b) :
    (changed {} a).DecidesAs (changed {} b) where
  judge := fun changes engine request => by
    rw [← changed_append, ← changed_append]
    exact (h.append changes).judge_eq engine request
  run := h.run_eq

end Policy

namespace Config

variable {config : Config} {policy : Policy}

/-! ## Building -/

theorem addRule_eq_error_iff (policy : Policy) (rule : RuleConfig) (error : Error) :
    rule.rule.map policy.addRule = .error error ↔ rule.Refused error := by
  rw [← RuleConfig.rule_eq_error_iff]
  cases rule.rule with
  | error refusal => exact ⟨fun h => (by cases h; rfl), fun h => (by cases h; rfl)⟩
  | ok built => exact ⟨fun h => (by cases h), fun h => (by cases h)⟩

/-- The policy with the two lists of texts, to which the networks and the rules are added. -/
def texts (config : Config) : Policy :=
  config.access.blocklist.foldl Policy.addBlocklist
    (config.access.safelist.foldl Policy.addSafelist {})

theorem buildPolicy_eq (config : Config) :
    config.buildPolicy = (config.access.blocklistCidrs.foldlM Policy.addRange config.texts).bind
      (config.rules.foldlM fun policy rule => rule.rule.map policy.addRule) := rfl

/-- **A policy is built if no network and no rule is refused.** -/
theorem exists_buildPolicy_eq_ok_iff (config : Config) :
    (∃ policy, config.buildPolicy = .ok policy) ↔
      (∀ cidr ∈ config.access.blocklistCidrs, Network.ofString? cidr ≠ none) ∧
        ∀ rule ∈ config.rules, 1 ≤ rule.limit.toNat ∧ 1 ≤ rule.periodSecs.toNat := by
  have hranges := exists_foldlM_eq_ok_iff Policy.addRange_eq_error_iff
    config.access.blocklistCidrs config.texts
  simp only [forall_not_cidrRefused_iff] at hranges
  rw [← hranges, buildPolicy_eq]
  cases config.access.blocklistCidrs.foldlM Policy.addRange config.texts with
  | error refusal =>
    constructor
    · rintro ⟨policy, h⟩
      cases h
    · rintro ⟨⟨listed, h⟩, -⟩
      cases h
  | ok listed =>
    have hrules := exists_foldlM_eq_ok_iff addRule_eq_error_iff config.rules listed
    simp only [RuleConfig.forall_not_refused_iff] at hrules
    rw [and_iff_right ⟨listed, rfl⟩]
    exact hrules

/-- **Otherwise it fails for the first network that is refused, and if there is none for the first
rule.** -/
theorem buildPolicy_eq_error_iff (config : Config) (error : Error) :
    config.buildPolicy = .error error ↔
      IsFirstRefusal CidrRefused config.access.blocklistCidrs error ∨
        (∀ cidr ∈ config.access.blocklistCidrs, Network.ofString? cidr ≠ none) ∧
          IsFirstRefusal RuleConfig.Refused config.rules error := by
  have hstart := exists_foldlM_eq_ok_iff Policy.addRange_eq_error_iff
    config.access.blocklistCidrs config.texts
  have hranges := foldlM_eq_error_iff Policy.addRange_eq_error_iff
    config.access.blocklistCidrs config.texts error
  simp only [forall_not_cidrRefused_iff] at hstart
  rw [← hstart, ← hranges, buildPolicy_eq]
  cases config.access.blocklistCidrs.foldlM Policy.addRange config.texts with
  | error refusal =>
    constructor
    · exact fun h => .inl h
    · rintro (h | ⟨⟨listed, h⟩, -⟩)
      · exact h
      · cases h
  | ok listed =>
    have hrules := foldlM_eq_error_iff addRule_eq_error_iff config.rules listed error
    rw [← hrules]
    constructor
    · exact fun h => .inr ⟨⟨listed, rfl⟩, h⟩
    · rintro (h | ⟨-, h⟩)
      · cases h
      · exact h

/-- The rules of the policy that a configuration makes are those that it was given. -/
theorem filterMap_rule?_changes (config : Config) (rules : List Rule) :
    (config.changes rules).filterMap Policy.Change.rule? = rules := by
  have hnone : ∀ (entries : List String) (addition : String → AccessList.Addition),
      (entries.map fun entry => Policy.Change.access (addition entry)).filterMap
        Policy.Change.rule? = [] := by
    intro entries addition
    rw [List.filterMap_map, List.filterMap_eq_nil_iff]
    exact fun _ _ => rfl
  have hrules : (rules.map Policy.Change.rule).filterMap Policy.Change.rule? = rules := by
    rw [List.filterMap_map]
    exact List.filterMap_some
  rw [changes, List.filterMap_append, List.filterMap_append, List.filterMap_append, hnone, hnone,
    hnone, hrules]
  rfl

theorem mem_changes_range {rules : List Rule} {cidr : String} :
    .access (.range cidr) ∈ config.changes rules ↔ cidr ∈ config.access.blocklistCidrs := by
  simp [changes]

/-- **A policy that is built has the rules that the configuration says, in order**, and is the one
after its changes. -/
theorem describes_and_changed_of_buildPolicy (h : config.buildPolicy = .ok policy) :
    List.Forall₂ RuleConfig.Describes config.rules policy.rules ∧
      policy = Policy.changed {} (config.changes policy.rules) := by
  obtain ⟨rules, hrules, hpolicy⟩ := exists_changes_of_buildPolicy h
  have hsame : policy.rules = rules := by
    rw [hpolicy, Policy.rules_changed, filterMap_rule?_changes]
    rfl
  rw [hsame]
  exact ⟨hrules.imp fun _ _ => RuleConfig.describes_of_rule_eq_ok, hpolicy⟩

/-- The networks that a configuration adds are those that its texts write. -/
theorem filterMap_network?_changes (config : Config) (rules : List Rule) :
    ((config.changes rules).filterMap Policy.Change.addition?).filterMap
        AccessList.Addition.network? =
      config.access.blocklistCidrs.filterMap Network.ofString? := by
  simp [changes, List.filterMap_append, List.filterMap_map, Function.comp_def,
    Policy.Change.addition?, AccessList.Addition.network?]

/-- The entries of a configuration are in effect on an access list, and nothing else is: the clients
on its first list pass every check, those on the second are denied, and so are the addresses that
agree with one of the networks. The sizes are the numbers of different texts and of networks. -/
structure InEffect (config : Config) (access : AccessList) : Prop where
  safelisted : ∀ ip, access.isSafelisted ip = true ↔ ip ∈ config.access.safelist
  blocked : ∀ ip, access.isBlocked ip = true ↔ ip ∈ config.access.blocklist ∨
    ∃ a, Address.ofString? ip = some a ∧ ∃ cidr ∈ config.access.blocklistCidrs,
      ∃ network, Network.ofString? cidr = some network ∧ network.Agrees a.canonical
  safelistSize : access.safelist.size = config.access.safelist.dedup.length
  blocklistSize : access.blocklist.size = config.access.blocklist.dedup.length
  rangeCount : access.ranges.length = config.access.blocklistCidrs.length

/-- **What is configured is in effect.** -/
theorem inEffect_of_buildPolicy (h : config.buildPolicy = .ok policy) :
    config.InEffect policy.access := by
  obtain ⟨hcidrs, -⟩ := (exists_buildPolicy_eq_ok_iff config).mp ⟨policy, h⟩
  obtain ⟨-, hpolicy⟩ := describes_and_changed_of_buildPolicy h
  have haccess : policy.access = AccessList.built
      ((config.changes policy.rules).filterMap Policy.Change.addition?) := by
    rw [← Policy.access_changed, ← hpolicy]
  have hsafelisted : ∀ ip, policy.access.isSafelisted ip = true ↔ ip ∈ config.access.safelist := by
    intro ip
    rw [haccess, AccessList.isSafelisted_built, Policy.mem_filterMap_addition?,
      mem_changes_safelist]
  have hlisted : ∀ ip, policy.access.blocklist.contains ip = true ↔
      ip ∈ config.access.blocklist := by
    intro ip
    rw [haccess, AccessList.contains_blocklist_built, Policy.mem_filterMap_addition?,
      mem_changes_blocklist]
  refine ⟨hsafelisted, fun ip => ?_, TextSet.size_eq_length_dedup hsafelisted,
    TextSet.size_eq_length_dedup hlisted, ?_⟩
  · rw [haccess, AccessList.isBlocked_built, Policy.mem_filterMap_addition?, mem_changes_blocklist]
    simp only [AccessList.Covers, Policy.mem_filterMap_addition?, mem_changes_range]
    refine or_congr_right (exists_congr fun a => and_congr_right fun _ => ?_)
    constructor
    · rintro ⟨cidr, network, hmem, hnetwork, hagrees⟩
      exact ⟨cidr, hmem, network, hnetwork, hagrees⟩
    · rintro ⟨cidr, hmem, network, hnetwork, hagrees⟩
      exact ⟨cidr, network, hmem, hnetwork, hagrees⟩
  · rw [haccess, AccessList.ranges_built, List.length_map, filterMap_network?_changes,
      List.length_filterMap_eq_countP, List.countP_eq_length]
    exact fun cidr hmem => Option.isSome_iff_ne_none.mpr (hcidrs cidr hmem)

/-- Two configurations have the same rules in order, and the same entries on the three lists, in any
order and any number of times. -/
structure SameEntries (a b : Config) : Prop where
  safelist : ∀ ip, ip ∈ b.access.safelist ↔ ip ∈ a.access.safelist
  blocklist : ∀ ip, ip ∈ b.access.blocklist ↔ ip ∈ a.access.blocklist
  cidrs : ∀ cidr, cidr ∈ b.access.blocklistCidrs ↔ cidr ∈ a.access.blocklistCidrs
  rules : b.rules = a.rules

theorem SameEntries.same_changes {a b : Config} (h : a.SameEntries b) (rules : List Rule) :
    Policy.Same (a.changes rules) (b.changes rules) where
  access := fun addition => by
    cases addition with
    | safelist ip => rw [mem_changes_safelist, mem_changes_safelist, h.safelist]
    | blocklist ip => rw [mem_changes_blocklist, mem_changes_blocklist, h.blocklist]
    | range cidr => rw [mem_changes_range, mem_changes_range, h.cidrs]
  rules := by rw [filterMap_rule?_changes, filterMap_rule?_changes]

/-- The same entries in another order make a policy that decides the same. -/
theorem SameEntries.exists_decidesAs {other : Config} (hsame : config.SameEntries other)
    (h : config.buildPolicy = .ok policy) :
    ∃ policy', other.buildPolicy = .ok policy' ∧ policy.DecidesAs policy' := by
  obtain ⟨hcidrs, hrules⟩ := (exists_buildPolicy_eq_ok_iff config).mp ⟨policy, h⟩
  have hbuilds : ∃ policy', other.buildPolicy = .ok policy' := by
    refine (exists_buildPolicy_eq_ok_iff other).mpr ⟨?_, ?_⟩
    · exact fun cidr hmem => hcidrs cidr ((hsame.cidrs cidr).mp hmem)
    · rwa [hsame.rules]
  obtain ⟨policy', h'⟩ := hbuilds
  refine ⟨policy', h', ?_⟩
  obtain ⟨rules, hbuilt, rfl⟩ := exists_changes_of_buildPolicy h
  obtain ⟨rules', hbuilt', rfl⟩ := exists_changes_of_buildPolicy h'
  have hunique : Relator.RightUnique fun (config : RuleConfig) rule => config.rule = .ok rule :=
    fun config rule rule' hrule hrule' => Except.ok.inj (hrule.symm.trans hrule')
  rw [hsame.rules] at hbuilt'
  obtain rfl := List.right_unique_forall₂' hunique hbuilt hbuilt'
  exact (hsame.same_changes rules).decidesAs

/--
**A policy is built from all of a configuration or not at all**, and then it decides by what is
configured and by nothing else.

* It is built exactly if every text for a network is one and every rule has a limit and a period of
  at least 1. If not, the error is that of the first text that is no network, and if there is none
  that of the first rule that is refused.
* The rules of a policy that is built are those of the configuration, in order, and each of them has
  a limit and a period.
* The configured entries are in effect: a client passes every check if its text is on the first
  list, and is denied if its text is on the second one or its address agrees with a configured
  network.
* It decides as any policy that comes from the empty one by the calls that add what is configured,
  in any order and any number of times, as long as the rules come in their order.
* So it decides as the policy of any configuration in which the entries of the three lists stand in
  another order or are repeated; such a configuration makes a policy too.
-/
theorem buildPolicy_all_or_nothing (config : Config) :
    ((∃ policy, config.buildPolicy = .ok policy) ↔
      (∀ cidr ∈ config.access.blocklistCidrs, Network.ofString? cidr ≠ none) ∧
        ∀ rule ∈ config.rules, 1 ≤ rule.limit.toNat ∧ 1 ≤ rule.periodSecs.toNat) ∧
    (∀ error, config.buildPolicy = .error error ↔
      IsFirstRefusal CidrRefused config.access.blocklistCidrs error ∨
        (∀ cidr ∈ config.access.blocklistCidrs, Network.ofString? cidr ≠ none) ∧
          IsFirstRefusal RuleConfig.Refused config.rules error) ∧
    ∀ policy, config.buildPolicy = .ok policy →
      List.Forall₂ RuleConfig.Describes config.rules policy.rules ∧
      (∀ rule ∈ policy.rules, 1 ≤ rule.limit.toNat ∧ 0 < rule.period.nanos) ∧
      config.InEffect policy.access ∧
      (∀ changes, Policy.Same (config.changes policy.rules) changes →
        policy.DecidesAs (.changed {} changes)) ∧
      ∀ other, config.SameEntries other →
        ∃ policy', other.buildPolicy = .ok policy' ∧ policy.DecidesAs policy' := by
  refine ⟨exists_buildPolicy_eq_ok_iff config, buildPolicy_eq_error_iff config, ?_⟩
  intro policy h
  obtain ⟨hrules, hpolicy⟩ := describes_and_changed_of_buildPolicy h
  refine ⟨hrules, fun rule _ => ⟨rule.limit_pos, rule.period_pos⟩, inEffect_of_buildPolicy h, ?_,
    fun other hsame => hsame.exists_decidesAs h⟩
  intro changes hsame
  have hdecides := hsame.decidesAs
  rwa [← hpolicy] at hdecides

/-- A configuration with two networks and a rule for everybody. -/
def guarded : Config :=
  { access := {
      safelist := ["10.0.0.1", "10.0.0.2"]
      blocklistCidrs := ["10.0.0.0/8", "192.0.2.0/24"] }
    rules := [{ key := "all", limit := 1, periodSecs := 60 }] }

/-- The same entries in another order, and some of them twice. -/
def guardedAgain : Config :=
  { guarded with access := {
      safelist := ["10.0.0.2", "10.0.0.1", "10.0.0.2"]
      blocklistCidrs := ["192.0.2.0/24", "10.0.0.0/8", "192.0.2.0/24"] } }

/-- A configuration with a malformed network behind another one, and with a rule without a limit. -/
def malformed : Config :=
  { access := { blocklistCidrs := ["10.0.0.0/8", "192.0.2.0/33", "office"] }
    rules := [{ path := "/", key := "all", limit := 0, periodSecs := 0 }] }

/-- The malformed network is reported and not the rule. A client is let through or denied as the
configuration says, and a policy with a network more decides the same. -/
theorem buildPolicy_all_or_nothing_of_repeated :
    malformed.buildPolicy = .error (.invalidCidr "192.0.2.0/33") ∧
      ∃ policy policy', guarded.buildPolicy = .ok policy ∧
        policy.access.isSafelisted "10.0.0.2" = true ∧
        policy.access.isBlocked "192.0.2.7" = true ∧
        guardedAgain.buildPolicy = .ok policy' ∧ policy.access.ranges.length = 2 ∧
        policy'.access.ranges.length = 3 ∧ policy.DecidesAs policy' := by
  obtain ⟨-, hrefused, -⟩ := buildPolicy_all_or_nothing malformed
  obtain ⟨hbuilds, -, hbuilt⟩ := buildPolicy_all_or_nothing guarded
  have hnetwork : Network.ofString? "192.0.2.0/33" = none := by decide +kernel
  have hearlier : Network.ofString? "10.0.0.0/8" ≠ none := by decide +kernel
  have hsame : guarded.SameEntries guardedAgain := by
    refine ⟨fun ip => ?_, fun ip => Iff.rfl, fun cidr => ?_, rfl⟩
    · simp only [guarded, guardedAgain, List.mem_cons, List.not_mem_nil]
      tauto
    · simp only [guarded, guardedAgain, List.mem_cons, List.not_mem_nil]
      tauto
  obtain ⟨policy, hpolicy⟩ := hbuilds.mpr ⟨by decide +kernel, by decide +kernel⟩
  obtain ⟨-, -, heffect, -, hother⟩ := hbuilt policy hpolicy
  obtain ⟨policy', hpolicy', hdecides⟩ := hother guardedAgain hsame
  have hlength : guarded.buildPolicy.map (·.access.ranges.length) = .ok 2 := by decide +kernel
  have hlength' : guardedAgain.buildPolicy.map (·.access.ranges.length) = .ok 3 := by
    decide +kernel
  rw [hpolicy] at hlength
  rw [hpolicy'] at hlength'
  have hsafelisted : policy.access.isSafelisted "10.0.0.2" = true :=
    (heffect.safelisted _).mpr (by decide)
  have haddress : Address.ofString? "192.0.2.7" = some (.v4 0xc0000207#32) := by decide +kernel
  have htest : Network.ofString? "192.0.2.0/24" = some ⟨.v4 0xc0000200#32, 24, by decide⟩ := by
    decide +kernel
  have hagrees : Network.Agrees ⟨.v4 0xc0000200#32, 24, by decide⟩
      (Address.v4 0xc0000207#32).canonical :=
    ⟨rfl, by decide⟩
  have hblocked : policy.access.isBlocked "192.0.2.7" = true :=
    (heffect.blocked _).mpr (.inr ⟨_, haddress, "192.0.2.0/24", by decide, _, htest, hagrees⟩)
  refine ⟨(hrefused _).mpr (.inl ?_), policy, policy', hpolicy, hsafelisted, hblocked, hpolicy',
    Except.ok.inj hlength, Except.ok.inj hlength', hdecides⟩
  refine ⟨["10.0.0.0/8"], "192.0.2.0/33", ["office"], rfl, ?_, .malformed hnetwork⟩
  intro cidr hcidr
  obtain rfl := List.mem_singleton.mp hcidr
  exact forall_not_cidrRefused_iff.mpr hearlier

end Config

end Admission
