import Admission.Config.Basic
import Admission.Proofs.Decision.Persistence
/-!
# Configured policies

A policy that is built from a configuration is the empty policy after changes: the entries of the
configuration, one by one and in the order in which they are looked at. So what is known about
changes of a policy is known about configured policies too.

* `access_changed`: of all changes the access list has seen the additions
* `foldlM_addRange`, `foldlM_addRule`: the two steps of building that can stop
* `exists_changes_of_buildPolicy`: a policy that was built is the one after the changes
-/

namespace Admission

namespace Policy

/-- The addition to the access list that a change makes. -/
def Change.addition? : Change → Option AccessList.Addition
  | .access addition => some addition
  | .rule _ => none

variable {addition : AccessList.Addition} {changes : List Change}

theorem changed_append (policy : Policy) (before after : List Change) :
    policy.changed (before ++ after) = (policy.changed before).changed after := by
  unfold changed
  exact List.foldl_append

/-- **The access list has seen the additions among the changes, in order.** -/
theorem access_changed (changes : List Change) :
    (changed {} changes).access = AccessList.built (changes.filterMap Change.addition?) := by
  induction changes using List.reverseRecOn with
  | nil => rfl
  | append_singleton earlier last ih =>
    rw [changed_append, List.filterMap_append]
    show ((changed {} earlier).change last).access = _
    cases last with
    | access addition =>
      rw [change_access, ih]
      exact (AccessList.built_append_singleton _ addition).symm
    | rule rule =>
      show (changed {} earlier).access = _
      rw [ih]
      exact congrArg AccessList.built (List.append_nil _).symm

theorem mem_filterMap_addition? :
    addition ∈ changes.filterMap Change.addition? ↔ .access addition ∈ changes := by
  rw [List.mem_filterMap]
  constructor
  · rintro ⟨change, hmem, hchange⟩
    cases change with
    | access other =>
      obtain rfl := Option.some.inj hchange
      exact hmem
    | rule rule => cases hchange
  · intro hmem
    exact ⟨_, hmem, rfl⟩

/-! ## Ranges and rules, one by one -/

theorem foldlM_addRange {cidrs : List String} {policy after : Policy}
    (h : cidrs.foldlM addRange policy = .ok after) :
    after = policy.changed (cidrs.map fun cidr => .access (.range cidr)) := by
  induction cidrs generalizing policy with
  | nil =>
    cases h
    rfl
  | cons first rest ih =>
    rw [List.foldlM_cons] at h
    cases hfirst : policy.addRange first with
    | error e =>
      rw [hfirst] at h
      cases h
    | ok next =>
      rw [hfirst] at h
      have hchange : policy.change (.access (.range first)) = next := by
        simp only [change, hfirst]
      rw [ih h, ← hchange]
      rfl

theorem foldlM_addRule {configs : List RuleConfig} {policy after : Policy}
    (h : configs.foldlM (fun policy config => config.rule.map policy.addRule) policy = .ok after) :
    ∃ rules, List.Forall₂ (fun config rule => config.rule = .ok rule) configs rules ∧
      after = policy.changed (rules.map .rule) := by
  induction configs generalizing policy with
  | nil =>
    cases h
    exact ⟨[], .nil, rfl⟩
  | cons first rest ih =>
    rw [List.foldlM_cons] at h
    cases hfirst : first.rule with
    | error e =>
      rw [hfirst] at h
      cases h
    | ok rule =>
      rw [hfirst] at h
      obtain ⟨rules, hrules, hafter⟩ := ih h
      exact ⟨rule :: rules, .cons hfirst hrules, hafter⟩

end Policy

namespace Config

open Policy

/-- The changes that a configuration makes, once its rules are checked. -/
def changes (config : Config) (rules : List Rule) : List Change :=
  config.access.safelist.map (fun ip => .access (.safelist ip)) ++
    config.access.blocklist.map (fun ip => .access (.blocklist ip)) ++
    config.access.blocklistCidrs.map (fun cidr => .access (.range cidr)) ++ rules.map .rule

variable {config : Config} {policy : Policy}

/-- **A policy that was built is the empty one after the changes of the configuration.** -/
theorem exists_changes_of_buildPolicy (h : config.buildPolicy = .ok policy) :
    ∃ rules,
      List.Forall₂ (fun config rule => RuleConfig.rule config = .ok rule) config.rules rules ∧
      policy = Policy.changed {} (config.changes rules) := by
  have hsafe : ∀ policy : Policy, config.access.safelist.foldl Policy.addSafelist policy =
      policy.changed (config.access.safelist.map fun ip => .access (.safelist ip)) := by
    intro policy
    rw [changed, List.foldl_map]
    rfl
  have hblocked : ∀ policy : Policy, config.access.blocklist.foldl Policy.addBlocklist policy =
      policy.changed (config.access.blocklist.map fun ip => .access (.blocklist ip)) := by
    intro policy
    rw [changed, List.foldl_map]
    rfl
  unfold buildPolicy at h
  simp only [hsafe, hblocked] at h
  cases hranges : config.access.blocklistCidrs.foldlM Policy.addRange
      ((Policy.changed {} (config.access.safelist.map fun ip => .access (.safelist ip))).changed
        (config.access.blocklist.map fun ip => .access (.blocklist ip))) with
  | error e =>
    rw [hranges] at h
    cases h
  | ok listed =>
    rw [hranges] at h
    obtain ⟨rules, hrules, hpolicy⟩ := foldlM_addRule h
    refine ⟨rules, hrules, ?_⟩
    rw [hpolicy, foldlM_addRange hranges, changes, changed_append, changed_append, changed_append]

theorem mem_changes_safelist {rules : List Rule} {ip : String} :
    .access (.safelist ip) ∈ config.changes rules ↔ ip ∈ config.access.safelist := by
  simp [changes]

theorem mem_changes_blocklist {rules : List Rule} {ip : String} :
    .access (.blocklist ip) ∈ config.changes rules ↔ ip ∈ config.access.blocklist := by
  simp [changes]

end Config

end Admission
