import Admission.Proofs.Config.Building
import Admission.Proofs.Config.Layering
import Admission.Proofs.Config.Spelling
import Admission.Proofs.Yaml.FlowTrees
/-!
# Two ways to read a configuration

A document can be decoded as a configuration, or it can be the file under the layers of an
environment. Where a document spells a configuration out, the first way gives the configuration back
and the second one gives it with its numbers loaded one by one: a number from 2^63 on becomes a
floating point number on the way. So the two agree exactly on the configurations whose numbers have
a floating point number of their own where they are that large. Whether a policy can be built, and
what stands in the way, is the same for both.

All of this holds for every text that is read as the tree of the configuration, whatever its layout.
The document on one line is such a text for every configuration (`ofString?_document`).
-/

namespace Admission

open Yaml (Node Style)

/-! ## The document of a configuration -/

namespace Yaml

/-- The name of a field can be a key. -/
theorem Node.isKey_fieldName (keys : Style) :
    ∀ name ∈ Setting.fieldNames, (Node.scalar name keys).isKey = true := by
  cases keys <;> decide

/-- A record with the names of fields can be written if its values can. -/
theorem Node.isWritable_record {keys : Style} {fields : List (String × Node)}
    (hnames : ∀ name ∈ fields.map Prod.fst, name ∈ Setting.fieldNames)
    (hvalues : ∀ field ∈ fields, field.2.isWritable = true) :
    (Node.record keys fields).isWritable = true := by
  have hentries : areWritableEntries (Node.entries keys fields) = true := by
    induction fields with
    | nil => rfl
    | cons field rest ih =>
      have hkey : (Node.scalar field.1 keys).isKey = true :=
        isKey_fieldName keys field.1 (hnames field.1 (.head _))
      have hrest : areWritableEntries (Node.entries keys rest) = true :=
        ih (fun name hmem => hnames name (.tail _ hmem))
          fun other hother => hvalues other (.tail field hother)
      rw [Node.entries_cons, areWritableEntries, hkey, hvalues field (.head rest), hrest]
      rfl
  exact hentries

/-- A list can be written if its items can. -/
theorem Node.isWritable_sequence_map {α : Type} {write : α → Node} {items : List α}
    (h : ∀ a ∈ items, (write a).isWritable = true) :
    (Node.sequence (items.map write)).isWritable = true := by
  have hitems : areWritable (items.map write) = true := by
    induction items with
    | nil => rfl
    | cons a rest ih =>
      rw [List.map_cons, areWritable, h a (.head rest), ih fun b hb => h b (.tail a hb)]
      rfl
  exact hitems

theorem Node.isWritable_ofTexts (texts : List String) : (Node.ofTexts texts).isWritable = true :=
  isWritable_sequence_map fun _ _ => rfl

theorem Node.isWritable_ofText? (text : Option String) : (Node.ofText? text).isWritable = true := by
  cases text with
  | none => decide
  | some text => rfl

theorem Node.isWritable_ofWord64 (n : UInt64) : (Node.ofWord64 n).isWritable = true := by
  have hword : (Text.decimal n.toNat).all isWordChar = true := by
    rw [List.all_eq_true]
    intro c hc
    obtain ⟨low, high⟩ : 0x30 ≤ c.toNat ∧ c.toNat ≤ 0x39 := by
      simpa [Text.isDigit] using Text.isDigit_of_mem_decimal hc
    have hdigit : '0' ≤ c ∧ c ≤ '9' :=
      ⟨UInt32.le_iff_toNat_le.mpr low, UInt32.le_iff_toNat_le.mpr high⟩
    simp [isWordChar, hdigit]
  have hne : (Text.decimal n.toNat).isEmpty = false := by
    rw [List.isEmpty_eq_false_iff]
    exact Text.decimal_ne_nil n.toNat
  rw [Node.ofWord64, Node.isWritable, isWritableScalar, isWord, String.toList_ofList, hword, hne]
  rfl

end Yaml

namespace Config

theorem isWritable_storage (keys : Style) (config : StorageConfig) :
    (Node.record keys config.fields).isWritable = true := by
  refine Node.isWritable_record (show ∀ name ∈ ["backend", "redis_url", "timeout_ms"],
    name ∈ Setting.fieldNames by decide) fun field hfield => ?_
  simp only [StorageConfig.fields, List.mem_cons, List.not_mem_nil, or_false] at hfield
  rcases hfield with rfl | rfl | rfl
  · rfl
  · rfl
  · exact Node.isWritable_ofWord64 _

theorem isWritable_identity (keys : Style) (config : IdentityConfig) :
    (Node.record keys config.fields).isWritable = true := by
  refine Node.isWritable_record (show ∀ name ∈ ["trusted_proxies"],
    name ∈ Setting.fieldNames by decide) fun field hfield => ?_
  obtain rfl := List.mem_singleton.mp hfield
  exact Node.isWritable_ofTexts _

theorem isWritable_access (keys : Style) (config : AccessConfig) :
    (Node.record keys config.fields).isWritable = true := by
  refine Node.isWritable_record (show ∀ name ∈ ["safelist", "blocklist", "blocklist_cidrs"],
    name ∈ Setting.fieldNames by decide) fun field hfield => ?_
  simp only [AccessConfig.fields, List.mem_cons, List.not_mem_nil, or_false] at hfield
  rcases hfield with rfl | rfl | rfl <;> exact Node.isWritable_ofTexts _

theorem isWritable_rule (keys : Style) (config : RuleConfig) :
    (Node.record keys config.fields).isWritable = true := by
  refine Node.isWritable_record
    (show ∀ name ∈ ["name", "path", "method", "key", "limit", "period_secs"],
      name ∈ Setting.fieldNames by decide) fun field hfield => ?_
  simp only [RuleConfig.fields, List.mem_cons, List.not_mem_nil, or_false] at hfield
  rcases hfield with rfl | rfl | rfl | rfl | rfl | rfl
  · exact Node.isWritable_ofText? _
  · rfl
  · rfl
  · rfl
  · exact Node.isWritable_ofWord64 _
  · exact Node.isWritable_ofWord64 _

/-- **Every configuration can be written.** -/
theorem isWritable_tree (keys : Style) (config : Config) :
    (config.tree keys).isWritable = true := by
  refine Node.isWritable_record (show ∀ name ∈ ["storage", "identity", "access", "rules"],
    name ∈ Setting.fieldNames by decide) fun field hfield => ?_
  simp only [Config.fields, List.mem_cons, List.not_mem_nil, or_false] at hfield
  rcases hfield with rfl | rfl | rfl | rfl
  · exact isWritable_storage keys _
  · exact isWritable_identity keys _
  · exact isWritable_access keys _
  · exact Node.isWritable_sequence_map fun rule _ => isWritable_rule keys rule

/-- **The document of a configuration is read as its tree.** -/
theorem ofString?_document (keys : Style) (config : Config) :
    Node.ofString? (config.document keys) = some [config.tree keys] := by
  refine Yaml.ofString?_flow (config.tree keys) (isWritable_tree keys config) ?_
  intro text style htree
  cases htree

/-! ## The two ways -/

/-- **A document that spells a configuration out is decoded as the configuration.** -/
theorem ofYaml_of_tree {keys : Style} {config : Config} {text : String}
    (htext : Node.ofString? text = some [config.tree keys]) : ofYaml text = .ok config := by
  rw [ofYaml, htext]
  simp only [ofNode_tree]

/-- All numbers of a configuration. -/
def numbers (config : Config) : List UInt64 :=
  config.storage.timeoutMillis :: config.rules.flatMap fun rule => [rule.limit, rule.periodSecs]

theorem loaded_rule_eq_iff (rule : RuleConfig) :
    rule.loaded = rule ↔ IsLoadedExactly rule.limit ∧ IsLoadedExactly rule.periodSecs := by
  rw [← loadedNumber_eq_iff, ← loadedNumber_eq_iff]
  constructor
  · intro h
    exact ⟨congrArg RuleConfig.limit h, congrArg RuleConfig.periodSecs h⟩
  · rintro ⟨hlimit, hperiod⟩
    rw [RuleConfig.loaded, hlimit, hperiod]

theorem loaded_rules_eq_iff (rules : List RuleConfig) :
    rules.map RuleConfig.loaded = rules ↔ ∀ rule ∈ rules, rule.loaded = rule := by
  induction rules with
  | nil => simp
  | cons rule rest ih => rw [List.map_cons, List.cons.injEq, ih, List.forall_mem_cons]

/-- **Exactly a configuration whose numbers are all loaded as they are is loaded as it is.** -/
theorem loaded_eq_iff (config : Config) :
    config.loaded = config ↔ ∀ n ∈ config.numbers, IsLoadedExactly n := by
  have hnumbers : (∀ n ∈ config.numbers, IsLoadedExactly n) ↔
      IsLoadedExactly config.storage.timeoutMillis ∧
        ∀ rule ∈ config.rules, rule.loaded = rule := by
    simp only [numbers, List.forall_mem_cons, List.forall_mem_flatMap, loaded_rule_eq_iff,
      List.not_mem_nil, false_implies, implies_true, and_true]
  rw [hnumbers, ← loaded_rules_eq_iff, ← loadedNumber_eq_iff]
  constructor
  · intro h
    exact ⟨congrArg (·.storage.timeoutMillis) h, congrArg Config.rules h⟩
  · rintro ⟨htimeout, hrules⟩
    rw [Config.loaded, StorageConfig.loaded, htimeout, hrules]

/-! ## What a policy is refused for -/

/-- A rule is refused with large numbers for what it is refused for with the numbers they come
to. -/
theorem refused_loaded_iff (config : RuleConfig) (error : Error) :
    config.loaded.Refused error ↔ config.Refused error := by
  have hlimit : 0 < config.loaded.limit.toNat ↔ 0 < config.limit.toNat :=
    loadedNumber_pos_iff config.limit
  have hperiod : 0 < config.loaded.periodSecs.toNat ↔ 0 < config.periodSecs.toNat :=
    loadedNumber_pos_iff config.periodSecs
  constructor
  · rintro (hzero | ⟨hpos, hzero⟩)
    · exact .limit (by omega)
    · exact .period (hlimit.mp hpos) (by omega)
  · rintro (hzero | ⟨hpos, hzero⟩)
    · exact .limit (by omega)
    · exact .period (hlimit.mpr hpos) (by omega)

/-- The first rule that is refused does not depend on the policy that the rules are added to. -/
theorem foldlM_loaded_eq_error_iff (rules : List RuleConfig) (policy policy' : Policy)
    (error : Error) :
    (rules.map RuleConfig.loaded).foldlM (fun policy rule => rule.rule.map policy.addRule)
        policy' = .error error ↔
      rules.foldlM (fun policy rule => rule.rule.map policy.addRule) policy = .error error := by
  have hloaded : ∀ (policy : Policy) (rule : RuleConfig) (error : Error),
      rule.loaded.rule.map policy.addRule = .error error ↔ rule.Refused error :=
    fun policy rule error =>
      (addRule_eq_error_iff policy rule.loaded error).trans (refused_loaded_iff rule error)
  rw [List.foldlM_map, foldlM_eq_error_iff hloaded, foldlM_eq_error_iff addRule_eq_error_iff]

/-- **The policy of what is loaded is refused for what the policy of the configuration is refused
for.** -/
theorem buildPolicy_loaded_eq_error_iff (config : Config) (error : Error) :
    config.loaded.buildPolicy = .error error ↔ config.buildPolicy = .error error := by
  have haccess : config.loaded.access = config.access := rfl
  have hrules : config.loaded.rules = config.rules.map RuleConfig.loaded := rfl
  simp only [buildPolicy, haccess, hrules]
  cases config.access.blocklistCidrs.foldlM Policy.addRange
      (config.access.blocklist.foldl Policy.addBlocklist
        (config.access.safelist.foldl Policy.addSafelist {})) with
  | error refusal => exact Iff.rfl
  | ok policy => exact foldlM_loaded_eq_error_iff config.rules policy policy error

/-- **The two ways agree exactly where no number is lost.** Every text that spells a configuration
out is decoded as the configuration, and as a file under a silent environment it is loaded with
its numbers loaded one by one. The document on one line is such a text. What is lost never decides
whether there is a policy: it is refused either way, and for the same thing, or built either way. -/
theorem decoded_and_loaded (keys : Style) (config : Config) (environment : List (String × String))
    (hsilent : IsSilent environment) :
    Node.ofString? (config.document keys) = some [config.tree keys] ∧
      ∀ text, Node.ofString? text = some [config.tree keys] →
        ofYaml text = .ok config ∧
        load (.file text) environment = .ok config.loaded ∧
        (load (.file text) environment = ofYaml text ↔ ∀ n ∈ config.numbers, IsLoadedExactly n) ∧
        ∀ error, (load (.file text) environment).bind buildPolicy = .error error ↔
          (ofYaml text).bind buildPolicy = .error error := by
  refine ⟨ofString?_document keys config, fun text htext => ?_⟩
  have hdecoded := ofYaml_of_tree htext
  have hloaded := load_of_tree htext hsilent
  refine ⟨hdecoded, hloaded, ?_, ?_⟩
  · rw [hdecoded, hloaded, Except.ok.injEq]
    exact loaded_eq_iff config
  · intro error
    rw [hdecoded, hloaded]
    exact buildPolicy_loaded_eq_error_iff config error

/-- The ends of the range: the largest number is loaded as it is, and so is 2^63. -/
theorem decoded_and_loaded_of_largest :
    let config : Config := {
      storage := { timeoutMillis := 0xFFFFFFFFFFFFFFFF }
      rules := [{ key := "k", limit := 0x8000000000000000, periodSecs := 0xFFFFFFFFFFFFF800 }] }
    load (.file (config.document .quoted)) [("PATH", "/bin")] =
      ofYaml (config.document .quoted) := by
  intro config
  have hsilent : IsSilent [("PATH", "/bin")] := by
    intro entry hentry
    obtain rfl := List.mem_singleton.mp hentry
    decide
  obtain ⟨htext, hways⟩ := decoded_and_loaded .quoted config [("PATH", "/bin")] hsilent
  obtain ⟨-, -, hagree, -⟩ := hways (config.document .quoted) htext
  refine hagree.mpr fun n hn => ?_
  simp only [config, numbers, List.flatMap_cons, List.flatMap_nil, List.append_nil,
    List.mem_cons, List.not_mem_nil, or_false] at hn
  rcases hn with rfl | rfl | rfl
  · exact .inr (.inr rfl)
  · exact .inr (.inl ⟨0x10000000000000, rfl⟩)
  · exact .inr (.inl ⟨0x1FFFFFFFFFFFFF, rfl⟩)

/-- A limit that has no floating point number of its own. -/
def largeLimit : Config :=
  { rules := [{ key := "k", limit := 0x8000000000000001, periodSecs := 60 }] }

/-- **A large limit is decoded as it is, and loaded as the number before it.** -/
theorem not_loaded_as_decoded :
    ofYaml (largeLimit.document .plain) = .ok largeLimit ∧
      load (.file (largeLimit.document .plain)) [] =
        .ok { rules := [{ key := "k", limit := 0x8000000000000000, periodSecs := 60 }] } ∧
      load (.file (largeLimit.document .plain)) [] ≠ ofYaml (largeLimit.document .plain) := by
  have htext := ofString?_document .plain largeLimit
  have hsilent : IsSilent [] := fun _ h => nomatch h
  have hdecoded := ofYaml_of_tree htext
  have hrounded : largeLimit.loaded =
      { rules := [{ key := "k", limit := 0x8000000000000000, periodSecs := 60 }] } := by
    decide +kernel
  have hloaded := load_of_tree htext hsilent
  rw [hrounded] at hloaded
  refine ⟨hdecoded, hloaded, ?_⟩
  rw [hdecoded, hloaded]
  decide

end Config

end Admission
