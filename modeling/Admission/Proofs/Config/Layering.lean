import Admission.Proofs.Config.Decoding
import Admission.Proofs.Config.LoadedNumbers
import Mathlib.Data.List.Forall2
/-!
# Loading what is spelled out

The tree of a configuration becomes a tree of settings, is laid into an empty tree under the
variables of the environment, and is converted. The names of all fields are in lower case, mean
themselves and are keys of one name, so each layer leaves the settings as they are: what is
`IsSettled` is merged without a change. The conversions give every field back but the numbers, which
are loaded one by one.

Main statement: `load_of_tree`.
-/

namespace Admission

open Yaml (Node Style)

/-! ## Tables -/

namespace Setting

/-- A new name is added at the end of a table. -/
theorem put_of_not_mem {name : String} {entries : List (String × Setting)}
    (h : name ∉ entries.map Prod.fst) (value : Setting) :
    put name value entries = entries ++ [(name, value)] := by
  induction entries with
  | nil => rfl
  | cons entry rest ih =>
    rw [List.map_cons, List.mem_cons, not_or] at h
    obtain ⟨hne, hrest⟩ := h
    rw [put, if_neg (fun heq => hne heq.symm), ih hrest, List.cons_append]

mutual

/-- Whether merging leaves a setting as it is: the names of a table are distinct and in lower case,
in the tables within it too. -/
def IsSettled : Setting → Prop
  | table entries => (entries.map Prod.fst).Nodup ∧ AreSettled entries
  | _ => True

/-- Whether all names are in lower case and all values settled. -/
def AreSettled : List (String × Setting) → Prop
  | [] => True
  | (name, value) :: rest => Text.lower name = name ∧ IsSettled value ∧ AreSettled rest

end

mutual

/-- **A settled value under a new name is added to a table as it is.** -/
theorem merge_of_isSettled {name : String} {done : List (String × Setting)}
    (hnew : name ∉ done.map Prod.fst) (value : Setting) (hsettled : IsSettled value) :
    merge name (table done) value = table (done ++ [(name, value)]) := by
  match value with
  | table incoming =>
    obtain ⟨hnodup, hincoming⟩ := hsettled
    have hall := mergeAll_of_areSettled incoming [] hnodup hincoming
    rw [merge, entries, lookup_of_not_mem hnew, Option.getD_none, hall, List.nil_append,
      put_of_not_mem hnew]
  | null | bool _ | int _ | float _ | text _ | list _ =>
    simp only [merge, entries, put_of_not_mem hnew]

/-- Settled entries under new names are added to a table as they are. -/
theorem mergeAll_of_areSettled (incoming done : List (String × Setting))
    (hnodup : ((done ++ incoming).map Prod.fst).Nodup) (hsettled : AreSettled incoming) :
    mergeAll (table done) incoming = table (done ++ incoming) := by
  match incoming with
  | [] => rw [mergeAll, List.append_nil]
  | (name, value) :: rest =>
    obtain ⟨hlower, hvalue, hrest⟩ := hsettled
    have hnew : name ∉ done.map Prod.fst := not_mem_of_nodup hnodup
    rw [List.append_cons done (name, value)] at hnodup ⊢
    rw [mergeAll, hlower, merge_of_isSettled hnew value hvalue]
    exact mergeAll_of_areSettled rest (done ++ [(name, value)]) hnodup hrest

end

end Setting

/-! ## Settings of a document -/

namespace Setting

/-- The names of all fields, record by record. -/
def fieldNames : List String :=
  ["storage", "identity", "access", "rules", "backend", "redis_url", "timeout_ms",
    "trusted_proxies", "safelist", "blocklist", "blocklist_cidrs", "name", "path", "method", "key",
    "limit", "period_secs"]

/-- The name of a field means itself without quotes, too. -/
theorem ofPlain_fieldName {name : String} (h : name ∈ fieldNames) : ofPlain name = text name := by
  simp only [fieldNames, List.mem_cons, List.not_mem_nil, or_false] at h
  rcases h with rfl | rfl | rfl | rfl | rfl | rfl | rfl | rfl | rfl | rfl | rfl | rfl | rfl | rfl |
    rfl | rfl | rfl <;> rfl

theorem keyOf?_fieldName {name : String} (h : name ∈ fieldNames) (style : Style) :
    keyOf? (.scalar name style) = some (text name, name) := by
  cases style with
  | plain => rw [keyOf?, ofPlain_fieldName h]
  | quoted => rfl

/-- A new name is none of the keys before it. -/
theorem any_sameKey_of_not_mem {name : String} {done : List (String × Setting)}
    (h : name ∉ done.map Prod.fst) :
    (done.map fun entry => text entry.1).reverse.any (sameKey (text name)) = false := by
  rw [List.any_reverse, List.any_eq_false]
  intro other hother
  obtain ⟨entry, hentry, rfl⟩ := List.mem_map.mp hother
  have hne : name ≠ entry.1 := by
    rintro rfl
    exact h (List.mem_map_of_mem hentry)
  simpa [sameKey] using hne

/-- Entries under new names of fields are added at the end of a table. -/
theorem entriesOf?_entries {keys : Style} {fields : List (String × Node)}
    {settings : List (String × Setting)} (hvalues : List.Forall₂ (fun field setting =>
      setting.1 = field.1 ∧ ofNode? field.2 = some setting.2) fields settings)
    (hknown : ∀ setting ∈ settings, setting.1 ∈ fieldNames) (done : List (String × Setting))
    (hnodup : ((done ++ settings).map Prod.fst).Nodup) :
    entriesOf? (done.map fun entry => text entry.1).reverse done (Node.entries keys fields) =
      some (done ++ settings) := by
  induction hvalues generalizing done with
  | nil =>
    rw [List.append_nil]
    rfl
  | @cons field setting fields settings hvalue _ ih =>
    obtain ⟨_, node⟩ := field
    obtain ⟨name, value⟩ := setting
    obtain ⟨rfl, hnode⟩ := hvalue
    obtain ⟨hname, hrest⟩ := List.forall_mem_cons.mp hknown
    have hnew : name ∉ done.map Prod.fst := not_mem_of_nodup hnodup
    have hkeys : text name :: (done.map fun entry => text entry.1).reverse =
        ((done ++ [(name, value)]).map fun entry => text entry.1).reverse := by
      rw [List.map_append, List.reverse_append]
      rfl
    rw [List.append_cons] at hnodup ⊢
    rw [Node.entries_cons, entriesOf?, keyOf?_fieldName hname, hnode]
    simp only [any_sameKey_of_not_mem hnew, Bool.false_eq_true, if_false]
    rw [put_of_not_mem hnew value, hkeys]
    exact ih hrest (done ++ [(name, value)]) hnodup

/-- **A record with the names of fields as its keys is a table.** -/
theorem ofNode?_record {keys : Style} {fields : List (String × Node)}
    {settings : List (String × Setting)}
    (hvalues : List.Forall₂ (fun field setting =>
      setting.1 = field.1 ∧ ofNode? field.2 = some setting.2) fields settings)
    (hnames : (settings.map Prod.fst).Sublist fieldNames) :
    ofNode? (.record keys fields) = some (table settings) := by
  have hdistinct : (settings.map Prod.fst).Nodup := hnames.nodup (by decide)
  have hknown : ∀ setting ∈ settings, setting.1 ∈ fieldNames := fun _ h =>
    hnames.subset (List.mem_map_of_mem h)
  have hentries : entriesOf? [] [] (Node.entries keys fields) = some settings :=
    entriesOf?_entries hvalues hknown [] hdistinct
  rw [Node.record, ofNode?, hentries]
  rfl

/-- The setting of a number. -/
def ofWord64 (n : UInt64) : Setting := ofPlain (String.ofList (Text.decimal n.toNat))

/-- The setting of a text that may be absent. -/
def ofText? : Option String → Setting
  | some value => text value
  | none => null

/-- The setting of a list of texts. -/
def ofTexts (texts : List String) : Setting := list (texts.map text)

theorem ofNode?_ofText (value : String) : ofNode? (.ofText value) = some (text value) := rfl

theorem ofNode?_ofText? (value : Option String) :
    ofNode? (.ofText? value) = some (ofText? value) := by
  cases value with
  | none => rfl
  | some value => rfl

/-- A number is no text that cannot be used. -/
theorem ofNode?_ofWord64 (n : UInt64) : ofNode? (.ofWord64 n) = some (ofWord64 n) := by
  have husable : unusable.contains (String.ofList (Text.decimal n.toNat)) = false := by
    rw [List.contains_eq_mem, decide_eq_false_iff_not]
    intro hmem
    have hpoint : '.' ∈ (String.ofList (Text.decimal n.toNat)).toList :=
      (show ∀ source ∈ unusable, '.' ∈ source.toList by decide) _ hmem
    rw [String.toList_ofList] at hpoint
    exact Text.ne_of_mem_decimal hpoint (d := '.') (by decide) rfl
  rw [Node.ofWord64, ofNode?, husable, if_neg Bool.false_ne_true, ofWord64]

/-- Items that all have a setting. -/
theorem ofNode?_sequence_map {α : Type} {write : α → Node} {setting : α → Setting} {items : List α}
    (h : ∀ a ∈ items, ofNode? (write a) = some (setting a)) :
    ofNode? (.sequence (items.map write)) = some (list (items.map setting)) := by
  have hitems : itemsOf? (items.map write) = some (items.map setting) := by
    induction items with
    | nil => rfl
    | cons a rest ih =>
      rw [List.map_cons, itemsOf?, h a (.head rest), ih fun b hb => h b (.tail a hb)]
      rfl
  rw [ofNode?, hitems]
  rfl

theorem ofNode?_ofTexts (texts : List String) : ofNode? (.ofTexts texts) = some (ofTexts texts) :=
  ofNode?_sequence_map fun value _ => ofNode?_ofText value

end Setting

/-- The settings of a storage section. -/
def StorageConfig.settings (config : StorageConfig) : List (String × Setting) :=
  [("backend", .text config.backend.name), ("redis_url", .text config.redisUrl),
    ("timeout_ms", .ofWord64 config.timeoutMillis)]

/-- The settings of an identity section. -/
def IdentityConfig.settings (config : IdentityConfig) : List (String × Setting) :=
  [("trusted_proxies", .ofTexts config.trustedProxies)]

/-- The settings of an access section. -/
def AccessConfig.settings (config : AccessConfig) : List (String × Setting) :=
  [("safelist", .ofTexts config.safelist), ("blocklist", .ofTexts config.blocklist),
    ("blocklist_cidrs", .ofTexts config.blocklistCidrs)]

/-- The settings of a rule. -/
def RuleConfig.settings (config : RuleConfig) : List (String × Setting) :=
  [("name", .ofText? config.name), ("path", .text config.path), ("method", .text config.method),
    ("key", .text config.key), ("limit", .ofWord64 config.limit),
    ("period_secs", .ofWord64 config.periodSecs)]

/-- The settings of a configuration. -/
def Config.settings (config : Config) : List (String × Setting) :=
  [("storage", .table config.storage.settings), ("identity", .table config.identity.settings),
    ("access", .table config.access.settings),
    ("rules", .list (config.rules.map fun rule => .table rule.settings))]

namespace Setting

theorem ofNode?_storage (keys : Style) (config : StorageConfig) :
    ofNode? (.record keys config.fields) = some (table config.settings) := by
  refine ofNode?_record ?_
    (show ["backend", "redis_url", "timeout_ms"].Sublist fieldNames by decide)
  exact .cons ⟨rfl, ofNode?_ofText _⟩ (.cons ⟨rfl, ofNode?_ofText _⟩
    (.cons ⟨rfl, ofNode?_ofWord64 _⟩ .nil))

theorem ofNode?_identity (keys : Style) (config : IdentityConfig) :
    ofNode? (.record keys config.fields) = some (table config.settings) := by
  refine ofNode?_record ?_ (show ["trusted_proxies"].Sublist fieldNames by decide)
  exact .cons ⟨rfl, ofNode?_ofTexts _⟩ .nil

theorem ofNode?_access (keys : Style) (config : AccessConfig) :
    ofNode? (.record keys config.fields) = some (table config.settings) := by
  refine ofNode?_record ?_
    (show ["safelist", "blocklist", "blocklist_cidrs"].Sublist fieldNames by decide)
  exact .cons ⟨rfl, ofNode?_ofTexts _⟩ (.cons ⟨rfl, ofNode?_ofTexts _⟩
    (.cons ⟨rfl, ofNode?_ofTexts _⟩ .nil))

theorem ofNode?_rule (keys : Style) (config : RuleConfig) :
    ofNode? (.record keys config.fields) = some (table config.settings) := by
  refine ofNode?_record ?_
    (show ["name", "path", "method", "key", "limit", "period_secs"].Sublist fieldNames by decide)
  exact .cons ⟨rfl, ofNode?_ofText? _⟩ (.cons ⟨rfl, ofNode?_ofText _⟩
    (.cons ⟨rfl, ofNode?_ofText _⟩ (.cons ⟨rfl, ofNode?_ofText _⟩
      (.cons ⟨rfl, ofNode?_ofWord64 _⟩ (.cons ⟨rfl, ofNode?_ofWord64 _⟩ .nil)))))

/-- **The tree of a configuration describes its settings.** -/
theorem ofNode?_tree (keys : Style) (config : Config) :
    ofNode? (config.tree keys) = some (table config.settings) := by
  refine ofNode?_record ?_
    (show ["storage", "identity", "access", "rules"].Sublist fieldNames by decide)
  have hrules : ofNode? (.sequence (config.rules.map fun rule => .record keys rule.fields)) =
      some (list (config.rules.map fun rule => table rule.settings)) :=
    ofNode?_sequence_map fun rule _ => ofNode?_rule keys rule
  exact .cons ⟨rfl, ofNode?_storage keys _⟩ (.cons ⟨rfl, ofNode?_identity keys _⟩
    (.cons ⟨rfl, ofNode?_access keys _⟩ (.cons ⟨rfl, hrules⟩ .nil)))

end Setting

/-! ## Layers -/

theorem Key.steps?_nil : Key.steps? [] = some [] := by
  rw [Key.steps?]

/-- A text of the characters of names is a key of one name. -/
theorem Key.ofString_of_all {text : String} (h : text.toList.all Key.isNameChar = true) :
    Key.ofString text = ⟨text, []⟩ := by
  have htake : text.toList.takeWhile Key.isNameChar = text.toList :=
    List.takeWhile_eq_self_iff.mpr (List.all_eq_true.mp h)
  simp only [Key.ofString, htake, List.drop_length, Key.steps?_nil, String.ofList_toList]
  split
  · rfl
  · rfl

/-- The name of a field is in lower case and a key. -/
theorem Setting.lower_fieldName : ∀ name ∈ Setting.fieldNames,
    Text.lower name = name ∧ name.toList.all Key.isNameChar = true := by
  decide

/-- Entries with the names of fields are settled if their values are. -/
theorem Setting.areSettled_of_names {entries : List (String × Setting)}
    (hnames : ∀ name ∈ entries.map Prod.fst, name ∈ Setting.fieldNames)
    (hvalues : ∀ entry ∈ entries, IsSettled entry.2) : AreSettled entries := by
  induction entries with
  | nil => exact trivial
  | cons entry rest ih =>
    refine ⟨(lower_fieldName entry.1 (hnames entry.1 (.head _))).1, hvalues entry (.head rest), ?_⟩
    exact ih (fun name hmem => hnames name (.tail _ hmem))
      fun other hother => hvalues other (.tail entry hother)

/-- A table with the names of fields is settled if its values are. -/
theorem Setting.isSettled_table {entries : List (String × Setting)}
    (hnames : (entries.map Prod.fst).Sublist Setting.fieldNames)
    (hvalues : ∀ entry ∈ entries, IsSettled entry.2) : IsSettled (.table entries) :=
  ⟨hnames.nodup (by decide), areSettled_of_names (fun _ h => hnames.subset h) hvalues⟩

theorem Setting.isSettled_ofWord64 (n : UInt64) : IsSettled (ofWord64 n) := by
  rw [ofWord64, ofPlain_decimal]
  split
  · exact trivial
  · exact trivial

namespace Config

theorem layFile_cons (name : String) (value : Setting) (rest : List (String × Setting))
    (root : Setting) : layFile ((name, value) :: rest) root =
      layFile rest ((Key.ofString (Text.lower name)).set value root) := rfl

/-- **Settled entries are laid into an empty tree as they are.** -/
theorem layFile_of_areSettled {entries done : List (String × Setting)}
    (hnodup : ((done ++ entries).map Prod.fst).Nodup) (hsettled : Setting.AreSettled entries)
    (hnames : ∀ name ∈ entries.map Prod.fst, name ∈ Setting.fieldNames) :
    layFile entries (.table done) = .table (done ++ entries) := by
  induction entries generalizing done with
  | nil => rw [List.append_nil, layFile, List.foldl_nil]
  | cons entry rest ih =>
    obtain ⟨name, value⟩ := entry
    obtain ⟨-, hvalue, hrest⟩ := hsettled
    obtain ⟨hlower, hkey⟩ := Setting.lower_fieldName name (hnames name (.head _))
    have hset : (Key.ofString (Text.lower name)).set value (.table done) =
        .table (done ++ [(name, value)]) := by
      rw [hlower, Key.ofString_of_all hkey, Key.set_name]
      exact Setting.merge_of_isSettled (not_mem_of_nodup hnodup) value hvalue
    rw [List.append_cons] at hnodup ⊢
    rw [layFile_cons, hset]
    exact ih hnodup hrest fun name hmem => hnames name (.tail _ hmem)

/-- Whether no variable has a name that counts. -/
def IsSilent (environment : List (String × String)) : Prop :=
  ∀ entry ∈ environment, ¬ variableMark <+: (Text.lower entry.1).toList

/-- A variable without the mark counts for nothing. -/
theorem variableKey?_eq_none {name : String} (h : ¬ variableMark <+: (Text.lower name).toList) :
    variableKey? name = none := by
  have hmark : variableMark.isPrefixOf (Text.lower name).toList = false := by
    rw [Bool.eq_false_iff]
    exact fun hprefix => h (List.isPrefixOf_iff_prefix.mp hprefix)
  rw [variableKey?, Text.after?, hmark]
  rfl

/-- A silent environment changes nothing. -/
theorem layVariables_of_isSilent {environment : List (String × String)}
    (h : IsSilent environment) (root : Setting) : layVariables environment root = root := by
  induction environment with
  | nil => rfl
  | cons entry rest ih =>
    rw [layVariables_cons_of_none (variableKey?_eq_none (h entry (.head rest)))]
    exact ih fun other hother => h other (.tail entry hother)

end Config

/-! ## Conversions -/

/-- The storage section that is loaded for one in a file. -/
def StorageConfig.loaded (config : StorageConfig) : StorageConfig :=
  { config with timeoutMillis := loadedNumber config.timeoutMillis }

/-- The rule that is loaded for one in a file. -/
def RuleConfig.loaded (config : RuleConfig) : RuleConfig :=
  { config with
    limit := loadedNumber config.limit
    periodSecs := loadedNumber config.periodSecs }

/-- The configuration that is loaded for one in a file: its numbers are loaded one by one. -/
def Config.loaded (config : Config) : Config :=
  { config with
    storage := config.storage.loaded
    rules := config.rules.map RuleConfig.loaded }

namespace Config

theorem word64From_ofWord64 (n : UInt64) : word64From (.ofWord64 n) = some (loadedNumber n) :=
  word64From_ofPlain_decimal n

theorem textFrom_text (value : String) : textFrom (.text value) = some value := rfl

theorem optionFrom_ofText? (value : Option String) :
    optionFrom textFrom (.ofText? value) = some value := by
  cases value with
  | none => rfl
  | some value => rfl

theorem backendFrom_name (backend : StorageBackend) :
    backendFrom (.text backend.name) = some backend := by
  cases backend <;> rfl

/-- Items that are all converted. -/
theorem listFrom_map {α β : Type} {convert : Setting → Option β} {write : α → Setting}
    {value : α → β} {items : List α} (h : ∀ a ∈ items, convert (write a) = some (value a)) :
    listFrom convert (.list (items.map write)) = some (items.map value) := by
  rw [listFrom]
  induction items with
  | nil => rfl
  | cons a rest ih =>
    rw [List.map_cons, List.mapM_cons, h a (.head rest), ih fun b hb => h b (.tail a hb)]
    rfl

theorem listFrom_ofTexts (texts : List String) :
    listFrom textFrom (.ofTexts texts) = some texts := by
  have h := listFrom_map (fun value (_ : value ∈ texts) => textFrom_text value)
  rwa [List.map_id'] at h

theorem fieldFromOr_of_lookup {α : Type} {fields : List (String × Setting)} {name : String}
    {setting : Setting} {convert : Setting → Option α} {a : α}
    (hlookup : fields.lookup name = some setting) (hconvert : convert setting = some a)
    (otherwise : α) : fieldFromOr fields name convert otherwise = some a := by
  rw [fieldFromOr, hlookup]
  exact hconvert

theorem fieldFrom_of_lookup {α : Type} {fields : List (String × Setting)} {name : String}
    {setting : Setting} {convert : Setting → Option α} {a : α}
    (hlookup : fields.lookup name = some setting) (hconvert : convert setting = some a) :
    fieldFrom fields name convert = some a := by
  rw [fieldFrom, hlookup]
  exact hconvert

theorem storageFrom_settings (config : StorageConfig) :
    storageFrom (.table config.settings) = some config.loaded := by
  have hbackend := backendFrom_name config.backend
  have hurl := textFrom_text config.redisUrl
  have htimeout := word64From_ofWord64 config.timeoutMillis
  simp only [storageFrom, fieldsFrom, bind, Option.bind, pure,
    fieldFromOr_of_lookup (show config.settings.lookup "backend" = _ from rfl) hbackend,
    fieldFromOr_of_lookup (show config.settings.lookup "redis_url" = _ from rfl) hurl,
    fieldFromOr_of_lookup (show config.settings.lookup "timeout_ms" = _ from rfl) htimeout]
  rfl

theorem identityFrom_settings (config : IdentityConfig) :
    identityFrom (.table config.settings) = some config := by
  have hproxies := listFrom_ofTexts config.trustedProxies
  simp only [identityFrom, fieldsFrom, bind, Option.bind, pure,
    fieldFromOr_of_lookup (show config.settings.lookup "trusted_proxies" = _ from rfl) hproxies]

theorem accessFrom_settings (config : AccessConfig) :
    accessFrom (.table config.settings) = some config := by
  have hsafelist := listFrom_ofTexts config.safelist
  have hblocklist := listFrom_ofTexts config.blocklist
  have hcidrs := listFrom_ofTexts config.blocklistCidrs
  simp only [accessFrom, fieldsFrom, bind, Option.bind, pure,
    fieldFromOr_of_lookup (show config.settings.lookup "safelist" = _ from rfl) hsafelist,
    fieldFromOr_of_lookup (show config.settings.lookup "blocklist" = _ from rfl) hblocklist,
    fieldFromOr_of_lookup (show config.settings.lookup "blocklist_cidrs" = _ from rfl) hcidrs]

theorem ruleFrom_settings (config : RuleConfig) :
    ruleFrom (.table config.settings) = some config.loaded := by
  have hname := optionFrom_ofText? config.name
  have hpath := textFrom_text config.path
  have hmethod := textFrom_text config.method
  have hkey := textFrom_text config.key
  have hlimit := word64From_ofWord64 config.limit
  have hperiod := word64From_ofWord64 config.periodSecs
  simp only [ruleFrom, fieldsFrom, bind, Option.bind, pure,
    fieldFromOr_of_lookup (show config.settings.lookup "name" = _ from rfl) hname,
    fieldFromOr_of_lookup (show config.settings.lookup "path" = _ from rfl) hpath,
    fieldFromOr_of_lookup (show config.settings.lookup "method" = _ from rfl) hmethod,
    fieldFrom_of_lookup (show config.settings.lookup "key" = _ from rfl) hkey,
    fieldFrom_of_lookup (show config.settings.lookup "limit" = _ from rfl) hlimit,
    fieldFrom_of_lookup (show config.settings.lookup "period_secs" = _ from rfl) hperiod]
  rfl

/-- **The settings of a configuration are converted to it, but for large numbers.** -/
theorem ofSetting_settings (config : Config) :
    ofSetting (.table config.settings) = some config.loaded := by
  have hstorage := storageFrom_settings config.storage
  have hidentity := identityFrom_settings config.identity
  have haccess := accessFrom_settings config.access
  have hrules : listFrom ruleFrom (.list (config.rules.map fun rule => .table rule.settings)) =
      some (config.rules.map RuleConfig.loaded) :=
    listFrom_map fun rule _ => ruleFrom_settings rule
  simp only [ofSetting, fieldsFrom, bind, Option.bind, pure,
    fieldFromOr_of_lookup (show config.settings.lookup "storage" = _ from rfl) hstorage,
    fieldFromOr_of_lookup (show config.settings.lookup "identity" = _ from rfl) hidentity,
    fieldFromOr_of_lookup (show config.settings.lookup "access" = _ from rfl) haccess,
    fieldFromOr_of_lookup (show config.settings.lookup "rules" = _ from rfl) hrules]
  rfl

/-! ## Whole files -/

/-- The settings of a configuration are settled. -/
theorem areSettled_settings (config : Config) : Setting.AreSettled config.settings := by
  have hstorage : Setting.IsSettled (.table config.storage.settings) := by
    refine Setting.isSettled_table
      (show ["backend", "redis_url", "timeout_ms"].Sublist Setting.fieldNames by decide) ?_
    intro entry hentry
    simp only [StorageConfig.settings, List.mem_cons, List.not_mem_nil, or_false] at hentry
    rcases hentry with rfl | rfl | rfl
    · exact trivial
    · exact trivial
    · exact Setting.isSettled_ofWord64 _
  have hidentity : Setting.IsSettled (.table config.identity.settings) := by
    refine Setting.isSettled_table
      (show ["trusted_proxies"].Sublist Setting.fieldNames by decide) ?_
    intro entry hentry
    obtain rfl := List.mem_singleton.mp hentry
    exact trivial
  have haccess : Setting.IsSettled (.table config.access.settings) := by
    refine Setting.isSettled_table
      (show ["safelist", "blocklist", "blocklist_cidrs"].Sublist Setting.fieldNames by decide) ?_
    intro entry hentry
    simp only [AccessConfig.settings, List.mem_cons, List.not_mem_nil, or_false] at hentry
    rcases hentry with rfl | rfl | rfl <;> exact trivial
  refine Setting.areSettled_of_names
    (show ∀ name ∈ ["storage", "identity", "access", "rules"], name ∈ Setting.fieldNames by decide)
    ?_
  intro entry hentry
  simp only [Config.settings, List.mem_cons, List.not_mem_nil, or_false] at hentry
  rcases hentry with rfl | rfl | rfl | rfl
  · exact hstorage
  · exact hidentity
  · exact haccess
  · exact trivial

/-- **A file with the document of a configuration is loaded as the configuration, but for large
numbers.** -/
theorem load_of_tree {keys : Style} {config : Config} {text : String}
    (htext : Node.ofString? text = some [config.tree keys])
    {environment : List (String × String)} (hsilent : IsSilent environment) :
    load (.file text) environment = .ok config.loaded := by
  have hentries : (Source.file text).entries? Setting.ofYaml? = some config.settings := by
    simp only [Source.entries?, Setting.ofYaml?, htext, Setting.ofNode?_tree]
  have hlaid : layFile config.settings (.table []) = .table config.settings :=
    layFile_of_areSettled (show ["storage", "identity", "access", "rules"].Nodup by decide)
      (areSettled_settings config)
      (show ∀ name ∈ ["storage", "identity", "access", "rules"], name ∈ Setting.fieldNames by
        decide)
  rw [load, loadBy, hentries]
  simp only [hlaid, layVariables_of_isSilent hsilent, ofSetting_settings]

end Config

end Admission
