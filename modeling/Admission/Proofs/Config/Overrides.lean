import Admission.Proofs.Config.Layering
import Admission.Proofs.Yaml.FlowTrees
/-!
# Overriding the storage section

Three variables of the environment override the fields of the storage section, whatever the case of
their names. A variable is laid over the tree of the file as a key of two names, so it replaces one
field and keeps its siblings and the other sections (`set_storageKey`). After all variables every
field of the section is the given text where there is one, and otherwise what the file has
(`liesOver_layVariables`); it is then converted without regard to the others.

The section has to be a table in the tree of the file, or to be absent: a list, which is read by the
order of its items, would be lost under a variable. It is such a table if no key of the file leads
to an item of it and what stands there as a whole is a mapping (`storageIsTable_layFile`).

None of this depends on the format of the file, so everything is said of an arbitrary reader of its
entries.

Main statement: `load_overridden`.
-/

namespace Admission

open Yaml (Node)

namespace Setting

/-- Whether a setting is a table. -/
def IsTable : Setting → Prop
  | table _ => True
  | _ => False

/-- What is merged into is a table. -/
theorem isTable_merge (name : String) (root value : Setting) : (merge name root value).IsTable := by
  cases value <;> exact trivial

theorem isTable_mergeAll {target : Setting} (h : target.IsTable)
    (incoming : List (String × Setting)) : (mergeAll target incoming).IsTable := by
  induction incoming generalizing target with
  | nil => exact h
  | cons entry rest ih => exact ih (isTable_merge _ target entry.2)

/-- Merging under one name is not seen under another. -/
theorem lookup_merge_of_ne {name other : String} (h : other ≠ name) (root value : Setting) :
    (merge name root value).entries.lookup other = root.entries.lookup other := by
  cases value <;> simp only [merge, entries, lookup_put, if_neg h]

end Setting

namespace Config

/-! ## The storage section of a tree -/

/-- The storage section of a tree is a table, or there is none. -/
def StorageIsTable (root : Setting) : Prop :=
  ∀ setting, root.entries.lookup "storage" = some setting → setting.IsTable

/-- The fields of the storage section of a tree. -/
def storageFields (root : Setting) : List (String × Setting) :=
  ((root.entries.lookup "storage").getD .null).entries

/-- A section that is a table is converted by its fields; without one it has the standard values. -/
theorem fieldFromOr_storage {root : Setting} (h : StorageIsTable root) :
    fieldFromOr root.entries "storage" storageFrom {} =
      storageFrom (.table (storageFields root)) := by
  cases hlookup : root.entries.lookup "storage" with
  | none => simp only [fieldFromOr, storageFields, hlookup]; rfl
  | some setting =>
    have htable := h setting hlookup
    cases setting with
    | table fields => simp only [fieldFromOr, storageFields, hlookup]; rfl
    | _ => exact htable.elim

/-! ### Where keys lead -/

/-- A key with a value keeps the storage section a table: it leads elsewhere, or to a name of the
section, or it puts a table there. -/
def KeepsStorage (key : Key) (value : Setting) : Prop :=
  key.name = "storage" → match key.steps with
    | [] => value.IsTable
    | .child _ :: _ => True
    | .item _ :: _ => False

/-- What is set is a table. -/
theorem isTable_set (key : Key) (value root : Setting) : (key.set value root).IsTable := by
  unfold Key.set
  split
  · exact Setting.isTable_merge _ _ _
  · exact trivial

/-- Setting a key is not seen under other names than its first. -/
theorem lookup_set_of_ne {key : Key} {other : String} (h : other ≠ key.name)
    (value root : Setting) :
    (key.set value root).entries.lookup other = root.entries.lookup other := by
  unfold Key.set
  split
  · exact Setting.lookup_merge_of_ne h root value
  · rw [Key.change, Setting.entries, Setting.lookup_put, if_neg h]

theorem storageIsTable_set {key : Key} {value root : Setting} (h : StorageIsTable root)
    (hkey : KeepsStorage key value) : StorageIsTable (key.set value root) := by
  intro setting hsetting
  by_cases hname : "storage" = key.name
  · obtain ⟨name, steps⟩ := key
    obtain rfl := hname
    cases steps with
    | nil =>
      have hvalue : value.IsTable := hkey rfl
      cases value with
      | table incoming =>
        rw [Key.set_name, Setting.merge, Setting.entries, Setting.lookup_put, if_pos rfl]
          at hsetting
        obtain rfl := Option.some.inj hsetting
        refine Setting.isTable_mergeAll ?_ incoming
        cases hlookup : root.entries.lookup "storage" with
        | none => exact trivial
        | some old => exact h old hlookup
      | _ => exact hvalue.elim
    | cons first rest =>
      obtain ⟨last, hlast⟩ : ∃ last, (first :: rest).getLast? = some last :=
        ⟨_, List.getLast?_eq_some_getLast (List.cons_ne_nil _ _)⟩
      simp only [Key.set, hlast, Key.change, Setting.entries, Setting.lookup_put, if_pos]
        at hsetting
      obtain rfl := Option.some.inj hsetting
      cases first with
      | item index => exact (hkey rfl).elim
      | child field =>
        cases rest with
        | nil =>
          obtain rfl := Option.some.inj hlast
          exact Setting.isTable_merge _ _ _
        | cons second rest => exact trivial
  · rw [lookup_set_of_ne hname] at hsetting
    exact h setting hsetting

/-- **A file whose keys keep the storage section a table has a table there, or nothing.** -/
theorem storageIsTable_layFile {entries : List (String × Setting)} {root : Setting}
    (hroot : StorageIsTable root)
    (h : ∀ entry ∈ entries, KeepsStorage (Key.ofString (Text.lower entry.1)) entry.2) :
    StorageIsTable (layFile entries root) := by
  induction entries generalizing root with
  | nil => exact hroot
  | cons entry rest ih =>
    rw [List.forall_mem_cons] at h
    exact ih (storageIsTable_set hroot h.1) h.2

theorem isTable_layFile {root : Setting} (hroot : root.IsTable)
    (entries : List (String × Setting)) : (layFile entries root).IsTable := by
  induction entries generalizing root with
  | nil => exact hroot
  | cons entry rest ih => exact ih (isTable_set _ _ _)

/-! ## Variables -/

/-- The fields of the storage section. -/
def storageNames : List String := ["backend", "redis_url", "timeout_ms"]

/-- The name of the variable that overrides a field, in lower case. -/
def storageVariable (field : String) : String := "gatekeeper__storage__" ++ field

theorem toList_storageVariable (field : String) :
    (storageVariable field).toList = variableMark ++ ("storage__".toList ++ field.toList) := by
  have hsplit : "gatekeeper__storage__".toList = variableMark ++ "storage__".toList := by decide
  unfold storageVariable
  rw [String.toList_append, hsplit, List.append_assoc]

theorem storageVariable_injective {field other : String}
    (h : storageVariable field = storageVariable other) : field = other := by
  have hlists := congrArg String.toList h
  rw [toList_storageVariable, toList_storageVariable] at hlists
  exact String.toList_inj.mp (List.append_cancel_left (List.append_cancel_left hlists))

/-- An environment that overrides nothing but fields of the storage section, each of them at most
once. The names of variables may be in any case, and variables without the mark do not matter. -/
structure OverridesStorage (environment : List (String × String)) : Prop where
  known : ∀ entry ∈ environment, variableMark <+: (Text.lower entry.1).toList →
    ∃ field ∈ storageNames, Text.lower entry.1 = storageVariable field
  once : environment.Pairwise fun first second =>
    variableMark <+: (Text.lower first.1).toList → Text.lower first.1 ≠ Text.lower second.1

/-- The text that is given for a field. -/
def given? (environment : List (String × String)) (field : String) : Option String :=
  (environment.find? fun entry => Text.lower entry.1 == storageVariable field).map Prod.snd

theorem given?_cons_of_eq {name text field : String} {rest : List (String × String)}
    (h : Text.lower name = storageVariable field) :
    given? ((name, text) :: rest) field = some text := by
  simp [given?, h]

theorem given?_cons_of_ne {name text field : String} {rest : List (String × String)}
    (h : Text.lower name ≠ storageVariable field) :
    given? ((name, text) :: rest) field = given? rest field := by
  simp [given?, h]

/-- A name, a point and another name are a key of two names. -/
theorem ofString_child {name field : List Char} (hname : name.all Key.isNameChar = true)
    (hfield : field.all Key.isNameChar = true) (hnameNe : name ≠ []) (hfieldNe : field ≠ []) :
    Key.ofString (String.ofList (name ++ '.' :: field)) =
      ⟨String.ofList name, [.child (String.ofList field)]⟩ := by
  have htakeName : (name ++ '.' :: field).takeWhile Key.isNameChar = name := by
    rw [List.takeWhile_append_of_pos (List.all_eq_true.mp hname)]
    exact List.append_nil name
  have htakeField : field.takeWhile Key.isNameChar = field :=
    List.takeWhile_eq_self_iff.mpr (List.all_eq_true.mp hfield)
  have hsteps : Key.steps? ('.' :: field) = some [.child (String.ofList field)] := by
    rw [Key.steps?]
    simp only [htakeField, if_neg hfieldNe, List.drop_length, Key.steps?_nil, Option.map_some]
  simp only [Key.ofString, String.toList_ofList, htakeName, List.drop_left, hsteps,
    if_neg hnameNe]

/-- The variable of a field sets the field of the section. -/
theorem variableKey?_of_lower {name field : String} (hfield : field ∈ storageNames)
    (h : Text.lower name = storageVariable field) :
    variableKey? name = some ⟨"storage", [.child field]⟩ := by
  have hpointed : pointed ("storage__".toList ++ field.toList) =
      "storage".toList ++ '.' :: field.toList :=
    (show ∀ field ∈ storageNames, pointed ("storage__".toList ++ field.toList) =
      "storage".toList ++ '.' :: field.toList by decide) field hfield
  obtain ⟨hchars, hne⟩ := (show ∀ field ∈ storageNames,
    field.toList.all Key.isNameChar = true ∧ field.toList ≠ [] by decide) field hfield
  rw [variableKey?, h, Text.after?_eq_some.mpr (toList_storageVariable field), Option.map_some,
    hpointed, ofString_child (by decide) hchars (by decide) hne, String.ofList_toList,
    String.ofList_toList]

/-! ## Laying variables over a tree -/

/-- What lies over the storage section of a tree: every field is the given text where there is one,
and everything else is as it was. -/
structure LiesOver (environment : List (String × String)) (root laid : Setting) : Prop where
  isTable : laid.IsTable
  storageIsTable : StorageIsTable laid
  fields : ∀ field, (storageFields laid).lookup field =
    match given? environment field with
    | some text => some (.text text)
    | none => (storageFields root).lookup field
  others : ∀ name, name ≠ "storage" → laid.entries.lookup name = root.entries.lookup name

/-- **The variable of a field replaces the field**, in a section that is there or made for it. -/
theorem set_storageKey (field text : String) (root : Setting) :
    (Key.mk "storage" [.child field]).set (.text text) root =
      .table (Setting.put "storage"
        (.table (Setting.put field (.text text) (storageFields root))) root.entries) :=
  rfl

theorem storageFields_set (field text : String) (root : Setting) :
    storageFields ((Key.mk "storage" [.child field]).set (.text text) root) =
      Setting.put field (.text text) (storageFields root) := by
  rw [set_storageKey, storageFields, Setting.entries, Setting.lookup_put, if_pos rfl]
  rfl

/-- **Variables that override the storage section lie over it.** -/
theorem liesOver_layVariables {environment : List (String × String)}
    (henv : OverridesStorage environment) {root : Setting} (hroot : root.IsTable)
    (hstorage : StorageIsTable root) :
    LiesOver environment root (layVariables environment root) := by
  induction environment generalizing root with
  | nil => exact ⟨hroot, hstorage, fun _ => rfl, fun _ _ => rfl⟩
  | cons entry rest ih =>
    obtain ⟨name, text⟩ := entry
    have hrest : OverridesStorage rest :=
      ⟨(List.forall_mem_cons.mp henv.known).2, (List.pairwise_cons.mp henv.once).2⟩
    by_cases hmark : variableMark <+: (Text.lower name).toList
    · obtain ⟨field, hfield, hname⟩ := henv.known (name, text) (.head rest) hmark
      have hlaid : layVariables ((name, text) :: rest) root =
          layVariables rest ((Key.mk "storage" [.child field]).set (.text text) root) := by
        simp only [layVariables, List.foldl_cons, variableKey?_of_lower hfield hname]
      have hkeeps : KeepsStorage ⟨"storage", [.child field]⟩ (.text text) := fun _ => trivial
      have hover := ih hrest (isTable_set _ (.text text) root)
        (storageIsTable_set hstorage hkeeps)
      -- no variable after this one overrides the field again
      have hlater : given? rest field = none := by
        rw [given?, Option.map_eq_none_iff, List.find?_eq_none]
        intro other hother
        rw [beq_iff_eq, ← hname]
        exact ((List.pairwise_cons.mp henv.once).1 other hother hmark).symm
      rw [hlaid]
      refine ⟨hover.isTable, hover.storageIsTable, fun other => ?_, fun other hother => ?_⟩
      · rw [hover.fields, storageFields_set, Setting.lookup_put]
        by_cases heq : other = field
        · subst heq
          rw [given?_cons_of_eq hname, hlater, if_pos rfl]
        · have hne : Text.lower name ≠ storageVariable other := by
            rw [hname]
            exact fun h => heq (storageVariable_injective h).symm
          rw [given?_cons_of_ne hne, if_neg heq]
      · rw [hover.others other hother, lookup_set_of_ne hother]
    · have hover := ih hrest hroot hstorage
      rw [layVariables_cons_of_none (variableKey?_eq_none hmark)]
      refine ⟨hover.isTable, hover.storageIsTable, fun field => ?_, hover.others⟩
      have hne : Text.lower name ≠ storageVariable field := by
        rintro h
        refine hmark ?_
        rw [h, toList_storageVariable]
        exact List.prefix_append _ _
      rw [given?_cons_of_ne hne, hover.fields]

/-! ## What texts are converted to -/

/-- A decimal numeral holds nothing but decimal digits. -/
theorem isDigit_of_natural? {n : Nat} {digits : List Char} (h : Text.natural? 10 digits = some n)
    {c : Char} (hc : c ∈ digits) : Text.isDigit c = true := by
  rw [Text.natural?] at h
  split at h
  · cases h
  · obtain ⟨d, hd, hlt⟩ := Text.digitValue_of_mem_of_readDigits h hc
    simp only [Text.digitValue] at hd
    split at hd
    · next hrange => simpa [Text.isDigit] using hrange
    · -- the digits above nine are letters
      split at hd
      · cases hd
        omega
      · split at hd
        · cases hd
          omega
        · cases hd

/-- A number of 64 bits is written with digits and plus signs only. -/
theorem isDigit_of_word64? {text : List Char} {n : UInt64} (h : Text.word64? text = some n)
    {c : Char} (hc : c ∈ text) : c = '+' ∨ Text.isDigit c = true := by
  unfold Text.word64? at h
  simp only at h
  split at h
  · next m hm =>
    split at hm
    · rcases List.mem_cons.mp hc with rfl | hrest
      · exact .inl rfl
      · exact .inr (isDigit_of_natural? hm hrest)
    · exact .inr (isDigit_of_natural? hm hc)
  · cases h

/-- What writes a number of 64 bits is no word for one or zero. -/
theorem wordNumber?_eq_none {text : String} {n : UInt64} (h : Text.word64? text.toList = some n) :
    wordNumber? (Text.lower text) = none := by
  have hchars : ∀ c ∈ text.toList, Text.lowerChar c = c := by
    intro c hc
    rcases isDigit_of_word64? h hc with rfl | hdigit
    · rfl
    · obtain ⟨low, high⟩ : 0x30 ≤ c.toNat ∧ c.toNat ≤ 0x39 := by
        simpa [Text.isDigit] using hdigit
      refine Text.lowerChar_of_not_upper (fun hupper => ?_) ?_
      · have hlow : 0x41 ≤ c.toNat := hupper.1
        omega
      · rintro rfl
        exact absurd high (by decide)
  have hsame : Text.lower text = text := by
    rw [Text.lower, List.map_congr_left hchars, List.map_id', String.ofList_toList]
  have hletter : ∀ word ∈ ["true", "on", "yes", "false", "off", "no"],
      word.toList.any (fun c => c != '+' && !Text.isDigit c) = true := by decide
  have hword : ∀ word ∈ ["true", "on", "yes", "false", "off", "no"], text ≠ word := by
    rintro word hword rfl
    obtain ⟨c, hc, hother⟩ := List.any_eq_true.mp (hletter text hword)
    rcases isDigit_of_word64? h hc with rfl | hdigit
    · cases hother
    · simp [hdigit] at hother
  simp only [List.forall_mem_cons] at hword
  simp [wordNumber?, hsame, hword]

/-- A text writes a number: it is a word for one or for zero in any case, or the digits of a number
of 64 bits, with at most one plus sign before them. -/
def WritesNumber (text : String) (n : UInt64) : Prop :=
  (Text.lower text ∈ ["true", "on", "yes"] ∧ n = 1) ∨
    (Text.lower text ∈ ["false", "off", "no"] ∧ n = 0) ∨ Text.word64? text.toList = some n

theorem word64From_text_iff (text : String) (n : UInt64) :
    word64From (.text text) = some n ↔ WritesNumber text n := by
  unfold WritesNumber
  constructor
  · intro h
    rw [word64From] at h
    cases hword : wordNumber? (Text.lower text) with
    | none =>
      rw [hword] at h
      exact .inr (.inr h)
    | some m =>
      rw [hword] at h
      obtain rfl := Option.some.inj h
      unfold wordNumber? at hword
      split at hword
      · next htrue =>
        exact .inl ⟨by simpa using htrue, (Option.some.inj hword).symm⟩
      · split at hword
        · next hfalse =>
          exact .inr (.inl ⟨by simpa using hfalse, (Option.some.inj hword).symm⟩)
        · cases hword
  · rintro (⟨hword, rfl⟩ | ⟨hword, rfl⟩ | hnumber)
    · have hall : ∀ word ∈ ["true", "on", "yes"], wordNumber? word = some 1 := by decide
      rw [word64From, hall _ hword]
    · have hall : ∀ word ∈ ["false", "off", "no"], wordNumber? word = some 0 := by decide
      rw [word64From, hall _ hword]
    · rw [word64From, wordNumber?_eq_none hnumber, hnumber]

/-- A text names a backend, in any case. -/
def NamesBackend (text : String) (backend : StorageBackend) : Prop :=
  Text.lower text = backend.name

theorem backendFrom_text_iff (text : String) (backend : StorageBackend) :
    backendFrom (.text text) = some backend ↔ NamesBackend text backend := by
  show StorageBackend.ofName? (Text.lower text) = some backend ↔ Text.lower text = backend.name
  constructor
  · intro h
    unfold StorageBackend.ofName? at h
    split at h
    · next hname => cases h; exact hname
    · split at h
      · next hname => cases h; exact hname
      · cases h
  · intro h
    rw [h, StorageBackend.ofName?_name]

/-- What becomes of a value: it is what the given text writes, or stays if there is none. -/
def Replaced {α : Type} (given : Option String) (writes : String → α → Prop) (old new : α) : Prop :=
  match given with
  | some text => writes text new
  | none => new = old

/-- A field depends on what stands under its name. -/
theorem fieldFromOr_congr {α : Type} {fields fields' : List (String × Setting)} {name : String}
    {convert : Setting → Option α} {otherwise : α} (h : fields.lookup name = fields'.lookup name) :
    fieldFromOr fields name convert otherwise = fieldFromOr fields' name convert otherwise := by
  rw [fieldFromOr, fieldFromOr, h]

/-- A field over another is converted from the text given for it, or as before. -/
theorem fieldFromOr_eq_some_iff {α : Type} {below above : List (String × Setting)} {name : String}
    {given : Option String} {convert : Setting → Option α} {otherwise old new : α}
    (hbelow : fieldFromOr below name convert otherwise = some old)
    (habove : above.lookup name = match given with
      | some text => some (.text text)
      | none => below.lookup name) :
    fieldFromOr above name convert otherwise = some new ↔
      Replaced given (fun text a => convert (.text text) = some a) old new := by
  cases given with
  | some text => simp only [fieldFromOr, habove, Replaced]
  | none =>
    rw [fieldFromOr_congr habove, hbelow, Option.some.injEq, eq_comm]
    rfl

/-- A storage section is converted field by field. -/
theorem storageFrom_table_iff (fields : List (String × Setting)) (config : StorageConfig) :
    storageFrom (.table fields) = some config ↔
      fieldFromOr fields "backend" backendFrom .memory = some config.backend ∧
        fieldFromOr fields "redis_url" textFrom "redis://127.0.0.1:6379" = some config.redisUrl ∧
        fieldFromOr fields "timeout_ms" word64From 250 = some config.timeoutMillis := by
  obtain ⟨backend, redisUrl, timeoutMillis⟩ := config
  simp only [storageFrom, fieldsFrom, bind, Option.bind_eq_some_iff, pure, Option.some.injEq,
    StorageConfig.mk.injEq]
  constructor
  · rintro ⟨_, rfl, b, hb, u, hu, t, ht, rfl, rfl, rfl⟩
    exact ⟨hb, hu, ht⟩
  · rintro ⟨hb, hu, ht⟩
    exact ⟨_, rfl, _, hb, _, hu, _, ht, rfl, rfl, rfl⟩

/-- A table whose storage section is a table is converted section by section. -/
theorem ofSetting_eq_some_iff {root : Setting} (hroot : root.IsTable)
    (hstorage : StorageIsTable root) (config : Config) :
    ofSetting root = some config ↔
      storageFrom (.table (storageFields root)) = some config.storage ∧
        fieldFromOr root.entries "identity" identityFrom {} = some config.identity ∧
        fieldFromOr root.entries "access" accessFrom {} = some config.access ∧
        fieldFromOr root.entries "rules" (listFrom ruleFrom) [] = some config.rules := by
  rw [← fieldFromOr_storage hstorage]
  cases root with
  | table entries =>
    obtain ⟨storage, identity, access, rules⟩ := config
    simp only [ofSetting, fieldsFrom, bind, Option.bind_eq_some_iff, pure, Option.some.injEq,
      Config.mk.injEq, Setting.entries]
    constructor
    · rintro ⟨_, rfl, s, hs, i, hi, a, ha, r, hr, rfl, rfl, rfl, rfl⟩
      exact ⟨hs, hi, ha, hr⟩
    · rintro ⟨hs, hi, ha, hr⟩
      exact ⟨_, rfl, _, hs, _, hi, _, ha, _, hr, rfl, rfl, rfl, rfl⟩
  | _ => exact hroot.elim

/-! ## The overridden configuration -/

section

variable {read : String → Option (List (String × Setting))} {source : Source}

/-- The storage section of the file of a source is a mapping, or there is none: what stands under
its name once the keys of the file have been laid into a tree is a table if it is anything. -/
def Source.StorageIsMapping (read : String → Option (List (String × Setting)))
    (source : Source) : Prop :=
  ∀ entries, source.entries? read = some entries → StorageIsTable (layFile entries (.table []))

/-- So it is if every key of the file keeps the section a table. -/
theorem storageIsMapping_of_keepsStorage
    (h : ∀ entries, source.entries? read = some entries →
      ∀ entry ∈ entries, KeepsStorage (Key.ofString (Text.lower entry.1)) entry.2) :
    source.StorageIsMapping read := fun entries hentries =>
  storageIsTable_layFile (fun _ hnone => nomatch hnone) (h entries hentries)

/-- What is loaded is converted from the tree of the file with the variables over it. -/
theorem loadBy_eq_ok_iff {entries : List (String × Setting)}
    (hentries : source.entries? read = some entries) (environment : List (String × String))
    (config : Config) : loadBy read source environment = .ok config ↔
      ofSetting (layVariables environment (layFile entries (.table []))) = some config := by
  simp only [loadBy, hentries]
  cases ofSetting (layVariables environment (layFile entries (.table []))) with
  | none => simp
  | some loaded => simp

end

/-- One configuration is another but for the fields of the storage section that an environment
gives: the URL of the database is the given text, the timeout the number that the text writes, and
the backend the one that the text names. -/
structure Overridden (environment : List (String × String)) (config loaded : Config) : Prop where
  backend : Replaced (given? environment "backend") NamesBackend config.storage.backend
    loaded.storage.backend
  redisUrl : Replaced (given? environment "redis_url") Eq config.storage.redisUrl
    loaded.storage.redisUrl
  timeoutMillis : Replaced (given? environment "timeout_ms") WritesNumber
    config.storage.timeoutMillis loaded.storage.timeoutMillis
  identity : loaded.identity = config.identity
  access : loaded.access = config.access
  rules : loaded.rules = config.rules

/-- Where it is known what can be written, a value can be replaced if a given text writes one. -/
theorem exists_replaced_iff {α : Type} {given : Option String} {writes : String → α → Prop}
    {old : α} : (∃ new, Replaced given writes old new) ↔
      ∀ text, given = some text → ∃ new, writes text new := by
  cases given with
  | some text => simp [Replaced]
  | none => simp [Replaced]

/-- **Variables override exactly the fields they name**, in whatever format the file is written.
Where a source is loaded without an environment and its storage section is a mapping or absent, the
variables of that section decide whether it is loaded with them: it is if the text for the timeout
writes a number and the text for the backend names one. Then it is loaded with these fields
replaced, and nothing else. -/
theorem load_overridden {read : String → Option (List (String × Setting))} {source : Source}
    {config : Config} {environment : List (String × String)}
    (hload : loadBy read source [] = .ok config) (hstorage : source.StorageIsMapping read)
    (henv : OverridesStorage environment) :
    (∀ loaded, loadBy read source environment = .ok loaded ↔
      Overridden environment config loaded) ∧
      ((∃ loaded, loadBy read source environment = .ok loaded) ↔
        (∀ text, given? environment "timeout_ms" = some text → ∃ n, WritesNumber text n) ∧
          ∀ text, given? environment "backend" = some text →
            ∃ backend, NamesBackend text backend) := by
  obtain ⟨entries, hentries⟩ : ∃ entries, source.entries? read = some entries := by
    cases hentries : source.entries? read with
    | some entries => exact ⟨entries, rfl⟩
    | none => rw [loadBy, hentries] at hload; cases hload
  have hroot : (layFile entries (.table [])).IsTable :=
    isTable_layFile (show (Setting.table []).IsTable from trivial) entries
  have hsection := hstorage entries hentries
  have hover := liesOver_layVariables henv hroot hsection
  rw [loadBy_eq_ok_iff hentries, layVariables, List.foldl_nil, ofSetting_eq_some_iff hroot hsection,
    storageFrom_table_iff] at hload
  obtain ⟨⟨hbackend, hurl, htimeout⟩, hidentity, haccess, hrules⟩ := hload
  have hloaded : ∀ loaded, loadBy read source environment = .ok loaded ↔
      Overridden environment config loaded := by
    intro loaded
    rw [loadBy_eq_ok_iff hentries, ofSetting_eq_some_iff hover.isTable hover.storageIsTable,
      storageFrom_table_iff, fieldFromOr_eq_some_iff hbackend (hover.fields "backend"),
      fieldFromOr_eq_some_iff hurl (hover.fields "redis_url"),
      fieldFromOr_eq_some_iff htimeout (hover.fields "timeout_ms")]
    rw [fieldFromOr_congr (hover.others "identity" (by decide)),
      fieldFromOr_congr (hover.others "access" (by decide)),
      fieldFromOr_congr (hover.others "rules" (by decide)), hidentity, haccess, hrules]
    simp only [backendFrom_text_iff, word64From_text_iff, textFrom_text, Option.some.injEq]
    constructor
    · rintro ⟨⟨hbackend, hurl, htimeout⟩, hidentity, haccess, hrules⟩
      exact ⟨hbackend, hurl, htimeout, hidentity.symm, haccess.symm, hrules.symm⟩
    · rintro ⟨hbackend, hurl, htimeout, hidentity, haccess, hrules⟩
      exact ⟨⟨hbackend, hurl, htimeout⟩, hidentity.symm, haccess.symm, hrules.symm⟩
  refine ⟨hloaded, ?_⟩
  simp only [hloaded]
  constructor
  · rintro ⟨loaded, hoverridden⟩
    exact ⟨exists_replaced_iff.mp ⟨_, hoverridden.timeoutMillis⟩,
      exists_replaced_iff.mp ⟨_, hoverridden.backend⟩⟩
  · rintro ⟨hnumber, hname⟩
    obtain ⟨timeoutMillis, htimeout⟩ := exists_replaced_iff.mpr hnumber
    obtain ⟨backend, hbackend⟩ := exists_replaced_iff.mpr hname
    obtain ⟨redisUrl, hurl⟩ := exists_replaced_iff.mpr fun text _ => ⟨text, rfl⟩
    exact ⟨{ config with storage := { backend, redisUrl, timeoutMillis } },
      hbackend, hurl, htimeout, rfl, rfl, rfl⟩

/-- A file with one field of the storage section. -/
def partialSection : String := "\x7bStorage: \x7bredis_url: \"redis://db\"\x7d\x7d"

/-- A backend and a truth word over a file that has neither of the two fields. -/
theorem load_overridden_of_partial_section :
    load (.file partialSection) [("Gatekeeper__Storage__Backend", "REDIS"), ("PATH", "/bin"),
        ("GATEKEEPER__STORAGE__TIMEOUT_MS", "Yes")] =
      .ok { storage := { backend := .redis, redisUrl := "redis://db", timeoutMillis := 1 } } := by
  let node : Node := .mapping
    [(.scalar "Storage" .plain, .mapping [(.scalar "redis_url" .plain, .ofText "redis://db")])]
  have hflow : String.ofList node.flow = partialSection := by decide +kernel
  have htext : Node.ofString? (String.ofList node.flow) = some [node] :=
    Yaml.ofString?_flow node (by decide +kernel) fun _ _ h => nomatch h
  rw [hflow] at htext
  have hkey : Key.ofString (Text.lower "Storage") = ⟨"storage", []⟩ :=
    Key.ofString_of_all (by decide)
  have hentries : (Source.file partialSection).entries? Setting.ofYaml? =
      some [("Storage", .table [("redis_url", .text "redis://db")])] := by
    rw [Source.entries?, Setting.ofYaml?, htext]
    rfl
  have hload : load (.file partialSection) [] =
      .ok { storage := { redisUrl := "redis://db" } } := by
    rw [load, loadBy_eq_ok_iff hentries, layFile_cons, hkey, Key.set_name]
    rfl
  have hstorage : (Source.file partialSection).StorageIsMapping Setting.ofYaml? := by
    refine storageIsMapping_of_keepsStorage fun entries h entry hentry => ?_
    obtain rfl := Option.some.inj (hentries.symm.trans h)
    obtain rfl := List.mem_singleton.mp hentry
    rw [hkey]
    exact fun _ => trivial
  have henv : OverridesStorage [("Gatekeeper__Storage__Backend", "REDIS"), ("PATH", "/bin"),
      ("GATEKEEPER__STORAGE__TIMEOUT_MS", "Yes")] := by
    refine ⟨fun entry hentry hmark => ?_, by decide +kernel⟩
    simp only [List.mem_cons, List.not_mem_nil, or_false] at hentry
    rcases hentry with rfl | rfl | rfl
    · exact ⟨"backend", by decide, by decide⟩
    · exact absurd hmark (by decide)
    · exact ⟨"timeout_ms", by decide, by decide⟩
  refine ((load_overridden hload hstorage henv).1 _).mpr ⟨?_, rfl, ?_, rfl, rfl, rfl⟩
  · exact (show Text.lower "REDIS" = "redis" by decide)
  · exact .inl ⟨(show Text.lower "Yes" ∈ ["true", "on", "yes"] by decide), rfl⟩

end Config

end Admission
