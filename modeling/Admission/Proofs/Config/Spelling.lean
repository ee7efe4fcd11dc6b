import Mathlib.Data.List.Nodup
import Admission.Proofs.Config.Decoding
import Admission.Proofs.Yaml.FlowTrees
/-!
# Configurations in any spelling

The tree of a configuration spells every field out in order. The same configuration can be written
with the keys of any mapping in another order, with more keys that name no field, and without the
fields that have their standard value, whole sections among them. All of these trees are decoded as
the configuration.

* `Part`, `SpelledOut`: a record by its fields, and the mappings that tell it; `StorageConfig.parts`
  and the others say what the fields are and when they may be left out
* `Tells`: what all spellings of a record have in common, which every rewriting keeps
  (`SpelledOut.tells`)
* `readFields_of_tells`: such a mapping is read, and then every field is found or may be missing
* `storageOf_of_spells` and the others: so each section is decoded
* `decoded_however_spelled`: and hence the whole

Every part of a document may be rewritten without regard to the others, so the sections are spelled
on their own and the decoder is followed section by section.
-/

namespace Admission

open Yaml (Node Style)

/-! ## Spellings of a record -/

/-- A field of a record as it may be written. -/
structure Part where
  name : String
  /-- The trees that spell the value of the field. -/
  spelled : Node → Prop
  /-- The field has the value that it has when it is left out. -/
  canOmit : Prop

/-- An entry of a mapping spells a part under its name, with or without quotes. -/
def Part.IsEntry (part : Part) (entry : Node × Node) : Prop :=
  ∃ style, entry.1 = .scalar part.name style ∧ part.spelled entry.2

/-- A mapping with these entries spells a record. -/
inductive SpelledOut (parts : List Part) : List (Node × Node) → Prop where
  /-- All parts stand there in order. -/
  | full {entries : List (Node × Node)} (h : List.Forall₂ Part.IsEntry parts entries) :
      SpelledOut parts entries
  /-- The entries may be permuted. -/
  | permute {before after : List (Node × Node)} (h : SpelledOut parts before)
      (hperm : before.Perm after) : SpelledOut parts after
  /-- A text that names no part and is not there yet may be added as a key, with any value. -/
  | add {entries : List (Node × Node)} {name : String} (h : SpelledOut parts entries)
      (style : Style) (value : Node) (hforeign : ∀ part ∈ parts, part.name ≠ name)
      (hnew : ∀ entry ∈ entries, entry.1.text? ≠ some name) :
      SpelledOut parts ((.scalar name style, value) :: entries)
  /-- A part with its standard value may be left out. -/
  | leaveOut {part : Part} {style : Style} {value : Node} {entries : List (Node × Node)}
      (h : SpelledOut parts ((.scalar part.name style, value) :: entries)) (hpart : part ∈ parts)
      (homit : part.canOmit) : SpelledOut parts entries

/-- A tree spells a record. -/
def Spells (parts : List Part) (node : Node) : Prop :=
  ∃ entries, node = .mapping entries ∧ SpelledOut parts entries

/-- The parts of the storage section. -/
def StorageConfig.parts (config : StorageConfig) : List Part :=
  [⟨"backend", (· = .ofText config.backend.name), config.backend = .memory⟩,
    ⟨"redis_url", (· = .ofText config.redisUrl), config.redisUrl = "redis://127.0.0.1:6379"⟩,
    ⟨"timeout_ms", (· = .ofWord64 config.timeoutMillis), config.timeoutMillis = 250⟩]

/-- The part of the identity section. -/
def IdentityConfig.parts (config : IdentityConfig) : List Part :=
  [⟨"trusted_proxies", (· = .ofTexts config.trustedProxies), config.trustedProxies = ["*"]⟩]

/-- The parts of the access section. -/
def AccessConfig.parts (config : AccessConfig) : List Part :=
  [⟨"safelist", (· = .ofTexts config.safelist), config.safelist = []⟩,
    ⟨"blocklist", (· = .ofTexts config.blocklist), config.blocklist = []⟩,
    ⟨"blocklist_cidrs", (· = .ofTexts config.blocklistCidrs), config.blocklistCidrs = []⟩]

/-- The parts of a rule; its key and its numbers have to be there. -/
def RuleConfig.parts (config : RuleConfig) : List Part :=
  [⟨"name", (· = .ofText? config.name), config.name = none⟩,
    ⟨"path", (· = .ofText config.path), config.path = ""⟩,
    ⟨"method", (· = .ofText config.method), config.method = ""⟩,
    ⟨"key", (· = .ofText config.key), False⟩,
    ⟨"limit", (· = .ofWord64 config.limit), False⟩,
    ⟨"period_secs", (· = .ofWord64 config.periodSecs), False⟩]

namespace Config

/-- A tree spells rules, one after another. -/
def SpellsRules (rules : List RuleConfig) (node : Node) : Prop :=
  ∃ nodes, node = .sequence nodes ∧ List.Forall₂ (fun rule => Spells rule.parts) rules nodes

/-- The sections of a configuration. -/
def parts (config : Config) : List Part :=
  [⟨"storage", Spells config.storage.parts, config.storage = {}⟩,
    ⟨"identity", Spells config.identity.parts, config.identity = {}⟩,
    ⟨"access", Spells config.access.parts, config.access = {}⟩,
    ⟨"rules", SpellsRules config.rules, config.rules = []⟩]

/-- A tree spells a configuration. -/
def IsSpelledBy (config : Config) (node : Node) : Prop := Spells config.parts node

end Config

/-! ## What all spellings have in common -/

/-- A mapping tells parts: its keys are different texts, and under the name of a part stands what
spells it, or nothing if the part may be left out. -/
structure Tells (parts : List Part) (entries : List (Node × Node)) : Prop where
  texts : ∀ entry ∈ entries, ∃ name, entry.1.text? = some name
  distinct : (entries.map fun entry => entry.1.text?).Nodup
  told : ∀ part ∈ parts,
    (∃ entry ∈ entries, entry.1.text? = some part.name ∧ part.spelled entry.2) ∨
      (part.canOmit ∧ ∀ entry ∈ entries, entry.1.text? ≠ some part.name)

namespace Tells

variable {parts : List Part} {entries : List (Node × Node)}

/-- Two entries with one key are the same entry. -/
theorem eq_of_text?_eq (h : Tells parts entries) {a b : Node × Node} (ha : a ∈ entries)
    (hb : b ∈ entries) (htext : a.1.text? = b.1.text?) : a = b :=
  List.inj_on_of_nodup_map h.distinct ha hb htext

theorem full (hnames : (parts.map Part.name).Nodup)
    (h : List.Forall₂ Part.IsEntry parts entries) : Tells parts entries := by
  have hkeys : (entries.map fun entry => entry.1.text?) = parts.map fun part => some part.name := by
    clear hnames
    induction h with
    | nil => rfl
    | cons hentry _ ih =>
      obtain ⟨style, hkey, -⟩ := hentry
      rw [List.map_cons, List.map_cons, ih, hkey]
      rfl
  refine ⟨fun entry hentry => ?_, ?_, fun part hpart => .inl ?_⟩
  · have hmem : entry.1.text? ∈ parts.map fun part => some part.name :=
      hkeys ▸ List.mem_map_of_mem hentry
    obtain ⟨part, -, hname⟩ := List.mem_map.mp hmem
    exact ⟨part.name, hname.symm⟩
  · have hsome : (parts.map fun part => some part.name) = (parts.map Part.name).map some :=
      List.map_map.symm
    rw [hkeys, hsome]
    exact hnames.map fun _ _ h => Option.some.inj h
  · clear hkeys hnames
    induction h with
    | nil => cases hpart
    | @cons first entry _ _ hentry _ ih =>
      rcases List.mem_cons.mp hpart with rfl | hrest
      · obtain ⟨style, hkey, hspelled⟩ := hentry
        exact ⟨entry, .head _, congrArg Node.text? hkey, hspelled⟩
      · obtain ⟨other, hmem, hother⟩ := ih hrest
        exact ⟨other, .tail _ hmem, hother⟩

theorem permute {after : List (Node × Node)} (h : Tells parts entries)
    (hperm : entries.Perm after) : Tells parts after where
  texts := fun entry hentry => h.texts entry (hperm.mem_iff.mpr hentry)
  distinct := (hperm.map _).nodup_iff.mp h.distinct
  told := fun part hpart => by
    simp only [← hperm.mem_iff]
    exact h.told part hpart

theorem add {name : String} {style : Style} {value : Node} (h : Tells parts entries)
    (hforeign : ∀ part ∈ parts, part.name ≠ name)
    (hnew : ∀ entry ∈ entries, entry.1.text? ≠ some name) :
    Tells parts ((.scalar name style, value) :: entries) where
  texts := List.forall_mem_cons.mpr ⟨⟨name, rfl⟩, h.texts⟩
  distinct := by
    rw [List.map_cons, List.nodup_cons]
    refine ⟨fun hmem => ?_, h.distinct⟩
    obtain ⟨entry, hentry, hname⟩ := List.mem_map.mp hmem
    exact hnew entry hentry hname
  told := fun part hpart => by
    rcases h.told part hpart with ⟨entry, hentry, htold⟩ | ⟨homit, hmissing⟩
    · exact .inl ⟨entry, .tail _ hentry, htold⟩
    · have hne : (Node.scalar name style).text? ≠ some part.name :=
        fun heq => hforeign part hpart (Option.some.inj heq).symm
      exact .inr ⟨homit, List.forall_mem_cons.mpr ⟨hne, hmissing⟩⟩

theorem leaveOut {part : Part} {style : Style} {value : Node}
    (h : Tells parts ((.scalar part.name style, value) :: entries)) (homit : part.canOmit)
    (hunique : ∀ other ∈ parts, other.name = part.name → other = part) : Tells parts entries where
  texts := (List.forall_mem_cons.mp h.texts).2
  distinct := (List.nodup_cons.mp h.distinct).2
  told := fun other hother => by
    by_cases hname : other.name = part.name
    · -- nothing else stands under the name of the part that was left out
      obtain rfl := hunique other hother hname
      refine .inr ⟨homit, fun entry hentry htext => ?_⟩
      exact (List.nodup_cons.mp h.distinct).1 (List.mem_map.mpr ⟨entry, hentry, htext⟩)
    · rcases h.told other hother with ⟨entry, hentry, htext, hspelled⟩ | ⟨homit, hmissing⟩
      · rcases List.mem_cons.mp hentry with rfl | hrest
        · exact absurd (Option.some.inj htext).symm hname
        · exact .inl ⟨entry, hrest, htext, hspelled⟩
      · exact .inr ⟨homit, (List.forall_mem_cons.mp hmissing).2⟩

end Tells

/-- **Every spelling of a record tells its parts.** -/
theorem SpelledOut.tells {parts : List Part} {entries : List (Node × Node)}
    (h : SpelledOut parts entries) (hnames : (parts.map Part.name).Nodup) :
    Tells parts entries := by
  induction h with
  | full h => exact .full hnames h
  | permute _ hperm ih => exact ih.permute hperm
  | add _ style value hforeign hnew ih => exact ih.add hforeign hnew
  | leaveOut _ hpart homit ih =>
    exact ih.leaveOut homit fun other hother hname =>
      List.inj_on_of_nodup_map hnames hother hpart hname

namespace Config

/-! ## Reading a record -/

/-- The field that an entry writes, if its key is the name of one. -/
def known? (fields : List Field) (entry : Node × Node) : Option (String × Node) :=
  match entry.1.text? with
  | some name => if fields.any (·.name == name) then some (name, entry.2) else none
  | none => none

variable {fields : List Field} {parts : List Part} {entries : List (Node × Node)} {name : String}
  {written : Written}

theorem known?_eq_some {entry : Node × Node} {found : String × Node}
    (h : known? fields entry = some found) :
    entry.1.text? = some found.1 ∧ entry.2 = found.2 := by
  unfold known? at h
  cases htext : entry.1.text? with
  | none => simp [htext] at h
  | some name =>
    by_cases hfield : fields.any (·.name == name) = true
    · simp only [htext, hfield, if_true, Option.some.injEq] at h
      subst h
      exact ⟨rfl, rfl⟩
    · simp [htext, hfield] at h

/-- One entry that is right is read, or passed over if it names no field. -/
theorem readEntry_of_right {entry : Node × Node} (htext : entry.1.text? = some name)
    (hnew : written.lookup name = none)
    (hright : ∀ field ∈ fields, field.name = name → field.check entry.2 = .ok ()) :
    readEntry fields written entry = .ok (written ++ (known? fields entry).toList) := by
  obtain ⟨key, value⟩ := entry
  cases key with
  | scalar text style =>
    obtain rfl := Option.some.inj htext
    cases hfind : fields.find? fun field => field.name == text with
    | none =>
      have hnone : fields.any (·.name == text) = false := by
        rw [List.any_eq_false]
        exact List.find?_eq_none.mp hfind
      simp [readEntry, known?, Node.text?, hfind, hnone]
    | some field =>
      have hmem : field ∈ fields := List.mem_of_find?_eq_some hfind
      have hname : field.name = text := by simpa using List.find?_some hfind
      have hany : fields.any (·.name == text) = true :=
        List.any_eq_true.mpr ⟨field, hmem, beq_iff_eq.mpr hname⟩
      have hcheck := hright field hmem hname
      simp [readEntry, known?, Node.text?, hfind, hany, hnew, hcheck, within, Except.map]
  | sequence items => cases htext
  | mapping inner => cases htext

/-- **Entries with different texts as keys, all of them right, are read one after another.** -/
theorem foldlM_readEntry (htexts : ∀ entry ∈ entries, ∃ name, entry.1.text? = some name)
    (hdistinct : (entries.map fun entry => entry.1.text?).Nodup)
    (hright : ∀ entry ∈ entries, ∀ field ∈ fields, entry.1.text? = some field.name →
      field.check entry.2 = .ok ())
    (hnew : ∀ entry ∈ entries, ∀ name, entry.1.text? = some name → written.lookup name = none) :
    entries.foldlM (readEntry fields) written =
      .ok (written ++ entries.filterMap (known? fields)) := by
  induction entries generalizing written with
  | nil =>
    rw [List.filterMap_nil, List.append_nil]
    rfl
  | cons entry rest ih =>
    rw [List.forall_mem_cons] at htexts hright hnew
    rw [List.map_cons, List.nodup_cons] at hdistinct
    obtain ⟨name, htext⟩ := htexts.1
    have hentry := readEntry_of_right htext (hnew.1 name htext) fun field hfield hname =>
      hright.1 field hfield (hname ▸ htext)
    rw [List.foldlM_cons, hentry]
    show rest.foldlM (readEntry fields) (written ++ (known? fields entry).toList) = _
    rw [ih htexts.2 hdistinct.2 hright.2, List.append_assoc]
    · cases hknown : known? fields entry with
      | none => rw [List.filterMap_cons_none hknown]; rfl
      | some found => rw [List.filterMap_cons_some hknown]; rfl
    · intro other hother otherName hotherText
      rw [List.lookup_append, hnew.2 other hother otherName hotherText, Option.none_or]
      -- the entry that was read has another key
      refine lookup_of_not_mem fun hmem => ?_
      obtain ⟨found, hfound, rfl⟩ := List.mem_map.mp hmem
      have hkey := (known?_eq_some (Option.mem_toList.mp hfound)).1
      exact hdistinct.1 (List.mem_map.mpr ⟨other, hother, hotherText.trans hkey.symm⟩)

/-- A part that was read: what stands under its name spells it, or it may be missing. -/
def WasRead (written : Written) (part : Part) : Prop :=
  (∃ value, written.lookup part.name = some value ∧ part.spelled value) ∨
    (part.canOmit ∧ written.lookup part.name = none)

/-- What stands under the name of a field is found among the fields that were read. -/
theorem lookup_known {entry : Node × Node}
    (hdistinct : (entries.map fun entry => entry.1.text?).Nodup)
    (hfield : fields.any (·.name == name) = true) (hentry : entry ∈ entries)
    (htext : entry.1.text? = some name) :
    (entries.filterMap (known? fields)).lookup name = some entry.2 := by
  induction entries with
  | nil => cases hentry
  | cons first rest ih =>
    rw [List.map_cons, List.nodup_cons] at hdistinct
    rcases List.mem_cons.mp hentry with rfl | hrest
    · have hknown : known? fields entry = some (name, entry.2) := by
        simp [known?, htext, hfield]
      rw [List.filterMap_cons_some hknown, List.lookup_cons_self]
    · cases hknown : known? fields first with
      | none =>
        rw [List.filterMap_cons_none hknown]
        exact ih hdistinct.2 hrest
      | some found =>
        have hne : name ≠ found.1 := by
          rintro rfl
          have hfirst := (known?_eq_some hknown).1
          exact hdistinct.1 (List.mem_map.mpr ⟨entry, hrest, htext.trans hfirst.symm⟩)
        rw [List.filterMap_cons_some hknown, List.lookup_cons, beq_eq_false_iff_ne.mpr hne]
        exact ih hdistinct.2 hrest

/-- Where nothing stands under a name, nothing is found. -/
theorem lookup_known_eq_none (h : ∀ entry ∈ entries, entry.1.text? ≠ some name) :
    (entries.filterMap (known? fields)).lookup name = none := by
  refine lookup_of_not_mem fun hmem => ?_
  obtain ⟨found, hfound, rfl⟩ := List.mem_map.mp hmem
  obtain ⟨entry, hentry, hknown⟩ := List.mem_filterMap.mp hfound
  exact h entry hentry (known?_eq_some hknown).1

/-- A field checks what a part spells. -/
def Checks (part : Part) (field : Field) : Prop :=
  field.name = part.name ∧ ∀ value, part.spelled value → field.check value = .ok ()

theorem exists_checks_of_mem {field : Field} (h : List.Forall₂ Checks parts fields)
    (hmem : field ∈ fields) : ∃ part ∈ parts, Checks part field := by
  induction h with
  | nil => cases hmem
  | cons hfirst _ ih =>
    rcases List.mem_cons.mp hmem with rfl | hrest
    · exact ⟨_, .head _, hfirst⟩
    · obtain ⟨part, hpart, hchecks⟩ := ih hrest
      exact ⟨part, .tail _ hpart, hchecks⟩

theorem any_of_checks {part : Part} (h : List.Forall₂ Checks parts fields) (hmem : part ∈ parts) :
    fields.any (·.name == part.name) = true := by
  induction h with
  | nil => cases hmem
  | cons hfirst _ ih =>
    rw [List.any_cons, Bool.or_eq_true]
    rcases List.mem_cons.mp hmem with rfl | hrest
    · exact .inl (beq_iff_eq.mpr hfirst.1)
    · exact .inr (ih hrest)

/-- **A mapping that tells the parts of a record is read**, and every part with it. -/
theorem readFields_of_tells (h : Tells parts entries) (hchecks : List.Forall₂ Checks parts fields)
    (record : String) :
    ∃ written, readFields record fields (.mapping entries) = .ok written ∧
      ∀ part ∈ parts, WasRead written part := by
  have hright : ∀ entry ∈ entries, ∀ field ∈ fields, entry.1.text? = some field.name →
      field.check entry.2 = .ok () := by
    intro entry hentry field hfield htext
    obtain ⟨part, hpart, hname, hcheck⟩ := exists_checks_of_mem hchecks hfield
    rw [hname] at htext
    rcases h.told part hpart with ⟨told, htold, htoldText, hspelled⟩ | ⟨-, hmissing⟩
    · rw [h.eq_of_text?_eq hentry htold (htext.trans htoldText.symm)]
      exact hcheck told.2 hspelled
    · exact absurd htext (hmissing entry hentry)
  refine ⟨entries.filterMap (known? fields), ?_, fun part hpart => ?_⟩
  · show entries.foldlM (readEntry fields) [] = _
    rw [foldlM_readEntry h.texts h.distinct hright fun _ _ _ _ => rfl, List.nil_append]
  · rcases h.told part hpart with ⟨entry, hentry, htext, hspelled⟩ | ⟨homit, hmissing⟩
    · exact .inl ⟨entry.2, lookup_known h.distinct (any_of_checks hchecks hpart) hentry htext,
        hspelled⟩
    · exact .inr ⟨homit, lookup_known_eq_none hmissing⟩

/-! ## Sections -/

section

variable {α : Type} {part : Part} {decode : Node → Decoded α} {a otherwise : α}

/-- The value of a part that was read, which may have been left out. -/
theorem fieldOr_of_wasRead (h : WasRead written part)
    (hspelled : ∀ value, part.spelled value → decode value = .ok a)
    (homit : part.canOmit → a = otherwise) :
    fieldOr written part.name decode otherwise = .ok a := by
  rcases h with ⟨value, hlookup, hvalue⟩ | ⟨hstandard, hlookup⟩
  · rw [fieldOr, hlookup]
    simp only [hspelled value hvalue, within]
  · rw [fieldOr, hlookup, homit hstandard]

/-- The value of a part that was read and had to be there. -/
theorem fieldOf_of_wasRead (h : WasRead written part)
    (hspelled : ∀ value, part.spelled value → decode value = .ok a) (homit : ¬ part.canOmit) :
    fieldOf written part.name decode = .ok a := by
  rcases h with ⟨value, hlookup, hvalue⟩ | ⟨hstandard, -⟩
  · rw [fieldOf, hlookup]
    simp only [hspelled value hvalue, within]
  · exact absurd hstandard homit

/-- A value that is decoded passes the check of its field. -/
theorem checks_of {name : String} {spelled : Node → Prop} {canOmit : Prop}
    (h : ∀ value, spelled value → decode value = .ok a) :
    Checks ⟨name, spelled, canOmit⟩ (.of name decode) := by
  refine ⟨rfl, fun value hvalue => ?_⟩
  show (decode value).map (fun _ => ()) = .ok ()
  rw [h value hvalue]
  rfl

end

/-- **The storage section is decoded in any spelling.** -/
theorem storageOf_of_spells {config : StorageConfig} {node : Node}
    (h : Spells config.parts node) : storageOf node = .ok config := by
  obtain ⟨entries, rfl, hspelled⟩ := h
  have htells := hspelled.tells (show ["backend", "redis_url", "timeout_ms"].Nodup by decide)
  have hbackend : ∀ value, value = .ofText config.backend.name →
      backendOf value = .ok config.backend := fun _ h => h ▸ backendOf_ofText_name _
  have hurl : ∀ value, value = .ofText config.redisUrl → textOf value = .ok config.redisUrl :=
    fun _ h => h ▸ textOf_ofText _
  have htimeout : ∀ value, value = .ofWord64 config.timeoutMillis →
      word64Of value = .ok config.timeoutMillis := fun _ h => h ▸ word64Of_ofWord64 _
  obtain ⟨written, hread, hparts⟩ := readFields_of_tells htells
    (.cons (checks_of hbackend) (.cons (checks_of hurl) (.cons (checks_of htimeout) .nil)))
    "StorageConfig"
  simp only [StorageConfig.parts, List.forall_mem_cons] at hparts
  obtain ⟨hreadBackend, hreadUrl, hreadTimeout, -⟩ := hparts
  unfold storageOf
  simp only [hread, fieldOr_of_wasRead hreadBackend hbackend id, bind, Except.bind, pure,
    Except.pure, fieldOr_of_wasRead hreadUrl hurl id, fieldOr_of_wasRead hreadTimeout htimeout id]

/-- **The identity section is decoded in any spelling.** -/
theorem identityOf_of_spells {config : IdentityConfig} {node : Node}
    (h : Spells config.parts node) : identityOf node = .ok config := by
  obtain ⟨entries, rfl, hspelled⟩ := h
  have htells := hspelled.tells (show ["trusted_proxies"].Nodup by decide)
  have hproxies : ∀ value, value = .ofTexts config.trustedProxies →
      listOf textOf value = .ok config.trustedProxies := fun _ h => h ▸ listOf_ofTexts _
  obtain ⟨written, hread, hparts⟩ := readFields_of_tells htells
    (.cons (checks_of hproxies) .nil) "IdentityConfig"
  simp only [IdentityConfig.parts, List.forall_mem_cons] at hparts
  unfold identityOf
  simp only [hread, fieldOr_of_wasRead hparts.1 hproxies id, bind, Except.bind, pure, Except.pure]

/-- **The access section is decoded in any spelling.** -/
theorem accessOf_of_spells {config : AccessConfig} {node : Node}
    (h : Spells config.parts node) : accessOf node = .ok config := by
  obtain ⟨entries, rfl, hspelled⟩ := h
  have htells :=
    hspelled.tells (show ["safelist", "blocklist", "blocklist_cidrs"].Nodup by decide)
  have htexts : ∀ texts value, value = .ofTexts texts → listOf textOf value = .ok texts :=
    fun _ _ h => h ▸ listOf_ofTexts _
  obtain ⟨written, hread, hparts⟩ := readFields_of_tells htells
    (.cons (checks_of (htexts _)) (.cons (checks_of (htexts _))
      (.cons (checks_of (htexts _)) .nil))) "AccessConfig"
  simp only [AccessConfig.parts, List.forall_mem_cons] at hparts
  obtain ⟨hsafelist, hblocklist, hcidrs, -⟩ := hparts
  unfold accessOf
  simp only [hread, fieldOr_of_wasRead hsafelist (htexts _) id, bind, Except.bind, pure,
    Except.pure, fieldOr_of_wasRead hblocklist (htexts _) id,
    fieldOr_of_wasRead hcidrs (htexts _) id]

/-- **A rule is decoded in any spelling.** -/
theorem ruleOf_of_spells {config : RuleConfig} {node : Node} (h : Spells config.parts node) :
    ruleOf node = .ok config := by
  obtain ⟨entries, rfl, hspelled⟩ := h
  have htells := hspelled.tells
    (show ["name", "path", "method", "key", "limit", "period_secs"].Nodup by decide)
  have hname : ∀ value, value = .ofText? config.name → optionalTextOf value = .ok config.name :=
    fun _ h => h ▸ optionalTextOf_ofText? _
  have htext : ∀ text value, value = .ofText text → textOf value = .ok text :=
    fun _ _ h => h ▸ textOf_ofText _
  have hnumber : ∀ n value, value = .ofWord64 n → word64Of value = .ok n :=
    fun _ _ h => h ▸ word64Of_ofWord64 _
  obtain ⟨written, hread, hparts⟩ := readFields_of_tells htells
    (.cons (checks_of hname) (.cons (checks_of (htext _)) (.cons (checks_of (htext _))
      (.cons (checks_of (htext _)) (.cons (checks_of (hnumber _))
        (.cons (checks_of (hnumber _)) .nil)))))) "RuleConfig"
  simp only [RuleConfig.parts, List.forall_mem_cons] at hparts
  obtain ⟨hreadName, hreadPath, hreadMethod, hreadKey, hreadLimit, hreadPeriod, -⟩ := hparts
  unfold ruleOf
  simp only [hread, fieldOr_of_wasRead hreadName hname id, bind, Except.bind, pure, Except.pure,
    fieldOr_of_wasRead hreadPath (htext _) id, fieldOr_of_wasRead hreadMethod (htext _) id,
    fieldOf_of_wasRead hreadKey (htext _) id, fieldOf_of_wasRead hreadLimit (hnumber _) id,
    fieldOf_of_wasRead hreadPeriod (hnumber _) id]

/-- **A configuration is decoded in any spelling.** -/
theorem ofNode_of_isSpelledBy {config : Config} {node : Node} (h : config.IsSpelledBy node) :
    ofNode node = .ok config := by
  obtain ⟨entries, rfl, hspelled⟩ := h
  have htells := hspelled.tells (show ["storage", "identity", "access", "rules"].Nodup by decide)
  have hstorage : ∀ value, Spells config.storage.parts value →
      storageOf value = .ok config.storage := fun _ => storageOf_of_spells
  have hidentity : ∀ value, Spells config.identity.parts value →
      identityOf value = .ok config.identity := fun _ => identityOf_of_spells
  have haccess : ∀ value, Spells config.access.parts value →
      accessOf value = .ok config.access := fun _ => accessOf_of_spells
  have hrules : ∀ value, SpellsRules config.rules value →
      listOf ruleOf value = .ok config.rules := by
    rintro _ ⟨nodes, rfl, hnodes⟩
    exact itemsFrom_of_forall₂ (hnodes.imp fun _ _ => ruleOf_of_spells) 0
  obtain ⟨written, hread, hparts⟩ := readFields_of_tells htells
    (.cons (checks_of hstorage) (.cons (checks_of hidentity) (.cons (checks_of haccess)
      (.cons (checks_of hrules) .nil)))) "GatekeeperConfig"
  simp only [parts, List.forall_mem_cons] at hparts
  obtain ⟨hreadStorage, hreadIdentity, hreadAccess, hreadRules, -⟩ := hparts
  unfold ofNode
  simp only [hread, fieldOr_of_wasRead hreadStorage hstorage id, bind, Except.bind, pure,
    Except.pure, fieldOr_of_wasRead hreadIdentity hidentity id,
    fieldOr_of_wasRead hreadAccess haccess id, fieldOr_of_wasRead hreadRules hrules id]

/-! ## The tree of a configuration -/

/-- The fields of a record in order spell it. -/
theorem spells_record {fields : List (String × Node)} (keys : Style)
    (h : List.Forall₂ (fun part field => field.1 = part.name ∧ part.spelled field.2) parts
      fields) : Spells parts (.record keys fields) := by
  refine ⟨Node.entries keys fields, rfl, .full ?_⟩
  induction h with
  | nil => exact .nil
  | @cons part field _ _ hfield _ ih =>
    obtain ⟨name, value⟩ := field
    obtain ⟨rfl, hspelled⟩ := hfield
    exact .cons ⟨keys, rfl, hspelled⟩ ih

/-- **The tree of a configuration spells it.** -/
theorem isSpelledBy_tree (keys : Style) (config : Config) :
    config.IsSpelledBy (config.tree keys) := by
  have hstorage : Spells config.storage.parts (.record keys config.storage.fields) :=
    spells_record keys (.cons ⟨rfl, rfl⟩ (.cons ⟨rfl, rfl⟩ (.cons ⟨rfl, rfl⟩ .nil)))
  have hidentity : Spells config.identity.parts (.record keys config.identity.fields) :=
    spells_record keys (.cons ⟨rfl, rfl⟩ .nil)
  have haccess : Spells config.access.parts (.record keys config.access.fields) :=
    spells_record keys (.cons ⟨rfl, rfl⟩ (.cons ⟨rfl, rfl⟩ (.cons ⟨rfl, rfl⟩ .nil)))
  have hrule : ∀ rule : RuleConfig, Spells rule.parts (.record keys rule.fields) := fun rule =>
    spells_record keys (.cons ⟨rfl, rfl⟩ (.cons ⟨rfl, rfl⟩ (.cons ⟨rfl, rfl⟩ (.cons ⟨rfl, rfl⟩
      (.cons ⟨rfl, rfl⟩ (.cons ⟨rfl, rfl⟩ .nil))))))
  have hrules : SpellsRules config.rules
      (.sequence (config.rules.map fun rule => .record keys rule.fields)) := by
    refine ⟨_, rfl, ?_⟩
    rw [List.forall₂_map_right_iff, List.forall₂_same]
    exact fun rule _ => hrule rule
  exact spells_record keys (.cons ⟨rfl, hstorage⟩ (.cons ⟨rfl, hidentity⟩
    (.cons ⟨rfl, haccess⟩ (.cons ⟨rfl, hrules⟩ .nil))))

/-- **A configuration is decoded as it was written.** -/
theorem ofNode_tree (keys : Style) (config : Config) : ofNode (config.tree keys) = .ok config :=
  ofNode_of_isSpelledBy (isSpelledBy_tree keys config)

/-- **A configuration is decoded from every spelling of it.** Its own tree spells it, however the
keys are written; and whatever spells it, with its entries in another order, with more keys, or
without what has its standard value, is decoded as the configuration. So is every text that is read
as such a tree. -/
theorem decoded_however_spelled (config : Config) :
    (∀ keys, config.IsSpelledBy (config.tree keys)) ∧
      ∀ node, config.IsSpelledBy node → ofNode node = .ok config ∧
        ∀ text, Node.ofString? text = some [node] → ofYaml text = .ok config := by
  refine ⟨fun keys => isSpelledBy_tree keys config, fun node hspelled => ?_⟩
  have hdecoded := ofNode_of_isSpelledBy hspelled
  refine ⟨hdecoded, fun text htext => ?_⟩
  rw [ofYaml, htext]
  simp only [hdecoded]

/-- A document in another order, with more keys, and without most of the fields. -/
theorem decoded_however_spelled_of_sparse :
    ofYaml ("\x7bextra: [1, 2], rules: [\x7blimit: 5, \"key\": \"k\", note: null, " ++
        "period_secs: 60\x7d], storage: \x7bbackend: \"redis\"\x7d\x7d") =
      .ok { storage := { backend := .redis },
            rules := [{ key := "k", limit := 5, periodSecs := 60 }] } := by
  let storage : StorageConfig := { backend := .redis }
  let rule : RuleConfig := { key := "k", limit := 5, periodSecs := 60 }
  let storageNode : Node := .mapping [(.scalar "backend" .plain, .ofText "redis")]
  let ruleNode : Node := .mapping
    [(.scalar "limit" .plain, .ofWord64 5), (.scalar "key" .quoted, .ofText "k"),
      (.scalar "note" .plain, .scalar "null" .plain), (.scalar "period_secs" .plain, .ofWord64 60)]
  let node : Node := .mapping
    [(.scalar "extra" .plain, .sequence [.scalar "1" .plain, .scalar "2" .plain]),
      (.scalar "rules" .plain, .sequence [ruleNode]), (.scalar "storage" .plain, storageNode)]
  have htext : Node.ofString? (String.ofList node.flow) = some [node] :=
    Yaml.ofString?_flow node (by decide +kernel) fun _ _ h => nomatch h
  have hflow : String.ofList node.flow =
      "\x7bextra: [1, 2], rules: [\x7blimit: 5, \"key\": \"k\", note: null, " ++
        "period_secs: 60\x7d], storage: \x7bbackend: \"redis\"\x7d\x7d" := by
    decide +kernel
  have hstorage : Spells storage.parts storageNode := by
    have hfull : SpelledOut storage.parts
        [(.scalar "backend" .plain, .ofText "redis"),
          (.scalar "redis_url" .plain, .ofText storage.redisUrl),
          (.scalar "timeout_ms" .plain, .ofWord64 250)] :=
      .full (.cons ⟨_, rfl, rfl⟩ (.cons ⟨_, rfl, rfl⟩ (.cons ⟨_, rfl, rfl⟩ .nil)))
    have hlast := hfull.permute (@List.perm_append_comm _ [_] [_, _])
    exact ⟨_, rfl, (hlast.leaveOut (.tail _ (.head _)) rfl).leaveOut
      (.tail _ (.tail _ (.head _))) rfl⟩
  have hrule : Spells rule.parts ruleNode := by
    have hfull : SpelledOut rule.parts
        [(.scalar "name" .plain, .ofText? none), (.scalar "path" .plain, .ofText ""),
          (.scalar "method" .plain, .ofText ""), (.scalar "key" .quoted, .ofText "k"),
          (.scalar "limit" .plain, .ofWord64 5), (.scalar "period_secs" .plain, .ofWord64 60)] :=
      .full (.cons ⟨_, rfl, rfl⟩ (.cons ⟨_, rfl, rfl⟩ (.cons ⟨_, rfl, rfl⟩
        (.cons ⟨_, rfl, rfl⟩ (.cons ⟨_, rfl, rfl⟩ (.cons ⟨_, rfl, rfl⟩ .nil))))))
    have hleft := ((hfull.leaveOut (.head _) rfl).leaveOut (.tail _ (.head _)) rfl).leaveOut
      (.tail _ (.tail _ (.head _))) rfl
    have hnoted := hleft.add .plain (.scalar "null" .plain)
      (show ∀ part ∈ rule.parts, part.name ≠ "note" by simp [RuleConfig.parts])
      (by simp [Node.text?])
    exact ⟨_, rfl, hnoted.permute ((List.reverse_perm [_, _, _]).symm.append_right [_])⟩
  have hnode : Config.IsSpelledBy { storage := storage, rules := [rule] } node := by
    have hidentity : Spells ({} : IdentityConfig).parts
        (.record .plain ({} : IdentityConfig).fields) :=
      spells_record .plain (.cons ⟨rfl, rfl⟩ .nil)
    have haccess : Spells ({} : AccessConfig).parts (.record .plain ({} : AccessConfig).fields) :=
      spells_record .plain (.cons ⟨rfl, rfl⟩ (.cons ⟨rfl, rfl⟩ (.cons ⟨rfl, rfl⟩ .nil)))
    have hfull : SpelledOut (Config.parts { storage := storage, rules := [rule] })
        [(.scalar "storage" .plain, storageNode), (.scalar "identity" .plain, _),
          (.scalar "access" .plain, _), (.scalar "rules" .plain, .sequence [ruleNode])] :=
      .full (.cons ⟨_, rfl, hstorage⟩ (.cons ⟨_, rfl, hidentity⟩ (.cons ⟨_, rfl, haccess⟩
        (.cons ⟨_, rfl, [ruleNode], rfl, .cons hrule .nil⟩ .nil))))
    have hlast := hfull.permute (@List.perm_append_comm _ [_] [_, _, _])
    have hleft := (hlast.leaveOut (.tail _ (.head _)) rfl).leaveOut
      (.tail _ (.tail _ (.head _))) rfl
    exact ⟨_, rfl, hleft.add .plain _
      (show ∀ part ∈ Config.parts { storage := storage, rules := [rule] }, part.name ≠ "extra" by
        simp [Config.parts]) (by simp [Node.text?])⟩
  rw [← hflow]
  exact ((decoded_however_spelled _).2 node hnode).2 _ htext

end Config

end Admission
