import Mathlib.Data.List.Induction
import Mathlib.Data.Set.Card
import Admission.Proofs.Store.Commands
/-!
# What is stored

A counter whose window is over takes up room until a purge drops it. How much room is taken can be
read off a history, key by key: a counter is stored from an increment of its key on until the store
is cleared or a purge drops it, and again from the next increment on. `Kept` says this.

1. `Counters.encard_stored`: the size of a table is the number of keys that are found in it
2. `kept_append_singleton`, `stored_iff_kept`: a counter is stored exactly for the keys that are
   kept
3. `purgeAccount`: what a purge drops, what it leaves, and the number that it tells
4. `storage_accounted`: hence the size of the table after a history, and the account of its purges

Step 2 is an induction over the history from its end, with one case for each kind of command.
Nothing is assumed about the order of the instants.
-/

namespace Admission

theorem Counter.isOver_iff {counter : Counter} {now : Nat} :
    counter.isOver now = true ↔ ∃ instant, counter.endsAt = some instant ∧ instant ≤ now := by
  unfold isOver
  cases counter.endsAt <;> simp

namespace Counters

variable {table : Counters} {key : String} {now : Nat}

theorem findIn_ne_none_iff {entries : List (String × Counter)} :
    findIn key entries ≠ none ↔ key ∈ entries.map Prod.fst := by
  induction entries with
  | nil => simp [findIn]
  | cons entry rest ih =>
    by_cases h : entry.1 = key
    · simp [findIn, h]
    · rw [findIn, if_neg h, ih, List.map_cons, List.mem_cons, or_iff_right (Ne.symm h)]

/-- **The size of a table is the number of keys that are found in it.** -/
theorem encard_stored (table : Counters) : {key | table.find? key ≠ none}.encard = table.size := by
  have hkeys : {key | table.find? key ≠ none} =
      ((table.entries.map Prod.fst).toFinset : Set String) := by
    ext key
    rw [List.coe_toFinset]
    exact findIn_ne_none_iff
  rw [hkeys, Set.encard_coe_eq_coe_finsetCard, List.toFinset_card_of_nodup table.nodup,
    List.length_map, size]

theorem size_purge_le (table : Counters) (now : Nat) : (table.purge now).size ≤ table.size :=
  List.length_filter_le _ _

theorem find?_ne_none_of_purge (h : (table.purge now).find? key ≠ none) :
    table.find? key ≠ none := by
  intro hnone
  rw [find?_purge, live?, hnone] at h
  exact h rfl

/-- **A purge leaves exactly the counters whose window is not over**, with count and end. -/
theorem find?_purge_eq_some_iff {counter : Counter} :
    (table.purge now).find? key = some counter ↔
      table.find? key = some counter ∧
        ¬ ∃ instant, counter.endsAt = some instant ∧ instant ≤ now := by
  rw [find?_purge, live?_eq_some_iff, ← Counter.isOver_iff, Bool.not_eq_true]

/-- **A purge drops exactly the stored counters whose end is not later.** -/
theorem dropped_iff :
    (table.find? key ≠ none ∧ (table.purge now).find? key = none) ↔
      ∃ counter instant, table.find? key = some counter ∧ counter.endsAt = some instant ∧
        instant ≤ now := by
  cases hf : table.find? key with
  | none => simp
  | some counter =>
    have hkept : (table.purge now).find? key = none ↔ counter.isOver now = true := by
      rw [find?_purge, live?, hf, Option.filter_some]
      cases counter.isOver now <;> simp
    rw [hkept, Counter.isOver_iff]
    simp

/-- Right after a purge what is stored is what can be read. -/
theorem count?_purge_ne_none_iff :
    (table.purge now).count? now key ≠ none ↔ (table.purge now).find? key ≠ none := by
  rw [count?, live?_purge (Nat.le_refl now), find?_purge, ne_eq, Option.map_eq_none_iff]

theorem encard_dropped (table : Counters) (now : Nat) :
    {key | table.find? key ≠ none ∧ (table.purge now).find? key = none}.encard +
      (table.purge now).size = table.size := by
  have hsplit : {key | table.find? key ≠ none} =
      {key | table.find? key ≠ none ∧ (table.purge now).find? key = none} ∪
        {key | (table.purge now).find? key ≠ none} := by
    ext key
    have hmono : (table.purge now).find? key ≠ none → table.find? key ≠ none :=
      find?_ne_none_of_purge
    simp only [Set.mem_union, Set.mem_ofPred_eq]
    tauto
  have hdisjoint : Disjoint
      {key | table.find? key ≠ none ∧ (table.purge now).find? key = none}
      {key | (table.purge now).find? key ≠ none} :=
    Set.disjoint_left.mpr fun key hdropped hkept => hkept hdropped.2
  rw [← encard_stored table, hsplit, Set.encard_union_eq hdisjoint, encard_stored]

end Counters

namespace Store

open Counters

/-! ## The keys that are kept -/

/-- Since the store was last cleared, a command has incremented the key. -/
def Incremented (key : String) (history : List Issued) : Prop :=
  ∃ before issued after, history = before ++ issued :: after ∧
    issued.command.increments key = true ∧ ∀ later ∈ after, later.command ≠ .clear

/-- A purge after a history takes the counter of the key out of the table. -/
def Dropped (key : String) (before : List Issued) (time : Nat) : Prop :=
  (leftBy before .empty).find? key ≠ none ∧
    (leftBy (before ++ [⟨time, .purge⟩]) .empty).find? key = none

/-- The key was incremented since the store was last cleared, and was incremented again after each
purge that has dropped its counter. -/
def Kept (key : String) (history : List Issued) : Prop :=
  Incremented key history ∧
    ∀ before time after, history = before ++ ⟨time, .purge⟩ :: after → Dropped key before time →
      ∃ later ∈ after, later.command.increments key = true

variable {key : String} {history before after : List Issued} {issued last : Issued}

theorem append_singleton_eq_iff :
    history ++ [last] = before ++ issued :: after ↔
      (before = history ∧ issued = last ∧ after = []) ∨
        ∃ rest, after = rest ++ [last] ∧ history = before ++ issued :: rest := by
  constructor
  · intro h
    cases after using List.reverseRecOn with
    | nil =>
      obtain ⟨rfl, hlast⟩ := List.append_inj' h rfl
      exact .inl ⟨rfl, (List.singleton_inj.mp hlast).symm, rfl⟩
    | append_singleton rest final =>
      rw [← List.cons_append, ← List.append_assoc] at h
      obtain ⟨rfl, hlast⟩ := List.append_inj' h rfl
      exact .inr ⟨rest, by rw [List.singleton_inj.mp hlast], rfl⟩
  · rintro (⟨rfl, rfl, rfl⟩ | ⟨rest, rfl, rfl⟩)
    · rfl
    · simp

theorem incremented_append_singleton :
    Incremented key (history ++ [last]) ↔
      last.command.increments key = true ∨ (Incremented key history ∧ last.command ≠ .clear) := by
  constructor
  · rintro ⟨before, issued, after, hsplit, hincrements, hclear⟩
    rcases append_singleton_eq_iff.mp hsplit with ⟨-, rfl, -⟩ | ⟨rest, rfl, rfl⟩
    · exact .inl hincrements
    · refine .inr ⟨⟨before, issued, rest, rfl, hincrements, fun later hlater => ?_⟩, ?_⟩
      · exact hclear later (List.mem_append_left _ hlater)
      · exact hclear last (by simp)
  · rintro (hincrements | ⟨⟨before, issued, after, rfl, hincrements, hclear⟩, hlast⟩)
    · exact ⟨history, last, [], rfl, hincrements, by simp⟩
    · refine ⟨before, issued, after ++ [last], by simp, hincrements, fun later hlater => ?_⟩
      rcases List.mem_append.mp hlater with hlater | hlater
      · exact hclear later hlater
      · rw [List.mem_singleton.mp hlater]
        exact hlast

/-- **One more command**: it increments the key, or the key was kept and is kept. -/
theorem kept_append_singleton :
    Kept key (history ++ [last]) ↔
      last.command.increments key = true ∨ (Kept key history ∧ last.command ≠ .clear ∧
        (last.command = .purge → ¬ Dropped key history last.time)) := by
  constructor
  · rintro ⟨hincremented, hpurges⟩
    by_cases hincrements : last.command.increments key = true
    · exact .inl hincrements
    obtain ⟨hkept, hclear⟩ :=
      (incremented_append_singleton.mp hincremented).resolve_left hincrements
    refine .inr ⟨⟨hkept, fun before time after hsplit hdropped => ?_⟩, hclear, ?_⟩
    · obtain ⟨later, hlater, hagain⟩ :=
        hpurges before time (after ++ [last]) (by simp [hsplit]) hdropped
      rcases List.mem_append.mp hlater with hlater | hlater
      · exact ⟨later, hlater, hagain⟩
      · rw [List.mem_singleton.mp hlater] at hagain
        exact absurd hagain hincrements
    · intro hpurge hdropped
      obtain ⟨time, command⟩ := last
      obtain rfl : command = .purge := hpurge
      obtain ⟨later, hlater, -⟩ := hpurges history time [] rfl hdropped
      cases hlater
  · rintro (hincrements | ⟨⟨hincremented, hpurges⟩, hclear, hlast⟩)
    · refine ⟨incremented_append_singleton.mpr (.inl hincrements), ?_⟩
      intro before time after hsplit _
      rcases append_singleton_eq_iff.mp hsplit with ⟨-, rfl, -⟩ | ⟨rest, rfl, -⟩
      · cases hincrements
      · exact ⟨last, by simp, hincrements⟩
    · refine ⟨incremented_append_singleton.mpr (.inr ⟨hincremented, hclear⟩), ?_⟩
      intro before time after hsplit hdropped
      rcases append_singleton_eq_iff.mp hsplit with ⟨rfl, rfl, -⟩ | ⟨rest, rfl, rfl⟩
      · exact absurd hdropped (hlast rfl)
      · obtain ⟨later, hlater, hagain⟩ := hpurges before time rest rfl hdropped
        exact ⟨later, List.mem_append_left _ hlater, hagain⟩

/-- **A counter is stored exactly for the keys that are kept.** -/
theorem stored_iff_kept (history : List Issued) (key : String) :
    (leftBy history .empty).find? key ≠ none ↔ Kept key history := by
  induction history using List.reverseRecOn with
  | nil => simp [Kept, Incremented]
  | append_singleton history last ih =>
    rw [kept_append_singleton, leftBy_append_singleton, ← ih]
    by_cases hincrements : last.command.increments key = true
    · exact iff_of_true (find?_left_of_increments hincrements) (.inl hincrements)
    rw [or_iff_right hincrements]
    obtain ⟨time, command⟩ := last
    by_cases hclear : command = .clear
    · subst hclear
      simp
    by_cases hpurge : command = .purge
    · subst hpurge
      have hleft : leftBy (history ++ [⟨time, .purge⟩]) .empty =
          (leftBy history .empty).purge time := leftBy_append_singleton _ _ _
      have hmono : ((leftBy history .empty).purge time).find? key ≠ none →
          (leftBy history .empty).find? key ≠ none := find?_ne_none_of_purge
      simp only [Dropped, hleft, left_purge, ne_eq, reduceCtorEq, not_false_eq_true, true_and,
        forall_const]
      tauto
    · rw [find?_left_ne_none_iff (by simpa using hincrements) hpurge hclear]
      simp [hpurge, hclear]

/-! ## The account of a purge -/

/-- What a purge at an instant does to a table, and what it tells. -/
structure PurgeAccount (table purged : Counters) (time : Nat) (told : Told) : Prop where
  /-- It drops exactly the stored counters whose end is not later. -/
  drops : ∀ key, (table.find? key ≠ none ∧ purged.find? key = none) ↔
    ∃ counter instant, table.find? key = some counter ∧ counter.endsAt = some instant ∧
      instant ≤ time
  /-- It leaves all others, with their counts and ends, and adds none. -/
  keeps : ∀ key counter, purged.find? key = some counter ↔
    table.find? key = some counter ∧ ¬ ∃ instant, counter.endsAt = some instant ∧ instant ≤ time
  /-- It tells by how much the size goes down, which is the number of dropped counters. -/
  tells : ∃ number, told = .dropped number ∧ number + purged.size = table.size ∧
    {key | table.find? key ≠ none ∧ purged.find? key = none}.encard = number
  /-- As many counters are stored after it as can be read. -/
  shows : {key | purged.count? time key ≠ none}.encard = purged.size

theorem purgeAccount (table : Counters) (time : Nat) :
    PurgeAccount table (table.purge time) time ((Issued.mk time .purge).told table) where
  drops _ := dropped_iff
  keeps _ _ := find?_purge_eq_some_iff
  tells := by
    have hsum := Nat.sub_add_cancel (size_purge_le table time)
    refine ⟨table.size - (table.purge time).size, told_purge time table, hsum, ?_⟩
    have hcount := encard_dropped table time
    rw [← hsum, Nat.cast_add] at hcount
    exact WithTop.add_right_cancel (ENat.natCast_ne_top _) hcount
  shows := by
    simp only [count?_purge_ne_none_iff]
    exact encard_stored _

/--
**Storage is accounted for.** After every history on an empty store the size of the table is the
number of keys that were incremented since the store was last cleared and that no later purge has
dropped without their being incremented again, so that it is at most the number of keys incremented
since then. Each purge within the history drops the stored counters whose end is not later than its
instant and no others, tells by how much this makes the table smaller, leaves the others as they
are, and leaves as many counters as can be read.
-/
theorem storage_accounted (history : List Issued) :
    {key | Kept key history}.encard = (leftBy history .empty).size ∧
      (leftBy history .empty).size ≤ {key | Incremented key history}.encard ∧
      ∀ before time after, history = before ++ ⟨time, .purge⟩ :: after →
        ∃ told, (toldBy history .empty)[before.length]? = some told ∧
          PurgeAccount (leftBy before .empty) (leftBy (before ++ [⟨time, .purge⟩]) .empty) time
            told := by
  have hsize : {key | Kept key history}.encard = (leftBy history .empty).size := by
    rw [← encard_stored]
    simp only [stored_iff_kept]
  refine ⟨hsize, ?_, ?_⟩
  · rw [← hsize]
    exact Set.encard_le_encard fun key hkept => hkept.1
  · rintro before time after rfl
    refine ⟨_, getElem?_toldBy before _ after .empty, ?_⟩
    rw [leftBy_append_singleton]
    exact purgeAccount (leftBy before .empty) time

/-- Two windows with an end, and one without. -/
def threeWindows : List Issued :=
  [⟨0, .hit "short" (.ofSecs 1)⟩, ⟨0, .hit "long" (.ofSecs 10)⟩, ⟨0, .incr "endless"⟩]

/-- A purge at the very end of one window drops its counter and no other. -/
theorem storage_accounted_of_threeWindows :
    {key | Kept key (threeWindows ++ [⟨1_000_000_000, .purge⟩])}.encard = 2 ∧
      PurgeAccount (leftBy threeWindows .empty)
        (leftBy (threeWindows ++ [⟨1_000_000_000, .purge⟩]) .empty) 1_000_000_000
        (.dropped 1) := by
  obtain ⟨hkept, -, hpurges⟩ := storage_accounted (threeWindows ++ [⟨1_000_000_000, .purge⟩])
  constructor
  · have hsize :
        (leftBy (threeWindows ++ [⟨1_000_000_000, .purge⟩]) .empty).size = 2 := by
      decide +kernel
    rw [hkept, hsize]
    rfl
  · obtain ⟨told, htold, haccount⟩ := hpurges threeWindows 1_000_000_000 [] rfl
    have hone : (toldBy (threeWindows ++ [⟨1_000_000_000, .purge⟩]) .empty)[3]? =
        some (.dropped 1) := by
      decide +kernel
    obtain rfl := Option.some.inj (htold.symm.trans hone)
    exact haccount

end Store

end Admission
