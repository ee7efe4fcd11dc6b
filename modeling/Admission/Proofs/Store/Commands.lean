import Mathlib.Data.List.Induction
import Admission.Proofs.Store.Live
/-!
# Commands to the store in memory

Besides hits, a store in memory takes their two halves, an increment and an expiry, each on its own;
it can be read, purged and cleared. A `Command` is one such thing. A history is a list of commands,
each issued at an instant: `leftBy` is the table that a history leaves, and `toldBy` is what its
commands tell, one after another.

The laws of the single commands (`left_*`, `told_*`) lead back to the operations of the table. Main
statements: `find?_left_ne_none_iff` (which keys are stored after a command) and
`live?_left_of_passes` (what is seen of a key that a command does not name).
-/

namespace Admission.Store

/-- What a store in memory is told to do. -/
inductive Command where
  /-- Add one to the counter of a key. -/
  | incr (key : String)
  /-- Close the window of a key after a period. -/
  | expire (key : String) (period : Duration)
  /-- Count a hit on a key. -/
  | hit (key : String) (period : Duration)
  /-- Read the count of a key. -/
  | count (key : String)
  /-- Drop the counters whose window is over. -/
  | purge
  /-- Drop all counters. -/
  | clear
  deriving DecidableEq, Repr

/-- What a command tells. -/
inductive Told where
  /-- The count that an increment or a hit came to. -/
  | counted (outcome : Except StorageFault Nat)
  /-- The count of a key within its window. -/
  | count (value : Option Nat)
  /-- How many counters were dropped. -/
  | dropped (number : Nat)
  /-- That it is done. -/
  | done
  deriving DecidableEq

namespace Command

/-- Carries a command out. -/
def perform (command : Command) (memory : Memory) : Told × Memory :=
  match command with
  | incr key =>
    let (answer, memory) := memory.answer (.incr key)
    (.counted answer.outcome, memory)
  | expire key period => (.done, (memory.answer (.expire key period)).2)
  | hit key period =>
    let run := (incrementAndExpire key period).run Memory.store memory
    (.counted run.result, run.state)
  | count key => (.count (memory.table.count? memory.now key), memory)
  | purge => (.dropped memory.purged, memory.purge)
  | clear => (.done, memory.clear)

/-- Whether a command increments the counter of a key. -/
def increments (key : String) : Command → Bool
  | incr k => k = key
  | hit k _ => k = key
  | _ => false

/-- Whether a command passes by a key: it neither names it for a change nor clears the store. -/
def passes (key : String) : Command → Bool
  | incr k => k ≠ key
  | expire k _ => k ≠ key
  | hit k _ => k ≠ key
  | count _ => true
  | purge => true
  | clear => false

/-- Whether the period that a command sets, if it sets one, is longer than nothing. -/
def HasPeriod : Command → Prop
  | expire _ period => 0 < period.nanos
  | hit _ period => 0 < period.nanos
  | _ => True

end Command

/-- A command issued at an instant. -/
structure Issued where
  time : Nat
  command : Command
  deriving DecidableEq, Repr

/-- What a command tells on a table, at its instant. -/
def Issued.told (issued : Issued) (table : Counters) : Told :=
  (issued.command.perform ⟨issued.time, table⟩).1

/-- The table that a command leaves, at its instant. -/
def Issued.left (issued : Issued) (table : Counters) : Counters :=
  (issued.command.perform ⟨issued.time, table⟩).2.table

/-- What the commands of a history tell, one after another. -/
def toldBy : List Issued → Counters → List Told
  | [], _ => []
  | issued :: rest, table => issued.told table :: toldBy rest (issued.left table)

/-- The table that a history leaves. -/
def leftBy (history : List Issued) (table : Counters) : Counters :=
  history.foldl (fun table issued => issued.left table) table

/-- The instants of a history do not go back. -/
def Ordered (history : List Issued) : Prop := history.Pairwise (·.time ≤ ·.time)

instance (history : List Issued) : Decidable (Ordered history) :=
  inferInstanceAs (Decidable (history.Pairwise _))

/-! ## Single commands -/

section

variable (time : Nat) (table : Counters) (key : String) (period : Duration)

@[simp]
theorem left_incr : (Issued.mk time (.incr key)).left table = (table.incr time key).2 := rfl

@[simp]
theorem left_expire :
    (Issued.mk time (.expire key period)).left table = table.expire time key period := rfl

@[simp]
theorem left_hit :
    (Issued.mk time (.hit key period)).left table = (Memory.mk time table).hit key period := by
  simp [Issued.left, Command.perform, Memory.run_incrementAndExpire]

@[simp]
theorem left_count : (Issued.mk time (.count key)).left table = table := rfl

@[simp]
theorem left_purge : (Issued.mk time .purge).left table = table.purge time := rfl

@[simp]
theorem left_clear : (Issued.mk time .clear).left table = .empty := rfl

@[simp]
theorem told_incr :
    (Issued.mk time (.incr key)).told table = .counted (.ok (table.hitOf time key).count) := rfl

@[simp]
theorem told_expire : (Issued.mk time (.expire key period)).told table = .done := rfl

@[simp]
theorem told_hit :
    (Issued.mk time (.hit key period)).told table =
      .counted (.ok (table.hitOf time key).count) := by
  simp [Issued.told, Command.perform, Memory.run_incrementAndExpire, Counters.incr]

@[simp]
theorem told_count :
    (Issued.mk time (.count key)).told table = .count (table.count? time key) := rfl

@[simp]
theorem told_purge :
    (Issued.mk time .purge).told table =
      .dropped (table.size - (table.purge time).size) := rfl

@[simp]
theorem told_clear : (Issued.mk time .clear).told table = .done := rfl

end

/-! ## Histories -/

@[simp]
theorem leftBy_nil (table : Counters) : leftBy [] table = table := rfl

@[simp]
theorem leftBy_cons (issued : Issued) (rest : List Issued) (table : Counters) :
    leftBy (issued :: rest) table = leftBy rest (issued.left table) := rfl

theorem leftBy_append (before after : List Issued) (table : Counters) :
    leftBy (before ++ after) table = leftBy after (leftBy before table) :=
  List.foldl_append

theorem leftBy_append_singleton (history : List Issued) (last : Issued) (table : Counters) :
    leftBy (history ++ [last]) table = last.left (leftBy history table) :=
  leftBy_append history [last] table

theorem toldBy_append (before after : List Issued) (table : Counters) :
    toldBy (before ++ after) table = toldBy before table ++ toldBy after (leftBy before table) := by
  induction before generalizing table with
  | nil => rfl
  | cons issued rest ih => simp only [List.cons_append, toldBy, ih, leftBy_cons]

@[simp]
theorem length_toldBy (history : List Issued) (table : Counters) :
    (toldBy history table).length = history.length := by
  induction history generalizing table with
  | nil => rfl
  | cons issued rest ih => simp [toldBy, ih]

/-- What a command within a history tells is what it tells on the table that the ones before it
leave. -/
theorem getElem?_toldBy (before : List Issued) (issued : Issued) (after : List Issued)
    (table : Counters) :
    (toldBy (before ++ issued :: after) table)[before.length]? =
      some (issued.told (leftBy before table)) := by
  rw [toldBy_append, List.getElem?_append_right (by simp), length_toldBy, Nat.sub_self]
  rfl

/-! ## What a command tells and changes -/

variable {key : String} {issued : Issued} {table : Counters} {later : Nat}

theorem Command.increments_iff {command : Command} :
    command.increments key = true ↔
      command = .incr key ∨ ∃ period, command = .hit key period := by
  cases command <;> simp [Command.increments]

/-- An increment tells the count that it comes to, whether it sets an end or not. -/
theorem told_of_increments (h : issued.command.increments key = true) :
    issued.told table = .counted (.ok (table.hitOf issued.time key).count) := by
  obtain ⟨time, command⟩ := issued
  rcases Command.increments_iff.mp h with rfl | ⟨period, rfl⟩
  · exact told_incr time table key
  · exact told_hit time table key period

/-- A command that increments a key stores a counter for it. -/
theorem find?_left_of_increments (h : issued.command.increments key = true) :
    (issued.left table).find? key ≠ none := by
  obtain ⟨time, command⟩ := issued
  rcases Command.increments_iff.mp h with rfl | ⟨period, rfl⟩
  · simp
  · rw [left_hit, Memory.find?_hit_self]
    split <;> simp

/-- **A stored counter comes from an increment and goes by a purge or a clearing only.** -/
theorem find?_left_ne_none_iff (hincrements : issued.command.increments key = false)
    (hpurge : issued.command ≠ .purge) (hclear : issued.command ≠ .clear) :
    (issued.left table).find? key ≠ none ↔ table.find? key ≠ none := by
  obtain ⟨time, command⟩ := issued
  cases command with
  | incr k =>
    have hk : key ≠ k := Ne.symm (by simpa [Command.increments] using hincrements)
    simp [hk]
  | expire k period =>
    by_cases hk : key = k
    · subst hk
      simp
    · simp [hk]
  | hit k period =>
    have hk : key ≠ k := Ne.symm (by simpa [Command.increments] using hincrements)
    rw [left_hit, Memory.find?_hit_of_ne _ hk]
  | count k => rfl
  | purge => exact absurd rfl hpurge
  | clear => exact absurd rfl hclear

/-- **A command that passes by a key leaves what is seen of it**, from its instant on. -/
theorem live?_left_of_passes (h : issued.command.passes key = true) (hle : issued.time ≤ later) :
    (issued.left table).live? later key = table.live? later key := by
  obtain ⟨time, command⟩ := issued
  cases command with
  | incr k =>
    have hk : key ≠ k := Ne.symm (by simpa [Command.passes] using h)
    exact Counters.live?_congr (by simp [hk])
  | expire k period =>
    have hk : key ≠ k := Ne.symm (by simpa [Command.passes] using h)
    exact Counters.live?_congr (by simp [hk])
  | hit k period =>
    have hk : key ≠ k := Ne.symm (by simpa [Command.passes] using h)
    rw [left_hit]
    exact Memory.live?_hit_of_ne _ hk
  | count k => rfl
  | purge => exact Counters.live?_purge hle
  | clear => cases h

theorem live?_leftBy_of_passes {history : List Issued}
    (hpasses : ∀ issued ∈ history, issued.command.passes key = true)
    (hle : ∀ issued ∈ history, issued.time ≤ later) :
    (leftBy history table).live? later key = table.live? later key := by
  induction history generalizing table with
  | nil => rfl
  | cons issued rest ih =>
    rw [List.forall_mem_cons] at hpasses hle
    rw [leftBy_cons, ih hpasses.2 hle.2, live?_left_of_passes hpasses.1 hle.1]

end Admission.Store
