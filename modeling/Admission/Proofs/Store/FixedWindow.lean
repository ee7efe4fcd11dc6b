import Mathlib.Data.List.Induction
import Admission.Proofs.Store.Live
/-!
# Fixed windows

A history is what happens to a store in memory from its start: hits, purges and clearings, each at
an instant. The windows of a key are read off the history alone, without a table: an increment for
which no window is open opens one, and it lasts for the period of that increment or until the store
is cleared. `OpenWindow` says this, and the table agrees with it.

1. `openWindow_append_singleton`: how one more event changes the open windows of a key
2. `showsWindows_tableAfter`: what can be seen of the table after a history is the open window, with
   the number of its increments and the end that its first one set
3. `fixed_window`: hence what a hit tells and what a reading tells

Step 2 is an induction over the history from its end. Its statement is about every later instant
at once, because an event may come long after the one before it.
-/

namespace Admission.Store

/-! ## Histories -/

/-- What is done to a store in memory. -/
inductive Operation where
  /-- Count a hit on a key. -/
  | hit (key : String) (period : Duration)
  /-- Drop the counters whose window is over. -/
  | purge
  /-- Drop all counters. -/
  | clear
  deriving DecidableEq, Repr

/-- An operation at an instant. -/
structure Event where
  time : Nat
  operation : Operation
  deriving DecidableEq, Repr

/-- What a hit tells. -/
abbrev Reply := Except StorageFault Nat

namespace Operation

/-- Carries an operation out; only a hit has a reply. -/
def perform (operation : Operation) (memory : Memory) : Option Reply × Memory :=
  match operation with
  | hit key period =>
    let run := (incrementAndExpire key period).run Memory.store memory
    (some run.result, run.state)
  | purge => (none, memory.purge)
  | clear => (none, memory.clear)

/-- Whether an operation counts a hit on a key. -/
def counts (key : String) : Operation → Bool
  | hit k _ => k = key
  | purge => false
  | clear => false

/-- Whether the period of a hit is longer than nothing. -/
def HasPeriod : Operation → Prop
  | hit _ period => 0 < period.nanos
  | purge => True
  | clear => True

end Operation

/-- Carries an event out at its instant. -/
def Event.perform (event : Event) (memory : Memory) : Option Reply × Memory :=
  event.operation.perform { memory with now := event.time }

/-- Carries the events of a history out one after another and collects the replies. -/
def play : List Event → Memory → List (Option Reply) × Memory
  | [], memory => ([], memory)
  | event :: rest, memory =>
    let (reply, memory) := event.perform memory
    let (replies, memory) := play rest memory
    (reply :: replies, memory)

/-- The replies to the events of a history on a new store. -/
def replies (history : List Event) : List (Option Reply) := (play history {}).1

/-- The table after a history on a new store. -/
def tableAfter (history : List Event) : Counters := (play history {}).2.table

theorem play_append (before after : List Event) (memory : Memory) :
    play (before ++ after) memory =
      ((play before memory).1 ++ (play after (play before memory).2).1,
        (play after (play before memory).2).2) := by
  induction before generalizing memory with
  | nil => rfl
  | cons event rest ih => simp only [List.cons_append, play, ih]

@[simp]
theorem length_play (history : List Event) (memory : Memory) :
    (play history memory).1.length = history.length := by
  induction history generalizing memory with
  | nil => rfl
  | cons event rest ih => simp [play, ih]

@[simp]
theorem length_replies (history : List Event) : (replies history).length = history.length :=
  length_play history {}

/-- An event takes place at its own instant, whatever the clock showed before. -/
theorem play_congr {a b : Memory} (h : a.table = b.table) (events : List Event) :
    (play events a).1 = (play events b).1 ∧ (play events a).2.table = (play events b).2.table := by
  cases events with
  | nil => exact ⟨rfl, h⟩
  | cons event rest =>
    have hevent : event.perform a = event.perform b := by
      unfold Event.perform
      rw [h]
    simp only [play, hevent, and_self]

theorem tableAfter_append (time : Nat) (before events : List Event) :
    tableAfter (before ++ events) = (play events ⟨time, tableAfter before⟩).2.table := by
  have htable : (play before {}).2.table = (Memory.mk time (tableAfter before)).table := rfl
  rw [tableAfter, play_append]
  exact (play_congr htable events).2

theorem replies_append_singleton (history : List Event) (event : Event) :
    replies (history ++ [event]) =
      replies history ++ [(event.perform ⟨event.time, tableAfter history⟩).1] := by
  unfold replies
  rw [play_append]
  rfl

theorem tableAfter_append_singleton (history : List Event) (event : Event) :
    tableAfter (history ++ [event]) =
      (event.perform ⟨event.time, tableAfter history⟩).2.table := by
  unfold tableAfter
  rw [play_append]
  rfl

theorem take_succ_of_getElem? {history : List Event} {i : Nat} {event : Event}
    (h : history[i]? = some event) : history.take (i + 1) = history.take i ++ [event] := by
  rw [List.take_add_one, h]
  rfl

theorem time_le_of_mem_take {history : List Event} (hordered : history.Pairwise (·.time ≤ ·.time))
    {i : Nat} {event : Event} (h : history[i]? = some event) :
    ∀ e ∈ history.take (i + 1), e.time ≤ event.time := by
  intro e he
  have htake := hordered.sublist (List.take_sublist (i + 1) history)
  rw [take_succ_of_getElem? h] at he htake
  rcases List.mem_append.mp he with he | he
  · exact (List.pairwise_append.mp htake).2.2 e he event (by simp)
  · obtain rfl := List.mem_singleton.mp he
    exact Nat.le_refl _

/-- The reply to an event is what it tells on the table that the events before it leave. -/
theorem getElem?_replies {history : List Event} {i : Nat} {event : Event}
    (h : history[i]? = some event) :
    (replies history)[i]? = some (event.perform ⟨event.time, tableAfter (history.take i)⟩).1 := by
  obtain ⟨hi, rfl⟩ := List.getElem?_eq_some_iff.mp h
  have hlen : (replies (history.take i)).length = i := by
    rw [length_replies, List.length_take]
    omega
  have hsplit : history = history.take i ++ [history[i]] ++ history.drop (i + 1) := by
    rw [List.append_assoc, List.singleton_append, ← List.drop_eq_getElem_cons hi,
      List.take_append_drop]
  have hreplies : replies history = replies (history.take i ++ [history[i]]) ++
      (play (history.drop (i + 1)) (play (history.take i ++ [history[i]]) {}).2).1 := by
    conv_lhs => rw [hsplit, replies, play_append]
    rfl
  rw [hreplies, replies_append_singleton, List.append_assoc,
    List.getElem?_append_right (by omega), hlen, Nat.sub_self]
  rfl

theorem perform_hit (time : Nat) (table : Counters) (key : String) (period : Duration) :
    (Event.mk time (.hit key period)).perform ⟨time, table⟩ =
      (some (.ok (table.hitOf time key).count),
        ⟨time, (Memory.mk time table).hit key period⟩) := by
  simp only [Event.perform, Operation.perform, Memory.run_incrementAndExpire]
  rfl

theorem now_perform (event : Event) (memory : Memory) :
    (event.perform memory).2.now = event.time := by
  obtain ⟨time, operation⟩ := event
  cases operation with
  | hit key period =>
    exact congrArg (fun reply => reply.2.now) (perform_hit time memory.table key period)
  | purge => rfl
  | clear => rfl

/-! ## Windows of a key -/

/-- The number of hits on a key among events. -/
def hits (key : String) (events : List Event) : Nat :=
  events.countP fun event => event.operation.counts key

/-- All hits on a key among events ask for one period. -/
def OnePeriod (key : String) (period : Duration) (events : List Event) : Prop :=
  ∀ event ∈ events, ∀ other, event.operation = .hit key other → other = period

instance (key : String) (period : Duration) (events : List Event) :
    Decidable (OnePeriod key period events) :=
  decidable_of_iff (∀ event ∈ events, event.operation.counts key = true →
      event.operation = .hit key period) <| by
    refine forall₂_congr fun event _ => ?_
    cases event.operation with
    | hit k other =>
      simp only [Operation.counts, decide_eq_true_eq, Operation.hit.injEq]
      exact ⟨fun h p hp => hp.2 ▸ (h hp.1).2, fun h hk => ⟨hk, h other ⟨hk, rfl⟩⟩⟩
    | purge => simp [Operation.counts]
    | clear => simp [Operation.counts]

/--
The events `since` are the end of a history from the opening of a window of a key on, and that
window is open at an instant.

The first of them is a hit on the key for which no window was open. Nothing has cleared the store
after it, and the period of this hit, whatever later hits ask for, is not over yet. A period beyond
the range of the clock is never over.
-/
def OpenWindow (key : String) (history : List Event) (now : Nat) (since : List Event) : Prop :=
  ∃ (before : List Event) (start : Nat) (period : Duration) (rest : List Event)
    (_ : history = before ++ since) (_ : since = ⟨start, .hit key period⟩ :: rest),
    (∀ earlier, ¬ OpenWindow key before start earlier) ∧
      (∀ event ∈ rest, event.operation ≠ .clear) ∧
      (now < start + period.nanos ∨ clockEnd ≤ start + period.nanos)
termination_by history.length
decreasing_by simp_all

theorem openWindow_iff {key : String} {history : List Event} {now : Nat} {since : List Event} :
    OpenWindow key history now since ↔
      ∃ before start period rest, history = before ++ since ∧
        since = ⟨start, .hit key period⟩ :: rest ∧
        (∀ earlier, ¬ OpenWindow key before start earlier) ∧
        (∀ event ∈ rest, event.operation ≠ .clear) ∧
        (now < start + period.nanos ∨ clockEnd ≤ start + period.nanos) := by
  rw [OpenWindow]
  simp only [exists_prop]

/-- The end of the window that an event opens. -/
def Event.closing? (event : Event) : Option Nat :=
  match event.operation with
  | .hit _ period => deadline event.time period
  | .purge => none
  | .clear => none

/-- The counter that a window comes to: its hits, and the end that its first event sets. -/
def counterOf (key : String) (since : List Event) : Counter :=
  ⟨hits key since, since.head?.bind Event.closing?⟩

section

variable {key : String} {history since earlier : List Event} {event : Event} {now later : Nat}

theorem isOver_counterOf (key : String) {start : Nat} {period : Duration} (rest : List Event) :
    (counterOf key (⟨start, .hit key period⟩ :: rest)).isOver now = false ↔
      now < start + period.nanos ∨ clockEnd ≤ start + period.nanos := by
  simp only [counterOf, List.head?_cons, Option.bind_some, Event.closing?, Counter.isOver, deadline]
  by_cases h : start + period.nanos < clockEnd
  · simp only [if_pos h, decide_eq_false_iff_not]
    omega
  · simp only [if_neg h, true_iff]
    omega

/-- A window open at an instant is the same window at a later one, unless it is over by then. -/
theorem openWindow_of_le (hle : now ≤ later) :
    OpenWindow key history later since ↔
      OpenWindow key history now since ∧ (counterOf key since).isOver later = false := by
  rw [openWindow_iff, openWindow_iff]
  constructor
  · rintro ⟨before, start, period, rest, rfl, rfl, hnone, hclear, hopen⟩
    have ho := (isOver_counterOf key rest).mpr hopen
    have hn := (isOver_counterOf _ _).mp (Counter.isOver_eq_false_of_le hle ho)
    exact ⟨⟨before, start, period, rest, rfl, rfl, hnone, hclear, hn⟩, ho⟩
  · rintro ⟨⟨before, start, period, rest, rfl, rfl, hnone, hclear, -⟩, ho⟩
    exact ⟨before, start, period, rest, rfl, rfl, hnone, hclear, (isOver_counterOf _ _).mp ho⟩

/-- The first event of a window is a hit of its key. -/
theorem OpenWindow.hits_pos (h : OpenWindow key history now since) : 0 < hits key since := by
  obtain ⟨before, start, period, rest, rfl, rfl, -⟩ := openWindow_iff.mp h
  simp [hits, Operation.counts]

theorem OpenWindow.ne_nil (h : OpenWindow key history now since) : since ≠ [] := by
  obtain ⟨before, start, period, rest, rfl, rfl, -⟩ := openWindow_iff.mp h
  simp

theorem not_openWindow_nil : ¬ OpenWindow key [] now since := by
  intro h
  obtain ⟨before, start, period, rest, hsplit, rfl, -⟩ := openWindow_iff.mp h
  simp at hsplit

/-! ## One more event -/

/--
**The open windows after one more event.** Either the event belongs to a window that was open
before it, or it opens one.
-/
theorem openWindow_append_singleton :
    OpenWindow key (history ++ [event]) now since ↔
      (∃ earlier, since = earlier ++ [event] ∧ OpenWindow key history now earlier ∧
        event.operation ≠ .clear) ∨
      (∃ period, event.operation = .hit key period ∧ since = [event] ∧
        (∀ earlier, ¬ OpenWindow key history event.time earlier) ∧
        (counterOf key since).isOver now = false) := by
  constructor
  · intro h
    obtain ⟨before, start, period, rest, hsplit, rfl, hnone, hclear, hopen⟩ := openWindow_iff.mp h
    -- the window is the new event alone, or it ends with it
    cases rest using List.reverseRecOn with
    | nil =>
      obtain ⟨rfl, hevent⟩ := List.append_inj' hsplit rfl
      obtain rfl := List.singleton_inj.mp hevent
      exact Or.inr ⟨period, rfl, rfl, hnone, (isOver_counterOf _ _).mpr hopen⟩
    | append_singleton rest last =>
      rw [← List.cons_append, ← List.append_assoc] at hsplit
      obtain ⟨rfl, hlast⟩ := List.append_inj' hsplit rfl
      obtain rfl := List.singleton_inj.mp hlast
      refine Or.inl ⟨⟨start, .hit key period⟩ :: rest, rfl, ?_, hclear event (by simp)⟩
      refine openWindow_iff.mpr ⟨before, start, period, rest, rfl, rfl, hnone, ?_, hopen⟩
      exact fun e he => hclear e (by simp [he])
  · rintro (⟨earlier, rfl, hearlier, hclear⟩ | ⟨period, hop, rfl, hnone, hopen⟩)
    · obtain ⟨before, start, period, rest, rfl, rfl, hnone, hkeep, hopen⟩ :=
        openWindow_iff.mp hearlier
      refine openWindow_iff.mpr ⟨before, start, period, rest ++ [event], by simp, rfl, hnone, ?_,
        hopen⟩
      intro e he
      rcases List.mem_append.mp he with he | he
      · exact hkeep e he
      · rw [List.mem_singleton.mp he]
        exact hclear
    · obtain ⟨time, operation⟩ := event
      subst hop
      exact openWindow_iff.mpr ⟨history, time, period, [], rfl, rfl, hnone, by simp,
        (isOver_counterOf _ _).mp hopen⟩

/-- A window keeps its end when an event is added to it, and counts the event if it is a hit. -/
theorem counterOf_append_singleton (hne : earlier ≠ []) :
    counterOf key (earlier ++ [event]) =
      if event.operation.counts key then (counterOf key earlier).succ
      else counterOf key earlier := by
  obtain ⟨first, rest, rfl⟩ := List.exists_cons_of_ne_nil hne
  have hhits : hits key (first :: rest ++ [event]) =
      hits key (first :: rest) + if event.operation.counts key then 1 else 0 := by
    rw [hits, List.countP_append, List.countP_singleton]
    rfl
  unfold counterOf
  rw [hhits]
  split <;> rfl

end

/-! ## The table shows the open windows -/

/-- From an instant on, a table shows exactly the open windows of a key after a history. -/
def ShowsWindows (table : Counters) (key : String) (history : List Event) (time : Nat) : Prop :=
  ∀ now, time ≤ now → ∀ counter, table.live? now key = some counter ↔
    ∃ since, OpenWindow key history now since ∧ counter = counterOf key since

section

variable {table : Counters} {key : String} {history : List Event} {time now : Nat}

theorem showsWindows_empty (key : String) : ShowsWindows .empty key [] 0 := by
  intro now _ counter
  constructor
  · intro h
    cases h
  · rintro ⟨since, h, -⟩
    exact absurd h not_openWindow_nil

theorem ShowsWindows.of_le (h : ShowsWindows table key history time) (hle : time ≤ now) :
    ShowsWindows table key history now :=
  fun later hlater => h later (Nat.le_trans hle hlater)

/-- After a hit within a window the table shows that window with the hit added to it. -/
theorem ShowsWindows.hit_of_openWindow (h : ShowsWindows table key history time)
    {earlier : List Event} (hopen : OpenWindow key history time earlier) (period : Duration) :
    ShowsWindows ((Memory.mk time table).hit key period) key
      (history ++ [⟨time, .hit key period⟩]) time := by
  intro now hle counter
  have hcounts : (Operation.hit key period).counts key = true := by simp [Operation.counts]
  have hlive : table.live? time key = some (counterOf key earlier) :=
    (h time (Nat.le_refl time) _).mpr ⟨earlier, hopen, rfl⟩
  have hcount : 0 < (counterOf key earlier).count := hopen.hits_pos
  rw [Memory.live?_hit_of_live ⟨time, table⟩ hlive hcount,
    Option.filter_eq_some_iff, Option.some.injEq]
  constructor
  · rintro ⟨rfl, ho⟩
    have ho : (counterOf key earlier).isOver now = false := by simpa using ho
    refine ⟨earlier ++ [⟨time, .hit key period⟩], openWindow_append_singleton.mpr (Or.inl ?_), ?_⟩
    · exact ⟨earlier, rfl, (openWindow_of_le hle).mpr ⟨hopen, ho⟩, by simp⟩
    · rw [counterOf_append_singleton hopen.ne_nil, if_pos hcounts]
  · rintro ⟨since, hsince, rfl⟩
    rcases openWindow_append_singleton.mp hsince with ⟨other, rfl, hother, -⟩ | ⟨-, -, -, hnone, -⟩
    · obtain ⟨hother, ho⟩ := (openWindow_of_le hle).mp hother
      -- two windows open at one instant come to one counter, as the table has only one
      have heq : counterOf key other = counterOf key earlier := by
        have hshown := (h time (Nat.le_refl time) _).mpr ⟨other, hother, rfl⟩
        rw [hlive] at hshown
        exact (Option.some.inj hshown).symm
      rw [counterOf_append_singleton hother.ne_nil, if_pos hcounts, heq]
      exact ⟨rfl, by rw [← heq]; simpa using ho⟩
    · exact absurd hopen (hnone earlier)

/-- After any other hit the table shows the window that the hit opens. -/
theorem ShowsWindows.hit_of_none (h : ShowsWindows table key history time)
    (hnone : ∀ earlier, ¬ OpenWindow key history time earlier) (period : Duration) :
    ShowsWindows ((Memory.mk time table).hit key period) key
      (history ++ [⟨time, .hit key period⟩]) time := by
  intro now hle counter
  have hlive : table.live? time key = none := by
    cases hl : table.live? time key with
    | none => rfl
    | some counter =>
      obtain ⟨since, hsince, -⟩ := (h time (Nat.le_refl time) counter).mp hl
      exact absurd hsince (hnone since)
  have hopened : counterOf key [⟨time, .hit key period⟩] = .opened time period := by
    simp [counterOf, hits, Operation.counts, Event.closing?, Counter.opened]
  rw [Memory.live?_hit_of_not_live ⟨time, table⟩ hlive, Option.filter_eq_some_iff,
    Option.some.injEq]
  constructor
  · rintro ⟨rfl, ho⟩
    refine ⟨[⟨time, .hit key period⟩], openWindow_append_singleton.mpr (Or.inr ?_), hopened.symm⟩
    exact ⟨period, rfl, rfl, hnone, by rw [hopened]; simpa using ho⟩
  · rintro ⟨since, hsince, rfl⟩
    rcases openWindow_append_singleton.mp hsince with ⟨other, rfl, hother, -⟩ | ⟨-, -, rfl, -, ho⟩
    · exact absurd ((openWindow_of_le hle).mp hother).1 (hnone other)
    · exact ⟨hopened.symm, by simpa using ho⟩

/-- After a clearing no window is open. -/
theorem showsWindows_clear : ShowsWindows .empty key (history ++ [⟨time, .clear⟩]) time := by
  intro now _ counter
  constructor
  · intro h
    cases h
  · rintro ⟨since, hsince, -⟩
    rcases openWindow_append_singleton.mp hsince with ⟨-, -, -, hclear⟩ | ⟨_, hhit, -⟩
    · exact absurd rfl hclear
    · cases hhit

/-- An event that neither hits a key nor clears the store leaves the windows of the key. -/
theorem ShowsWindows.append_of_not_counts (h : ShowsWindows table key history time)
    {operation : Operation} (hc : operation.counts key = false) (hclear : operation ≠ .clear) :
    ShowsWindows table key (history ++ [⟨time, operation⟩]) time := by
  intro now hle counter
  rw [h now hle counter]
  constructor
  · rintro ⟨earlier, hearlier, rfl⟩
    refine ⟨earlier ++ [⟨time, operation⟩], openWindow_append_singleton.mpr (Or.inl ?_), ?_⟩
    · exact ⟨earlier, rfl, hearlier, hclear⟩
    · rw [counterOf_append_singleton hearlier.ne_nil, hc]
      rfl
  · rintro ⟨since, hsince, rfl⟩
    rcases openWindow_append_singleton.mp hsince with ⟨earlier, rfl, hearlier, -⟩ | ⟨_, hhit, -⟩
    · exact ⟨earlier, hearlier, by rw [counterOf_append_singleton hearlier.ne_nil, hc]; rfl⟩
    · simp only at hhit
      rw [hhit] at hc
      simp [Operation.counts] at hc

/-- The same table is shown by any other one that shows the same. -/
theorem ShowsWindows.congr {table' : Counters} (h : ShowsWindows table key history time)
    (heq : ∀ now, time ≤ now → table'.live? now key = table.live? now key) :
    ShowsWindows table' key history time := by
  intro now hle counter
  rw [heq now hle, h now hle counter]

/-- **One event keeps the table and the windows in step.** -/
theorem ShowsWindows.perform (h : ShowsWindows table key history time) (operation : Operation) :
    ShowsWindows ((Event.mk time operation).perform ⟨time, table⟩).2.table key
      (history ++ [⟨time, operation⟩]) time := by
  cases operation with
  | hit k period =>
    rw [perform_hit]
    -- only a hit on this key opens a window or is counted in one
    by_cases hk : k = key
    · subst hk
      by_cases hopen : ∃ earlier, OpenWindow k history time earlier
      · obtain ⟨earlier, hopen⟩ := hopen
        exact h.hit_of_openWindow hopen period
      · exact h.hit_of_none (not_exists.mp hopen) period
    · refine (h.append_of_not_counts (by simp [Operation.counts, hk]) (by simp)).congr ?_
      exact fun now _ => Memory.live?_hit_of_ne ⟨time, table⟩ (Ne.symm hk)
  | purge =>
    refine (h.append_of_not_counts rfl (by simp)).congr ?_
    exact fun now hle => Counters.live?_purge hle
  | clear => exact showsWindows_clear

end

/-- **The table after a history shows the open windows of every key.** -/
theorem showsWindows_tableAfter {history : List Event}
    (hordered : history.Pairwise (·.time ≤ ·.time)) (key : String) {time : Nat}
    (htime : ∀ event ∈ history, event.time ≤ time) :
    ShowsWindows (tableAfter history) key history time := by
  induction history using List.reverseRecOn generalizing time with
  | nil => exact (showsWindows_empty key).of_le (Nat.zero_le time)
  | append_singleton history event ih =>
    obtain ⟨hbefore, -, hlast⟩ := List.pairwise_append.mp hordered
    -- the invariant holds from the last event before on, so also at the instant of this one
    have hstep := (ih hbefore fun e he => hlast e he event (by simp)).perform event.operation
    rw [tableAfter_append_singleton]
    exact hstep.of_le (htime event (by simp))

/-- The count that a table tells at an instant is the number of hits in the open window. -/
theorem ShowsWindows.count?_eq_some_iff {table : Counters} {key : String} {history : List Event}
    {time : Nat} (h : ShowsWindows table key history time) (n : Nat) :
    table.count? time key = some n ↔
      ∃ since, OpenWindow key history time since ∧ n = hits key since := by
  rw [Counters.count?, Option.map_eq_some_iff]
  constructor
  · rintro ⟨counter, hlive, rfl⟩
    obtain ⟨since, hsince, rfl⟩ := (h time (Nat.le_refl time) counter).mp hlive
    exact ⟨since, hsince, rfl⟩
  · rintro ⟨since, hsince, rfl⟩
    exact ⟨counterOf key since, (h time (Nat.le_refl time) _).mpr ⟨since, hsince, rfl⟩, rfl⟩

/-- Right after a hit, a reading tells the count that the hit told. -/
theorem count?_hit_self (time : Nat) (table : Counters) (key : String) {period : Duration}
    (hp : 0 < period.nanos) :
    ((Memory.mk time table).hit key period).count? time key =
      some (table.hitOf time key).count := by
  have hcount := Memory.liveCount_hit ⟨time, table⟩ key key hp
  rw [if_pos rfl, ← Counters.count_hitOf, Counters.liveCount] at hcount
  cases hread : ((Memory.mk time table).hit key period).count? time key with
  | none =>
    have hpos := Counters.count_hitOf table time key
    rw [hread] at hcount
    simp only [Option.getD_none] at hcount
    omega
  | some n =>
    rw [hread] at hcount
    rw [← hcount]
    rfl

/--
**Hits are counted in fixed windows.** On a new store, whatever the history, a hit tells the number
of hits of its key in the window that is then open, itself included, and a reading tells this number
as long as a window is open and nothing otherwise.
-/
theorem fixed_window {history : List Event} (hordered : history.Pairwise (·.time ≤ ·.time))
    (hperiods : ∀ event ∈ history, event.operation.HasPeriod) :
    (∀ i time key period, history[i]? = some ⟨time, .hit key period⟩ →
      ∃ since, OpenWindow key (history.take (i + 1)) time since ∧
        (replies history)[i]? = some (some (.ok (hits key since)))) ∧
    (∀ key now, (∀ event ∈ history, event.time ≤ now) → ∀ n,
      (tableAfter history).count? now key = some n ↔
        ∃ since, OpenWindow key history now since ∧ n = hits key since) := by
  constructor
  · intro i time key period hi
    have hshows :
        ShowsWindows (tableAfter (history.take (i + 1))) key (history.take (i + 1)) time :=
      showsWindows_tableAfter (hordered.sublist (List.take_sublist (i + 1) history)) key
        (time_le_of_mem_take hordered hi)
    have hcount : (tableAfter (history.take (i + 1))).count? time key =
        some ((tableAfter (history.take i)).hitOf time key).count := by
      rw [take_succ_of_getElem? hi, tableAfter_append_singleton, perform_hit]
      exact count?_hit_self time _ key (hperiods _ (List.mem_of_getElem? hi))
    obtain ⟨since, hsince, hn⟩ := (hshows.count?_eq_some_iff _).mp hcount
    refine ⟨since, hsince, ?_⟩
    rw [getElem?_replies hi, perform_hit, hn]
  · intro key now hnow n
    exact (showsWindows_tableAfter hordered key hnow).count?_eq_some_iff n

/-- The last hit comes at the very end of the window that the first one opened. -/
def boundaryHistory : List Event :=
  [⟨0, .hit "a" (.ofSecs 1)⟩, ⟨600_000_000, .hit "a" (.ofSecs 1)⟩, ⟨700_000_000, .purge⟩,
    ⟨1_000_000_000, .hit "a" (.ofSecs 2)⟩]

/-- A hit at the very end of a window opens the next one, which keeps its own period. -/
theorem fixed_window_at_end :
    replies boundaryHistory = [some (.ok 1), some (.ok 2), none, some (.ok 1)] ∧
      (∃ since, OpenWindow "a" boundaryHistory 1_000_000_000 since ∧ hits "a" since = 1) ∧
      (∃ since, OpenWindow "a" boundaryHistory 2_500_000_000 since ∧ 1 = hits "a" since) := by
  have hordered : boundaryHistory.Pairwise (·.time ≤ ·.time) := by decide
  have hperiods : ∀ event ∈ boundaryHistory, event.operation.HasPeriod := by
    simp [boundaryHistory, Operation.HasPeriod, Duration.ofSecs]
  have hreplies : replies boundaryHistory = [some (.ok 1), some (.ok 2), none, some (.ok 1)] := by
    decide +kernel
  have hcount : (tableAfter boundaryHistory).count? 2_500_000_000 "a" = some 1 := by
    decide +kernel
  obtain ⟨htold, hread⟩ := fixed_window hordered hperiods
  refine ⟨hreplies, ?_, (hread "a" 2_500_000_000 (by decide) 1).mp hcount⟩
  obtain ⟨since, hsince, hlast⟩ := htold 3 1_000_000_000 "a" (.ofSecs 2) rfl
  rw [hreplies] at hlast
  exact ⟨since, hsince, by simpa using hlast.symm⟩

end Admission.Store
