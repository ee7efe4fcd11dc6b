import Mathlib.Data.List.Induction
import Admission.Proofs.Decision.FirstBreach
/-!
# Failed expiries

A store that counts as the store in memory does, but may refuse to set the end of a window: it
answers with a fault, or so late that the engine has given the call up, and sets nothing. The call
that meets the refusal fails. It has counted already, so no later call counts first on its key, and
none sets the end that is missing.

1. `run_cases`: one call, for every refusal
2. `find?_run_of_error`, `find?_run_of_ok`: the counter that a call leaves for its key
3. `endless_iff`: after any history a key has a counter without an end exactly if a call on it has
   failed
4. `ends_iff_not_failed`: hence when a call that succeeds leaves a window that ends
5. `find?_after_failure`: one failure is for good, whatever calls follow it

Instants need not be in order, since a counter without an end is never over and one with an end
is judged at the instant of the call alone.
-/

namespace Admission.Engine

open Store

/-! ## A store that refuses -/

/-- What an engine makes of an answer: it is a fault, or it comes after the time it has. -/
def GivesUpOn (engine : Engine) (answer : Answer) : Prop :=
  (∃ fault, answer.outcome = .error fault) ∨
    ∃ limit, engine.timeout = some limit ∧ limit.ceilMillis < answer.delay

/-- The store in memory, but if there is a refusal, it is the answer to every expiry. -/
def refusing (refusal? : Option Answer) : Backend Memory where
  answer request memory :=
    match request, refusal? with
    | .expire _ _, some refusal => (refusal, memory)
    | request, _ => memory.answer request

theorem refusing_none : refusing none = Memory.store := by
  unfold refusing Memory.store
  congr 1
  funext request memory
  cases request <;> rfl

section

variable {engine : Engine} {memory : Memory} {key : String} {period : Duration} {refusal : Answer}

theorem answer_refusing_incr (refusal? : Option Answer) :
    (refusing refusal?).answer (.incr key) memory =
      (⟨.ok (memory.table.hitOf memory.now key).count, 0⟩,
        { memory with table := (memory.table.incr memory.now key).2 }) := rfl

theorem answer_refusing_expire :
    (refusing (some refusal)).answer (.expire key period) memory = (refusal, memory) := rfl

/-- A fault ends a call that counts first, which has counted. -/
theorem run_incrementAndExpire_refusing (memory : Memory) (period : Duration)
    {fault : StorageFault} (hfault : refusal.outcome = .error fault)
    (hfirst : (memory.table.hitOf memory.now key).count = 1) :
    (incrementAndExpire key period).run (refusing (some refusal)) memory =
      ⟨.error fault, refusal.delay,
        { memory with table := (memory.table.incr memory.now key).2 }⟩ := by
  simp [incrementAndExpire, Dialogue.run, Dialogue.Run.after, answer_refusing_incr,
    answer_refusing_expire, hfirst, hfault]

/-- An answer that comes after the limit ends such a call too. -/
theorem run_within_refusing (memory : Memory) {limit : Nat} (late : Except StorageFault Nat)
    (hlate : limit < refusal.delay) (hfirst : (memory.table.hitOf memory.now key).count = 1) :
    ((incrementAndExpire key period).within limit late).run (refusing (some refusal)) memory =
      ⟨late, limit, { memory with table := (memory.table.incr memory.now key).2 }⟩ := by
  simp [incrementAndExpire, Dialogue.within, Dialogue.run, Dialogue.Run.after,
    answer_refusing_incr, answer_refusing_expire, hfirst, hlate]

/-- A call that counts first meets the refusal and fails, but has counted. -/
theorem run_increment_refusing (memory : Memory) (hgives : engine.GivesUpOn refusal)
    (hfirst : (memory.table.hitOf memory.now key).count = 1) :
    ∃ fault, ((engine.increment key period).run (refusing (some refusal)) memory).result =
        .error fault ∧
      ((engine.increment key period).run (refusing (some refusal)) memory).state =
        { memory with table := (memory.table.incr memory.now key).2 } := by
  unfold increment
  cases ht : engine.timeout with
  | none =>
    rcases hgives with ⟨fault, hfault⟩ | ⟨limit, hlimit, -⟩
    · rw [run_incrementAndExpire_refusing memory period hfault hfirst]
      exact ⟨fault, rfl, rfl⟩
    · rw [ht] at hlimit
      cases hlimit
  | some limit =>
    -- too late is too late, even for a fault
    by_cases hlate : limit.ceilMillis < refusal.delay
    · rw [run_within_refusing memory _ hlate hfirst]
      exact ⟨_, rfl, rfl⟩
    · rcases hgives with ⟨fault, hfault⟩ | ⟨limit', hlimit, hlate'⟩
      · have hplain := run_incrementAndExpire_refusing memory period hfault hfirst
        have hle : ((incrementAndExpire key period).run (refusing (some refusal)) memory).elapsed ≤
            limit.ceilMillis := by
          rw [hplain]
          exact Nat.le_of_not_lt hlate
        rw [Dialogue.run_within_of_le _ _ hle, hplain]
        exact ⟨fault, rfl, rfl⟩
      · rw [ht] at hlimit
        cases hlimit
        exact absurd hlate' hlate

/-- Any other call does not ask for an expiry and so does not meet the refusal. -/
theorem run_increment_refusing_of_ne (hother : (memory.table.hitOf memory.now key).count ≠ 1) :
    (engine.increment key period).run (refusing (some refusal)) memory =
      (engine.increment key period).run Memory.store memory := by
  rw [← refusing_none]
  unfold increment incrementAndExpire
  cases engine.timeout with
  | none => simp [Dialogue.run, answer_refusing_incr, hother]
  | some limit => simp [Dialogue.run, Dialogue.within, answer_refusing_incr, hother]

end

end Admission.Engine

namespace Admission

open Store

/-! ## Endless counters -/

namespace Counters

/-- The counter that is stored for the key is without an end. -/
def Endless (table : Counters) (key : String) : Prop :=
  ∃ counter, table.find? key = some counter ∧ counter.endsAt = none

/-- If a counter is stored for the key, it has counted. -/
def Counted (table : Counters) (key : String) : Prop :=
  ∀ counter, table.find? key = some counter → 0 < counter.count

variable {table table' : Counters} {now : Nat} {key : String} {counter : Counter}

theorem endless_congr (h : table'.find? key = table.find? key) :
    table'.Endless key ↔ table.Endless key := by
  unfold Endless
  rw [h]

theorem Counted.congr (h : table'.find? key = table.find? key) (hc : table.Counted key) :
    table'.Counted key := by
  unfold Counted
  rw [h]
  exact hc

/-- A counter without an end is seen at all times. -/
theorem live?_of_endsAt_eq_none (hf : table.find? key = some counter)
    (he : counter.endsAt = none) : table.live? now key = some counter := by
  refine live?_eq_some_iff.mpr ⟨hf, ?_⟩
  rw [Counter.isOver, he]

/-- A counter with an end is not seen from then on. -/
theorem live?_of_endsAt_eq_some {instant : Nat} (hf : table.find? key = some counter)
    (he : counter.endsAt = some instant) (hle : instant ≤ now) : table.live? now key = none := by
  rw [live?, hf, Option.filter_some, Counter.isOver, he]
  simp [hle]

end Counters

/-! ## Histories -/

/-- A call of an engine at an instant on a store that may refuse to set the end of the window. -/
structure Attempt where
  time : Nat
  engine : Engine
  key : String
  period : Duration
  /-- How an expiry is refused; `none` if it is not. -/
  refusal? : Option Answer
  /-- A refusal is a failure. -/
  gives_up : ∀ refusal ∈ refusal?, engine.GivesUpOn refusal
  /-- The end of the window is within the range of the clock. -/
  in_range : time + period.nanos < clockEnd

namespace Attempt

/-- Carries the call out on a table. -/
def run (attempt : Attempt) (table : Counters) :
    Dialogue.Run Memory (Except StorageFault Nat) :=
  (attempt.engine.increment attempt.key attempt.period).run (Engine.refusing attempt.refusal?)
    ⟨attempt.time, table⟩

/-- The table after a history that starts with an empty one. -/
def after (history : List Attempt) : Counters :=
  history.foldl (fun table attempt => (attempt.run table).state.table) .empty

/-- Some call on the key has failed. -/
def Failed (history : List Attempt) (key : String) : Prop :=
  ∃ before attempt fault, before ++ [attempt] <+: history ∧ attempt.key = key ∧
    (attempt.run (after before)).result = .error fault

@[simp]
theorem after_append_singleton (history : List Attempt) (attempt : Attempt) :
    after (history ++ [attempt]) = (attempt.run (after history)).state.table := by
  simp [after]

theorem not_failed_nil (key : String) : ¬ Failed [] key := by
  rintro ⟨before, attempt, fault, hprefix, -, -⟩
  simp at hprefix

theorem failed_append_singleton (history : List Attempt) (attempt : Attempt) (key : String) :
    Failed (history ++ [attempt]) key ↔ Failed history key ∨
      (attempt.key = key ∧ ∃ fault, (attempt.run (after history)).result = .error fault) := by
  constructor
  · rintro ⟨before, failed, fault, hprefix, hkey, hfault⟩
    rcases List.prefix_concat_iff.mp hprefix with heq | hearlier
    · obtain ⟨rfl, rfl⟩ := List.append_singleton_inj.mp heq
      exact .inr ⟨hkey, fault, hfault⟩
    · exact .inl ⟨before, failed, fault, hearlier, hkey, hfault⟩
  · rintro (⟨before, failed, fault, hprefix, hkey, hfault⟩ | ⟨hkey, fault, hfault⟩)
    · exact ⟨before, failed, fault, hprefix.trans (List.prefix_append _ _), hkey, hfault⟩
    · exact ⟨history, attempt, fault, List.prefix_rfl, hkey, hfault⟩

/-! ## One call -/

variable (attempt : Attempt) (table : Counters)

/-- How a call goes: it counts and fails if it counts first and is refused, else it is a hit. -/
theorem run_cases :
    ((∃ fault, (attempt.run table).result = .error fault) ∧
      (table.hitOf attempt.time attempt.key).count = 1 ∧
      (attempt.run table).state.table = (table.incr attempt.time attempt.key).2) ∨
    ((attempt.run table).result = .ok (table.hitOf attempt.time attempt.key).count ∧
      (attempt.run table).state.table =
        Memory.hit ⟨attempt.time, table⟩ attempt.key attempt.period) := by
  have hplain := attempt.engine.run_increment ⟨attempt.time, table⟩ attempt.key attempt.period
  unfold run
  cases hr : attempt.refusal? with
  | none =>
    rw [Engine.refusing_none, hplain]
    exact .inr ⟨rfl, rfl⟩
  | some refusal =>
    by_cases hfirst : (table.hitOf attempt.time attempt.key).count = 1
    · obtain ⟨fault, hfault, hstate⟩ := Engine.run_increment_refusing
        ⟨attempt.time, table⟩ (attempt.gives_up refusal hr) hfirst
      exact .inl ⟨⟨fault, hfault⟩, hfirst, by rw [hstate]⟩
    · rw [Engine.run_increment_refusing_of_ne hfirst, hplain]
      exact .inr ⟨rfl, rfl⟩

variable {attempt table}

theorem find?_run_of_ne {key : String} (hne : key ≠ attempt.key) :
    (attempt.run table).state.table.find? key = table.find? key := by
  rcases attempt.run_cases table with ⟨-, -, hstate⟩ | ⟨-, hstate⟩
  · rw [hstate, Counters.find?_incr, if_neg hne]
  · rw [hstate, Memory.find?_hit_of_ne _ hne]

/-- **A call that fails leaves a counter without an end that stands at one.** -/
theorem find?_run_of_error (hc : table.Counted attempt.key) {fault : StorageFault}
    (herror : (attempt.run table).result = .error fault) :
    (attempt.run table).state.table.find? attempt.key = some ⟨1, none⟩ := by
  rcases attempt.run_cases table with ⟨-, hfirst, hstate⟩ | ⟨hok, -⟩
  · rw [hstate, Counters.find?_incr, if_pos rfl]
    cases hl : table.live? attempt.time attempt.key with
    | none => rw [Counters.hitOf_of_not_live hl]
    | some counter =>
      rw [Counters.hitOf_of_live hl] at hfirst
      -- an open window has counted before, so that this call would not count first
      have hpos := hc counter (Counters.live?_eq_some_iff.mp hl).1
      have hcount : counter.count + 1 = 1 := hfirst
      omega
  · rw [hok] at herror
    cases herror

/-- **A call that succeeds keeps the end of an open window, and sets the end of a new one.** -/
theorem find?_run_of_ok (hc : table.Counted attempt.key) {count : Nat}
    (hok : (attempt.run table).result = .ok count) :
    ∃ counter, (attempt.run table).state.table.find? attempt.key = some counter ∧
      counter.count = count ∧ 0 < count ∧
      (counter.endsAt = none ↔ table.Endless attempt.key) := by
  rcases attempt.run_cases table with ⟨⟨fault, herror⟩, -, -⟩ | ⟨hresult, hstate⟩
  · rw [herror] at hok
    cases hok
  · obtain rfl := Except.ok.inj (hresult.symm.trans hok)
    rw [hstate]
    cases hl : table.live? attempt.time attempt.key with
    | none =>
      rw [Memory.find?_hit_of_not_live ⟨attempt.time, table⟩ hl, Counters.hitOf_of_not_live hl]
      refine ⟨_, rfl, rfl, Nat.one_pos, ?_⟩
      have hend : (Counter.opened attempt.time attempt.period).endsAt ≠ none := by
        simp [Counter.opened, deadline, attempt.in_range]
      constructor
      · exact fun he => absurd he hend
      · rintro ⟨counter, hf, he⟩
        rw [Counters.live?_of_endsAt_eq_none hf he] at hl
        cases hl
    | some counter =>
      have hf := (Counters.live?_eq_some_iff.mp hl).1
      rw [Memory.find?_hit_of_live ⟨attempt.time, table⟩ hl (hc counter hf),
        Counters.hitOf_of_live hl]
      refine ⟨_, rfl, rfl, Nat.succ_pos _, ?_⟩
      constructor
      · exact fun he => ⟨counter, hf, he⟩
      · rintro ⟨counter', hf', he⟩
        obtain rfl := Option.some.inj (hf.symm.trans hf')
        exact he

/-! ## All histories -/

theorem counted_after (history : List Attempt) (key : String) :
    (after history).Counted key := by
  induction history using List.reverseRecOn with
  | nil => exact fun counter hf => absurd hf (by simp [after])
  | append_singleton history attempt ih =>
    rw [after_append_singleton]
    by_cases hk : key = attempt.key
    · subst hk
      intro counter hf
      cases hr : (attempt.run (after history)).result with
      | error fault =>
        rw [find?_run_of_error ih hr] at hf
        -- the increment stays although the call failed
        obtain rfl := Option.some.inj hf
        exact Nat.one_pos
      | ok count =>
        obtain ⟨stored, hstored, rfl, hpos, -⟩ := find?_run_of_ok ih hr
        obtain rfl := Option.some.inj (hstored.symm.trans hf)
        exact hpos
    · exact ih.congr (find?_run_of_ne hk)

/-- **A key has a counter without an end exactly if a call on it has failed.** -/
theorem endless_iff (history : List Attempt) (key : String) :
    (after history).Endless key ↔ Failed history key := by
  induction history using List.reverseRecOn with
  | nil =>
    refine iff_of_false ?_ (not_failed_nil key)
    rintro ⟨counter, hf, -⟩
    simp [after] at hf
  | append_singleton history attempt ih =>
    rw [after_append_singleton, failed_append_singleton, ← ih]
    by_cases hk : key = attempt.key
    · subst hk
      have hc := counted_after history attempt.key
      cases hr : (attempt.run (after history)).result with
      | error fault =>
        exact iff_of_true ⟨_, find?_run_of_error hc hr, rfl⟩ (.inr ⟨rfl, fault, rfl⟩)
      | ok count =>
        obtain ⟨stored, hstored, -, -, hend⟩ := find?_run_of_ok hc hr
        have hnot : ¬ (attempt.key = attempt.key ∧
            ∃ fault, (Except.ok count : Except StorageFault Nat) = .error fault) := by simp
        rw [or_iff_left hnot, ← hend]
        constructor
        · rintro ⟨counter, hf, he⟩
          obtain rfl := Option.some.inj (hstored.symm.trans hf)
          exact he
        · exact fun he => ⟨stored, hstored, he⟩
    · rw [Counters.endless_congr (find?_run_of_ne hk), or_iff_left fun h => hk h.1.symm]

/--
**A window ends exactly if no call on its key has failed.** After a call that succeeds the counter
of the key has an end, from which on the key is counted from one again, unless some earlier call on
the key failed. If one did, the counter has no end and is counted on at every time.
-/
theorem ends_iff_not_failed {history : List Attempt} {attempt : Attempt} {count : Nat}
    (hok : (attempt.run (after history)).result = .ok count) :
    ∃ counter, (after (history ++ [attempt])).find? attempt.key = some counter ∧
      counter.count = count ∧
      (¬ Failed history attempt.key → ∃ instant, counter.endsAt = some instant ∧
        ∀ later, instant ≤ later →
          ((after (history ++ [attempt])).incr later attempt.key).1 = 1) ∧
      (Failed history attempt.key → counter.endsAt = none ∧
        ∀ later, ((after (history ++ [attempt])).incr later attempt.key).1 = count + 1) := by
  obtain ⟨counter, hf, hcount, -, hend⟩ :=
    find?_run_of_ok (counted_after history attempt.key) hok
  rw [endless_iff] at hend
  rw [← after_append_singleton] at hf
  refine ⟨counter, hf, hcount, fun hnot => ?_, fun hfailed => ?_⟩
  · obtain ⟨instant, hinstant⟩ := Option.ne_none_iff_exists'.mp (fun he => hnot (hend.mp he))
    refine ⟨instant, hinstant, fun later hle => ?_⟩
    show ((after (history ++ [attempt])).hitOf later attempt.key).count = 1
    rw [Counters.hitOf_of_not_live (Counters.live?_of_endsAt_eq_some hf hinstant hle)]
  · have he := hend.mpr hfailed
    refine ⟨he, fun later => ?_⟩
    show ((after (history ++ [attempt])).hitOf later attempt.key).count = count + 1
    rw [Counters.hitOf_of_live (Counters.live?_of_endsAt_eq_none hf he), ← hcount]
    rfl

/--
**One failure is for good.** Whatever calls come after one that failed, at whatever instants and
whether they are refused or not, the key has counted all of them since, and still has no end.
-/
theorem find?_after_failure {history : List Attempt} {attempt : Attempt} {fault : StorageFault}
    (herror : (attempt.run (after history)).result = .error fault) (more : List Attempt) :
    (after (history ++ [attempt] ++ more)).find? attempt.key =
      some ⟨1 + more.countP fun next => next.key = attempt.key, none⟩ := by
  induction more using List.reverseRecOn with
  | nil =>
    rw [List.append_nil, after_append_singleton]
    exact find?_run_of_error (counted_after history attempt.key) herror
  | append_singleton more next ih =>
    rw [← List.append_assoc, after_append_singleton, List.countP_append]
    by_cases hk : next.key = attempt.key
    · rw [← hk] at ih ⊢
      have hlive : (after (history ++ [attempt] ++ more)).live? next.time next.key = some _ :=
        Counters.live?_of_endsAt_eq_none ih rfl
      rcases next.run_cases (after (history ++ [attempt] ++ more)) with
        ⟨-, hfirst, -⟩ | ⟨-, hstate⟩
      · rw [Counters.hitOf_of_live hlive] at hfirst
        simp only [Counter.succ] at hfirst
        omega
      · rw [hstate]
        refine (Memory.find?_hit_of_live ⟨next.time, _⟩ hlive
          (Nat.add_pos_left Nat.one_pos _)).trans ?_
        simp [Counter.succ, Nat.add_assoc]
    · rw [find?_run_of_ne (Ne.symm hk), ih]
      simp [hk]

/-- A call whose expiry is refused with a fault. -/
def hiccup : Attempt :=
  ⟨0, {}, "client", .ofSecs 60, some ⟨.error (.reported "hiccup"), 0⟩,
    fun refusal h => .inl ⟨.reported "hiccup", by cases h; rfl⟩, by decide +kernel⟩

/-- A call on the same key an hour later, when nothing is refused. -/
def retry : Attempt :=
  ⟨3_600_000_000_000, {}, "client", .ofSecs 60, none, by simp, by decide +kernel⟩

/-- An hour after the failure the key still has a counter without an end. -/
theorem not_ends_after_hiccup :
    (retry.run (after [hiccup])).result = .ok 2 ∧
      (after ([hiccup] ++ [retry])).find? "client" = some ⟨2, none⟩ := by
  have hok : (retry.run (after [hiccup])).result = .ok 2 := by decide +kernel
  obtain ⟨counter, hf, hcount, -, hend⟩ := ends_iff_not_failed hok
  have hfailed : Failed [hiccup] retry.key :=
    ⟨[], hiccup, .reported "hiccup", List.prefix_rfl, rfl, by decide +kernel⟩
  refine ⟨hok, hf.trans ?_⟩
  rw [← hcount, ← (hend hfailed).1]

/-- A call that succeeds need not leave a window that ends. -/
theorem not_forall_ok_ends :
    ¬ ∀ (history : List Attempt) (attempt : Attempt) (count : Nat),
      (attempt.run (after history)).result = .ok count →
        ∃ counter, (after (history ++ [attempt])).find? attempt.key = some counter ∧
          counter.endsAt.isSome := by
  intro hall
  obtain ⟨counter, hf, hend⟩ := hall [hiccup] retry 2 (by decide +kernel)
  have hstored : (after ([hiccup] ++ [retry])).find? retry.key = some ⟨2, none⟩ := by
    decide +kernel
  obtain rfl := Option.some.inj (hf.symm.trans hstored)
  cases hend

end Attempt

end Admission
