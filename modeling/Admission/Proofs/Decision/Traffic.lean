import Admission.Proofs.Decision.FirstBreach
import Admission.Proofs.Store.FixedWindow
/-!
# Traffic

Requests that are judged one after another over one store in memory, each at its instant, while the
store is purged now and then. Engines and policies may be others at every request, since both can be
changed while they serve.

`Traffic.run` leads the judgements with the store and collects the verdicts. `Traffic.history` is
what they do to it: `Engine.hits` judges by the same policy once more and notes down each hit that
is counted, with the period that it asks for.

* `Decision.Evaluates`, `Engine.Judges`: all ways in which rules are evaluated and a request is
  judged over the store in memory; what is said about decisions is proved from these
* `Evaluates.run_evaluate`, `Judges.run_judge`: a judgement over the store goes in that way
* `Judges.hits_eq`, `Judges.play_hits`: and its hits are all that it does to the store
* `tableAfter_history`: hence a run leaves the table that its history leaves
-/

namespace Admission

open Store

namespace Store

/-- The store after a hit. -/
def Memory.struck (memory : Memory) (key : String) (period : Duration) : Memory :=
  { memory with table := memory.hit key period }

theorem play_hit_cons (memory : Memory) (key : String) (period : Duration) (rest : List Event) :
    play (⟨memory.now, .hit key period⟩ :: rest) memory =
      (some (.ok (memory.table.liveCount memory.now key + 1)) ::
        (play rest (memory.struck key period)).1, (play rest (memory.struck key period)).2) := by
  simp only [play]
  rw [show memory = ⟨memory.now, memory.table⟩ from rfl, perform_hit, Counters.count_hitOf]
  rfl

end Store

/-! ## The hits of a judgement -/

namespace Engine

/-- Counts a hit and notes it down. -/
def noteHit (engine : Engine) (key : String) (period : Duration) :
    StateT (List Operation) Dialogue (Except StorageFault Nat) := fun noted =>
  (engine.increment key period).bind fun counted => .done (counted, noted ++ [.hit key period])

/-- The hits that the judgement of a request counts over a store, in order. -/
def hits {σ : Type} (engine : Engine) (policy : Policy) (request : Request) (store : Backend σ)
    (state : σ) : List Operation :=
  ((policy.judge engine.noteHit (engine.client request) request.path request.method []).run store
    state).result.2

theorem run_noteHit (engine : Engine) (memory : Memory) (key : String) (period : Duration)
    (noted : List Operation) :
    (engine.noteHit key period noted).run Memory.store memory =
      ⟨(.ok (memory.table.liveCount memory.now key + 1), noted ++ [.hit key period]), 0,
        memory.struck key period⟩ := by
  unfold noteHit
  rw [Dialogue.run_bind, engine.run_increment, Dialogue.after_zero, Counters.count_hitOf]
  rfl

end Engine

namespace Decision

/-- One turn of an evaluation that notes its hits down. -/
theorem run_evaluate_noteHit_cons (engine : Engine) (client path : String) (rule : Rule)
    (rest : List Rule) (memory : Memory) (noted : List Operation) :
    (evaluate engine.noteHit client path (rule :: rest) noted).run Memory.store memory =
      let key := rule.key.render client path
      let count := memory.table.liveCount memory.now key + 1
      let noted := noted ++ [.hit key rule.period]
      if rule.limit.toNat < count then
        ⟨(.ok (throttled rule key count), noted), 0, memory.struck key rule.period⟩
      else (evaluate engine.noteHit client path rest noted).run Memory.store
        (memory.struck key rule.period) := by
  rw [evaluate]
  show (Dialogue.bind _ _).run Memory.store memory = _
  rw [Dialogue.run_bind, engine.run_noteHit, Dialogue.after_zero]
  simp only
  split <;> rfl

/-! ## Evaluations over the store in memory -/

/--
How rules are evaluated over the store in memory: what is decided, which hits are counted, and the
store after them.
-/
inductive Evaluates (client path : String) :
    List Rule → Memory → Decision → List Operation → Memory → Prop where
  /-- No rule is left. -/
  | nil (memory : Memory) : Evaluates client path [] memory .allowed [] memory
  /-- The first rule sees more than its limit, and the others are left out. -/
  | breach {rule : Rule} (rest : List Rule) {memory : Memory} {key : String}
      (hkey : rule.key.render client path = key)
      (hlimit : rule.limit.toNat < memory.table.liveCount memory.now key + 1) :
      Evaluates client path (rule :: rest) memory
        (.throttled rule key (memory.table.liveCount memory.now key + 1))
        [.hit key rule.period] (memory.struck key rule.period)
  /-- The first rule sees no more than its limit, and the others are evaluated after it. -/
  | pass {rule : Rule} {rest : List Rule} {memory after : Memory} {key : String}
      {decision : Decision} {hits : List Operation}
      (hkey : rule.key.render client path = key)
      (hlimit : memory.table.liveCount memory.now key + 1 ≤ rule.limit.toNat)
      (hrest : Evaluates client path rest (memory.struck key rule.period) decision hits after) :
      Evaluates client path (rule :: rest) memory decision (.hit key rule.period :: hits) after

namespace Evaluates

variable {client path : String} {rules : List Rule} {memory after : Memory} {decision : Decision}
  {hits : List Operation}

theorem exists_evaluates (client path : String) (rules : List Rule) (memory : Memory) :
    ∃ decision hits after, Evaluates client path rules memory decision hits after := by
  induction rules generalizing memory with
  | nil => exact ⟨_, _, _, .nil memory⟩
  | cons rule rest ih =>
    by_cases hlimit : rule.limit.toNat <
        memory.table.liveCount memory.now (rule.key.render client path) + 1
    · exact ⟨_, _, _, .breach rest rfl hlimit⟩
    · obtain ⟨decision, hits, after, hrest⟩ := ih (memory.struck _ rule.period)
      exact ⟨_, _, _, .pass rfl (Nat.le_of_not_lt hlimit) hrest⟩

theorem run_evaluate (h : Evaluates client path rules memory decision hits after)
    (engine : Engine) :
    (evaluate engine.increment client path rules).run Memory.store memory =
      ⟨.ok decision, 0, after⟩ := by
  induction h with
  | nil memory => rfl
  | breach rest hkey hlimit =>
    subst hkey
    rw [run_evaluate_cons]
    exact if_pos hlimit
  | pass hkey hlimit hrest ih =>
    subst hkey
    rw [run_evaluate_cons, ← ih]
    exact if_neg (Nat.not_lt.mpr hlimit)

theorem run_evaluate_noteHit (h : Evaluates client path rules memory decision hits after)
    (engine : Engine) (noted : List Operation) :
    (evaluate engine.noteHit client path rules noted).run Memory.store memory =
      ⟨(.ok decision, noted ++ hits), 0, after⟩ := by
  induction h generalizing noted with
  | nil memory =>
    rw [List.append_nil]
    rfl
  | breach rest hkey hlimit =>
    subst hkey
    rw [run_evaluate_noteHit_cons]
    exact if_pos hlimit
  | pass hkey hlimit hrest ih =>
    subst hkey
    rw [run_evaluate_noteHit_cons, List.append_cons, ← ih]
    exact if_neg (Nat.not_lt.mpr hlimit)

/-- Every hit is that of a rule. -/
theorem exists_rule_of_mem (h : Evaluates client path rules memory decision hits after)
    {hit : Operation} (hmem : hit ∈ hits) :
    ∃ rule ∈ rules, hit = .hit (rule.key.render client path) rule.period := by
  induction h with
  | nil memory => cases hmem
  | breach rest hkey hlimit =>
    rw [List.mem_singleton.mp hmem, ← hkey]
    exact ⟨_, List.mem_cons_self, rfl⟩
  | pass hkey hlimit hrest ih =>
    rcases List.mem_cons.mp hmem with rfl | hmem
    · rw [← hkey]
      exact ⟨_, List.mem_cons_self, rfl⟩
    · obtain ⟨rule, hrule, hhit⟩ := ih hmem
      exact ⟨rule, List.mem_cons_of_mem _ hrule, hhit⟩

/-- The store after an evaluation is the store after its hits. -/
theorem play_hits (h : Evaluates client path rules memory decision hits after) :
    (play (hits.map (Event.mk memory.now)) memory).2 = after := by
  induction h with
  | nil memory => rfl
  | breach rest hkey hlimit =>
    rw [List.map_singleton, play_hit_cons]
    rfl
  | pass hkey hlimit hrest ih =>
    rw [List.map_cons, play_hit_cons]
    exact ih

end Evaluates

end Decision

/-! ## Judgements over the store in memory -/

namespace Engine

/--
How an engine judges a request over the store in memory: what is decided, which hits are counted,
and the store after them.
-/
inductive Judges (engine : Engine) (policy : Policy) (request : Request) (memory : Memory) :
    Decision → List Operation → Memory → Prop where
  /-- The client passes every check. -/
  | safelisted (hs : policy.access.isSafelisted (engine.client request) = true) :
      Judges engine policy request memory .safelisted [] memory
  /-- The client is denied. -/
  | blocked (hs : policy.access.isSafelisted (engine.client request) = false)
      (hb : policy.access.isBlocked (engine.client request) = true) :
      Judges engine policy request memory .blocked [] memory
  /-- The client is on no list. -/
  | unlisted {decision : Decision} {hits : List Operation} {after : Memory}
      (hs : policy.access.isSafelisted (engine.client request) = false)
      (hb : policy.access.isBlocked (engine.client request) = false)
      (h : Decision.Evaluates (engine.client request) request.path
        (policy.matching request.path request.method) memory decision hits after) :
      Judges engine policy request memory decision hits after

namespace Judges

variable {engine : Engine} {policy : Policy} {request : Request} {memory after : Memory}
  {decision : Decision} {hits : List Operation}

theorem exists_judges (engine : Engine) (policy : Policy) (request : Request) (memory : Memory) :
    ∃ decision hits after, Judges engine policy request memory decision hits after := by
  cases hs : policy.access.isSafelisted (engine.client request) with
  | true => exact ⟨_, _, _, .safelisted hs⟩
  | false =>
    cases hb : policy.access.isBlocked (engine.client request) with
    | true => exact ⟨_, _, _, .blocked hs hb⟩
    | false =>
      obtain ⟨decision, hits, after, h⟩ := Decision.Evaluates.exists_evaluates
        (engine.client request) request.path (policy.matching request.path request.method) memory
      exact ⟨decision, hits, after, .unlisted hs hb h⟩

theorem run_judge (h : Judges engine policy request memory decision hits after) :
    (engine.judge policy request).run Memory.store memory = ⟨.ok decision, 0, after⟩ := by
  unfold judge
  cases h with
  | safelisted hs =>
    rw [Policy.judge_of_isSafelisted hs]
    rfl
  | blocked hs hb =>
    rw [Policy.judge_of_isBlocked hs hb]
    rfl
  | unlisted hs hb h => rw [Policy.judge_of_unlisted hs hb, h.run_evaluate]

theorem hits_eq (h : Judges engine policy request memory decision hits after) :
    engine.hits policy request Memory.store memory = hits := by
  unfold Engine.hits
  cases h with
  | safelisted hs =>
    rw [Policy.judge_of_isSafelisted hs]
    rfl
  | blocked hs hb =>
    rw [Policy.judge_of_isBlocked hs hb]
    rfl
  | unlisted hs hb h =>
    rw [Policy.judge_of_unlisted hs hb, h.run_evaluate_noteHit]
    rfl

/-- A decision that the lists do not make is that of the rules that apply. -/
theorem evaluates (h : Judges engine policy request memory decision hits after)
    (hs : decision ≠ .safelisted) (hb : decision ≠ .blocked) :
    Decision.Evaluates (engine.client request) request.path
      (policy.matching request.path request.method) memory decision hits after := by
  cases h with
  | safelisted _ => exact absurd rfl hs
  | blocked _ _ => exact absurd rfl hb
  | unlisted _ _ h => exact h

/-- Every hit is that of a rule that applies. -/
theorem exists_rule_of_mem (h : Judges engine policy request memory decision hits after)
    {hit : Operation} (hmem : hit ∈ hits) :
    ∃ rule ∈ policy.matching request.path request.method,
      hit = .hit (rule.key.render (engine.client request) request.path) rule.period := by
  cases h with
  | safelisted hs => cases hmem
  | blocked hs hb => cases hmem
  | unlisted hs hb h => exact h.exists_rule_of_mem hmem

/-- The store after a judgement is the store after its hits. -/
theorem play_hits (h : Judges engine policy request memory decision hits after) :
    (play (hits.map (Event.mk memory.now)) memory).2 = after := by
  cases h with
  | safelisted hs => rfl
  | blocked hs hb => rfl
  | unlisted hs hb h => exact h.play_hits

end Judges

end Engine

/-! ## Runs -/

namespace Traffic

/-- What is done over a store in memory. -/
inductive Action where
  /-- An engine judges a request by a policy. -/
  | judge (engine : Engine) (policy : Policy) (request : Request)
  /-- The counters whose window is over are dropped. -/
  | purge

/-- What a judgement comes to. -/
abbrev Verdict := Except StorageFault Decision

/-- An action at an instant of the clock. -/
structure Step where
  time : Nat
  action : Action
  time_lt : time < clockEnd

/-- Carries a step out; only a judgement has a verdict. -/
def Step.perform (step : Step) (table : Counters) : Option Verdict × Counters :=
  match step.action with
  | .judge engine policy request =>
    let run := (engine.judge policy request).run Memory.store ⟨step.time, table⟩
    (some run.result, run.state.table)
  | .purge => (none, table.purge step.time)

/-- What a step does to the store: a judgement counts its hits. -/
def Step.events (step : Step) (table : Counters) : List Event :=
  match step.action with
  | .judge engine policy request =>
    (engine.hits policy request Memory.store ⟨step.time, table⟩).map (Event.mk step.time)
  | .purge => [⟨step.time, .purge⟩]

/-- Carries steps out one after another and collects the verdicts. -/
def run : List Step → Counters → List (Option Verdict) × Counters
  | [], table => ([], table)
  | step :: rest, table =>
    let (verdict, table) := step.perform table
    let (verdicts, table) := run rest table
    (verdict :: verdicts, table)

/-- What steps do to the store, one after another. -/
def history : List Step → Counters → List Event
  | [], _ => []
  | step :: rest, table => step.events table ++ history rest (step.perform table).2

variable {step : Step} {steps : List Step} {table : Counters}

theorem history_append (before after : List Step) (table : Counters) :
    history (before ++ after) table =
      history before table ++ history after (run before table).2 := by
  induction before generalizing table with
  | nil => rfl
  | cons step rest ih => simp only [List.cons_append, history, run, ih, List.append_assoc]

/-! ## One step -/

section

variable {engine : Engine} {policy : Policy} {request : Request} {decision : Decision}
  {hits : List Operation} {after : Memory}

theorem Step.perform_of_judges (haction : step.action = .judge engine policy request)
    (h : engine.Judges policy request ⟨step.time, table⟩ decision hits after) :
    step.perform table = (some (.ok decision), after.table) := by
  simp only [perform, haction, h.run_judge]

theorem Step.events_of_judges (haction : step.action = .judge engine policy request)
    (h : engine.Judges policy request ⟨step.time, table⟩ decision hits after) :
    step.events table = hits.map (Event.mk step.time) := by
  simp only [events, haction, h.hits_eq]

theorem Step.perform_of_purge (haction : step.action = .purge) (table : Counters) :
    step.perform table = (none, table.purge step.time) := by
  simp only [perform, haction]

theorem Step.events_of_purge (haction : step.action = .purge) (table : Counters) :
    step.events table = [⟨step.time, .purge⟩] := by
  simp only [events, haction]

/-- A step is a judgement, which goes in one of the ways it can, or it is a purge. -/
theorem Step.cases_judges (step : Step) (table : Counters) :
    (∃ engine policy request decision hits after, step.action = .judge engine policy request ∧
      engine.Judges policy request ⟨step.time, table⟩ decision hits after) ∨
    step.action = .purge := by
  cases haction : step.action with
  | judge engine policy request =>
    obtain ⟨decision, hits, after, h⟩ :=
      Engine.Judges.exists_judges engine policy request ⟨step.time, table⟩
    exact .inl ⟨engine, policy, request, decision, hits, after, rfl, h⟩
  | purge => exact .inr rfl

end

/-! ## The table after a run -/

theorem play_events (step : Step) (table : Counters) :
    (play (step.events table) ⟨step.time, table⟩).2.table = (step.perform table).2 := by
  rcases step.cases_judges table with ⟨_, _, _, _, hits, after, haction, h⟩ | haction
  · rw [Step.events_of_judges haction h, Step.perform_of_judges haction h, ← h.play_hits]
  · rw [Step.events_of_purge haction, Step.perform_of_purge haction]
    rfl

theorem play_history (steps : List Step) (memory : Memory) :
    (play (history steps memory.table) memory).2.table = (run steps memory.table).2 := by
  induction steps generalizing memory with
  | nil => rfl
  | cons step rest ih =>
    have htable : memory.table = (Memory.mk step.time memory.table).table := rfl
    -- the clock of the store is set by the step, so only its table matters
    have hstep : (play (step.events memory.table) memory).2.table =
        (step.perform memory.table).2 :=
      (play_congr htable _).2.trans (play_events step memory.table)
    rw [history, run, play_append]
    simp only
    rw [← hstep, ih]

/-- **A run leaves the table that its history leaves.** -/
theorem tableAfter_history (steps : List Step) :
    tableAfter (history steps .empty) = (run steps .empty).2 :=
  play_history steps {}

/-! ## The instants of a history -/

theorem time_of_mem_events {event : Event} (h : event ∈ step.events table) :
    event.time = step.time := by
  rcases step.cases_judges table with ⟨_, _, _, _, hits, _, haction, hjudges⟩ | haction
  · rw [Step.events_of_judges haction hjudges] at h
    obtain ⟨hit, -, rfl⟩ := List.mem_map.mp h
    rfl
  · rw [Step.events_of_purge haction] at h
    rw [List.mem_singleton.mp h]

theorem exists_step_of_mem_history {event : Event} (h : event ∈ history steps table) :
    ∃ step ∈ steps, event.time = step.time := by
  induction steps generalizing table with
  | nil => cases h
  | cons step rest ih =>
    rw [history, List.mem_append] at h
    rcases h with h | h
    · exact ⟨step, List.mem_cons_self, time_of_mem_events h⟩
    · obtain ⟨later, hmem, htime⟩ := ih h
      exact ⟨later, List.mem_cons_of_mem _ hmem, htime⟩

/-- Steps in the order of time have a history in the order of time. -/
theorem pairwise_history (hordered : steps.Pairwise (·.time ≤ ·.time)) (table : Counters) :
    (history steps table).Pairwise (·.time ≤ ·.time) := by
  induction steps generalizing table with
  | nil => exact List.Pairwise.nil
  | cons step rest ih =>
    obtain ⟨hlater, hrest⟩ := List.pairwise_cons.mp hordered
    refine List.pairwise_append.mpr ⟨?_, ih hrest _, ?_⟩
    · refine List.pairwise_of_forall_mem_list fun a ha b hb => Nat.le_of_eq ?_
      rw [time_of_mem_events ha, time_of_mem_events hb]
    · intro a ha b hb
      obtain ⟨later, hmem, htime⟩ := exists_step_of_mem_history hb
      rw [time_of_mem_events ha, htime]
      exact hlater later hmem

/-- No judgement and no purge clears the store. -/
theorem ne_clear_of_mem_history {event : Event} (h : event ∈ history steps table) :
    event.operation ≠ .clear := by
  induction steps generalizing table with
  | nil => cases h
  | cons step rest ih =>
    rw [history, List.mem_append] at h
    rcases h with h | h
    · rcases step.cases_judges table with ⟨_, _, _, _, hits, _, haction, hjudges⟩ | haction
      · rw [Step.events_of_judges haction hjudges] at h
        obtain ⟨hit, hmem, rfl⟩ := List.mem_map.mp h
        obtain ⟨rule, -, hhit⟩ := hjudges.exists_rule_of_mem hmem
        simp [hhit]
      · rw [Step.events_of_purge haction] at h
        simp [List.mem_singleton.mp h]
    · exact ih h

/-! ## Requests of one client -/

theorem twice_pos : 0 < (2 : UInt64).toNat := by decide

/-- A rule for every request that lets two of them through in a minute. -/
def twiceAMinute : Rule := Engine.sharedRule 2 twice_pos

/-- A policy with this rule only. -/
def minutePolicy : Policy := { rules := [twiceAMinute] }

/-- A request by a policy, at an instant in milliseconds. -/
def visit (policy : Policy) (millis : Nat) (h : millis * 1_000_000 < clockEnd) : Step :=
  ⟨millis * 1_000_000, .judge {} policy {}, h⟩

/-! The clock can tell the beginning and the end of the first minute. -/

theorem start_lt_clockEnd : 0 * 1_000_000 < clockEnd := by decide

theorem minute_lt_clockEnd : 60_000 * 1_000_000 < clockEnd := by decide

end Traffic

end Admission
