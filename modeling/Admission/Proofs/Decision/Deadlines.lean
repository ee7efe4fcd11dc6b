import Admission.Config.Basic
import Admission.Proofs.Decision.Turns
/-!
# Deadlines

An engine with a time limit gives every rule that it evaluates the same time anew. Within it fall
the increment and, if that was told one, the expiry. A hit that ends in time is seen as the store
tells it; one that does not is given up exactly at the limit, wherever it stands, and ends the
decision.

A visit is a rule under evaluation, with the time at which its evaluation begins and the store that
it finds. The visits of a decision make a timeline.

1. `elapsed_incrementAndExpire`: how long a hit takes by itself
2. `run_increment_of_waits`, `run_increment_of_late`, `calls_increment`: what becomes of it within a
   limit
3. `exists_timeline`: every evaluation has a timeline, by induction over the rules
4. `Timeline.late`, `Timeline.elapsed_le`: where a timeline ends
5. `judge_timeline`: the time that a decision takes, and what it sees and says

Nothing is assumed about a store: its answers may take any time and tell anything.
-/

namespace Admission

namespace Store

variable {σ α β : Type}

/-! ## One hit -/

/-- The calls of a dialogue with a store. -/
def Dialogue.calls (store : Backend σ) (d : Dialogue α) (state : σ) : List Call :=
  (d.turns store state).map Turn.call

theorem Dialogue.calls_bind (store : Backend σ) (d : Dialogue α) (f : α → Dialogue β) (state : σ) :
    (d.bind f).calls store state =
      d.calls store state ++
        (f (d.run store state).result).calls store (d.run store state).state := by
  rw [calls, turns_bind, List.map_append]
  rfl

/-- A dialogue that is over ends when it begins. -/
theorem Dialogue.after_run_pure (store : Backend σ) (result : α) (state : σ) (time : Nat) :
    ((pure result : Dialogue α).run store state).after time = ⟨result, time, state⟩ := rfl

/-- An answer that tells one, so that the window has to be closed. -/
def Answer.opens (answer : Answer) : Bool :=
  match answer.outcome with
  | .ok 1 => true
  | _ => false

theorem Answer.opens_iff (answer : Answer) : answer.opens = true ↔ answer.outcome = .ok 1 := by
  unfold opens
  split <;> simp_all

variable (store : Backend σ) (key : String) (period : Duration) (state : σ)

/-- How long a hit takes if nobody gives it up: as long as the increment and, if that is told one,
the expiry. -/
def hitDelay : Nat :=
  let counted := store.answer (.incr key) state
  if counted.1.opens then
    counted.1.delay + (store.answer (.expire key period) counted.2).1.delay
  else counted.1.delay

/-- The calls of a hit that is given up when an increment takes too long: there is an expiry exactly
if the increment was in time and was told one. -/
def hitCalls (inTime : Nat → Bool) : List Call :=
  let counted := store.answer (.incr key) state
  if inTime counted.1.delay && counted.1.opens then [.incr key, .expire key period]
  else [.incr key]

/-- The expiry of a hit, said by whether the increment was told one. -/
theorem incrementAndExpire_eq : incrementAndExpire key period =
    .call (.incr key) fun counted =>
      if counted.opens then
        .call (.expire key period) fun closed => .done (closed.outcome.map fun _ => 1)
      else .done counted.outcome := by
  unfold incrementAndExpire
  congr 1
  funext counted
  cases hcounted : counted.outcome with
  | error fault => simp [Answer.opens, hcounted]
  | ok count =>
    by_cases hone : count = 1
    · subst hone
      simp only [Answer.opens, hcounted, if_true]
      congr 1
      funext closed
      cases closed.outcome <;> rfl
    · have hopens : counted.opens = false := by
        rw [Bool.eq_false_iff, Ne, counted.opens_iff, hcounted]
        simpa using hone
      simp [hopens, hone]

theorem elapsed_incrementAndExpire :
    ((incrementAndExpire key period).run store state).elapsed =
      hitDelay store key period state := by
  rw [incrementAndExpire_eq]
  unfold hitDelay
  by_cases hopens : (store.answer (.incr key) state).1.opens
  · simp [Dialogue.run, Dialogue.Run.after, hopens]
  · simp [Dialogue.run, Dialogue.Run.after, hopens]

end Store

namespace Engine

open Store

variable {σ : Type} (engine : Engine) (store : Backend σ) (key : String) (period : Duration)
  (state : σ)

/-- Whether an engine waits for a hit that takes that many milliseconds. -/
def waits (delay : Nat) : Bool :=
  match engine.timeout with
  | none => true
  | some limit => delay ≤ limit.ceilMillis

theorem waits_of_timeout_eq_none {engine : Engine} (h : engine.timeout = none) (delay : Nat) :
    engine.waits delay = true := by
  simp [waits, h]

theorem waits_iff {engine : Engine} {limit : Duration} (h : engine.timeout = some limit)
    (delay : Nat) : engine.waits delay = true ↔ delay ≤ limit.ceilMillis := by
  simp [waits, h]

theorem exists_limit_of_not_waits {engine : Engine} {delay : Nat}
    (h : ¬ engine.waits delay = true) :
    ∃ limit, engine.timeout = some limit ∧ limit.ceilMillis < delay := by
  cases hlimit : engine.timeout with
  | none => exact absurd (waits_of_timeout_eq_none hlimit delay) h
  | some limit =>
    exact ⟨limit, rfl, Nat.lt_of_not_le fun hle => h ((waits_iff hlimit delay).mpr hle)⟩

/-- **A hit that ends in time is seen as the store tells it.** -/
theorem run_increment_of_waits (h : engine.waits (hitDelay store key period state) = true) :
    (engine.increment key period).run store state =
      (incrementAndExpire key period).run store state := by
  unfold increment
  split
  · rfl
  · next limit hlimit =>
    have hle := (waits_iff hlimit _).mp h
    rw [← elapsed_incrementAndExpire] at hle
    exact Dialogue.run_within_of_le store _ hle

/-- **A hit that does not end in time is given up**, exactly at the limit. -/
theorem run_increment_of_late {engine : Engine} {limit : Duration}
    (hlimit : engine.timeout = some limit)
    (h : limit.ceilMillis < hitDelay store key period state) :
    ((engine.increment key period).run store state).result = .error (.timedOut limit) ∧
      ((engine.increment key period).run store state).elapsed = limit.ceilMillis := by
  rw [← elapsed_incrementAndExpire] at h
  simp only [increment, hlimit]
  exact Dialogue.run_within_of_lt store _ h

/-- **There is an expiry exactly if the increment was in time and was told one.** -/
theorem calls_increment : (engine.increment key period).calls store state =
    hitCalls store key period state engine.waits := by
  unfold increment hitCalls Dialogue.calls
  rw [incrementAndExpire_eq]
  cases hlimit : engine.timeout with
  | none =>
    by_cases hopens : (store.answer (.incr key) state).1.opens
    · simp [waits_of_timeout_eq_none hlimit, hopens]
    · simp [hopens]
  | some limit =>
    by_cases hlate : limit.ceilMillis < (store.answer (.incr key) state).1.delay
    · have hgiven : engine.waits (store.answer (.incr key) state).1.delay = false := by
        simpa [waits, hlimit] using hlate
      simp [Dialogue.within, hlate, hgiven]
    · have hwaits : engine.waits (store.answer (.incr key) state).1.delay = true :=
        (waits_iff hlimit _).mpr (Nat.le_of_not_lt hlate)
      by_cases hopens : (store.answer (.incr key) state).1.opens
      · simp [Dialogue.within, hlate, hwaits, hopens]
      · simp [Dialogue.within, hlate, hopens]

end Engine

namespace Decision

open Store

variable {σ : Type}

/-! ## Visits -/

/-- A rule under evaluation, with the time at which its evaluation begins and the store that it
finds. -/
structure Visit (σ : Type) where
  rule : Rule
  began : Nat
  state : σ

section

variable (engine : Engine) (store : Backend σ) (client path : String)

namespace Visit

variable (visit : Visit σ)

/-- The key on which a visit counts. -/
def key : String := visit.rule.key.render client path

/-- How long the hit of a visit takes if nobody gives it up. -/
def delay : Nat := hitDelay store (visit.key client path) visit.rule.period visit.state

/-- How long the increment of a visit takes if nobody gives it up. -/
def pending : Nat := (store.answer (.incr (visit.key client path)) visit.state).1.delay

/-- The hit of a visit as the store itself lets it go: nobody gives it up. -/
def own : Dialogue.Run σ (Except StorageFault Nat) :=
  (incrementAndExpire (visit.key client path) visit.rule.period).run store visit.state

/-- The calls of a visit. -/
def calls : List Call :=
  hitCalls store (visit.key client path) visit.rule.period visit.state engine.waits

/-- **There is no expiry after an increment that is given up.** -/
theorem calls_of_pending {limit : Duration} (hlimit : engine.timeout = some limit)
    (hpending : limit.ceilMillis < visit.pending store client path) :
    visit.calls engine store client path = [.incr (visit.key client path)] := by
  have hgiven : engine.waits (visit.pending store client path) = false := by
    rw [Bool.eq_false_iff, Ne, Engine.waits_iff hlimit]
    exact Nat.not_le.mpr hpending
  unfold calls hitCalls
  rw [pending] at hgiven
  simp [hgiven]

end Visit

/--
How an evaluation of rules goes that begins at some time with a store in some state: the visits that
it makes, and what it comes to, with the time at which it does.
-/
inductive Timeline : List Rule → Nat → σ → List (Visit σ) →
    Dialogue.Run σ (Except StorageFault Decision) → Prop where
  /-- With no rules left the request is allowed. -/
  | allowed (now : Nat) (state : σ) : Timeline [] now state [] ⟨.ok .allowed, now, state⟩
  /-- A rule that is told a count up to its limit in time leaves the rest to the rules after it,
  which begin when the hit ended. -/
  | pass {visit : Visit σ} {count : Nat} {rest : List Rule} {visits : List (Visit σ)}
      {run : Dialogue.Run σ (Except StorageFault Decision)}
      (hwaits : engine.waits (visit.delay store client path) = true)
      (htold : (visit.own store client path).result = .ok count)
      (hcount : count ≤ visit.rule.limit.toNat)
      (hrest : Timeline rest (visit.began + visit.delay store client path)
        (visit.own store client path).state visits run) :
      Timeline (visit.rule :: rest) visit.began visit.state (visit :: visits) run
  /-- A fault that is told in time ends the evaluation. -/
  | fault {visit : Visit σ} {fault : StorageFault} {rest : List Rule}
      (hwaits : engine.waits (visit.delay store client path) = true)
      (htold : (visit.own store client path).result = .error fault) :
      Timeline (visit.rule :: rest) visit.began visit.state [visit]
        ⟨.error fault, visit.began + visit.delay store client path,
          (visit.own store client path).state⟩
  /-- A count above the limit of the rule that is told in time throttles the request. -/
  | breach {visit : Visit σ} {count : Nat} {rest : List Rule}
      (hwaits : engine.waits (visit.delay store client path) = true)
      (htold : (visit.own store client path).result = .ok count)
      (hcount : visit.rule.limit.toNat < count) :
      Timeline (visit.rule :: rest) visit.began visit.state [visit]
        ⟨.ok (.throttled visit.rule (visit.key client path) count),
          visit.began + visit.delay store client path, (visit.own store client path).state⟩
  /-- A hit that takes longer than the limit is given up at the limit, and this is a fault. -/
  | late {visit : Visit σ} {limit : Duration} {rest : List Rule} (after : σ)
      (hlimit : engine.timeout = some limit)
      (hlate : limit.ceilMillis < visit.delay store client path) :
      Timeline (visit.rule :: rest) visit.began visit.state [visit]
        ⟨.error (.timedOut limit), visit.began + limit.ceilMillis, after⟩

end

variable {engine : Engine} {store : Backend σ} {client path : String} {rules : List Rule}
  {now : Nat} {state : σ} {visits : List (Visit σ)} {visit : Visit σ}
  {run : Dialogue.Run σ (Except StorageFault Decision)}

/-- **Every evaluation has a timeline**, and says to the store what its visits say. -/
theorem exists_timeline (engine : Engine) (store : Backend σ) (client path : String)
    (rules : List Rule) (now : Nat) (state : σ) :
    ∃ visits, Timeline engine store client path rules now state visits
        (((evaluate engine.increment client path rules).run store state).after now) ∧
      (evaluate engine.increment client path rules).calls store state =
        visits.flatMap (Visit.calls engine store client path) := by
  induction rules generalizing now state with
  | nil => exact ⟨[], .allowed now state, rfl⟩
  | cons rule rest ih =>
    let visit : Visit σ := ⟨rule, now, state⟩
    have hcalls : (engine.increment (rule.key.render client path) rule.period).calls store state =
        visit.calls engine store client path := engine.calls_increment _ _ _ _
    rw [evaluate]
    show ∃ visits, Timeline engine store client path (visit.rule :: rest) visit.began visit.state
        visits (((Dialogue.bind _ _).run store state).after now) ∧
      (Dialogue.bind _ _).calls store state = _
    rw [Dialogue.run_bind, Dialogue.calls_bind, Dialogue.after_after, hcalls]
    by_cases hwaits : engine.waits (visit.delay store client path) = true
    · have hrun : (engine.increment (rule.key.render client path) rule.period).run store state =
          visit.own store client path := engine.run_increment_of_waits _ _ _ _ hwaits
      have helapsed : (visit.own store client path).elapsed = visit.delay store client path :=
        elapsed_incrementAndExpire _ _ _ _
      rw [hrun, helapsed]
      cases htold : (visit.own store client path).result with
      | error fault =>
        simp only
        rw [Dialogue.after_run_pure]
        exact ⟨[visit], .fault hwaits htold, rfl⟩
      | ok count =>
        simp only
        by_cases hlimit : rule.limit.toNat < count
        · rw [if_pos hlimit, Dialogue.after_run_pure]
          exact ⟨[visit], .breach hwaits htold hlimit, rfl⟩
        · rw [if_neg hlimit]
          obtain ⟨visits, hrest, hsaid⟩ := ih (now + visit.delay store client path)
            (visit.own store client path).state
          refine ⟨visit :: visits, .pass hwaits htold (Nat.le_of_not_lt hlimit) hrest, ?_⟩
          rw [hsaid, List.flatMap_cons]
    · obtain ⟨limit, hlimit, hlate⟩ := Engine.exists_limit_of_not_waits hwaits
      obtain ⟨hresult, helapsed⟩ := Engine.run_increment_of_late store (rule.key.render client path)
        rule.period state hlimit hlate
      rw [hresult, helapsed]
      simp only
      -- by the lemma and not by unfolding, which would compute with the limit
      rw [Dialogue.after_run_pure]
      exact ⟨[visit], .late _ hlimit hlate, rfl⟩

namespace Timeline

/-- The rules are evaluated in order, and none is left out before the last one evaluated. -/
theorem inOrder (h : Timeline engine store client path rules now state visits run) :
    visits.map Visit.rule <+: rules := by
  induction h with
  | allowed => exact List.prefix_rfl
  | pass _ _ _ _ ih => exact (List.prefix_cons_inj _).mpr ih
  | fault => exact ⟨_, rfl⟩
  | breach => exact ⟨_, rfl⟩
  | late => exact ⟨_, rfl⟩

/-- **A late visit is the last one**, and the evaluation ends with its fault at the limit. -/
theorem late_of_mem (h : Timeline engine store client path rules now state visits run)
    (hmem : visit ∈ visits) {limit : Duration} (hlimit : engine.timeout = some limit)
    (hlate : limit.ceilMillis < visit.delay store client path) :
    visits.getLast? = some visit ∧ run.result = .error (.timedOut limit) ∧
      run.elapsed = visit.began + limit.ceilMillis := by
  have hgiven : ∀ {other : Visit σ}, engine.waits (other.delay store client path) = true →
      visit ≠ other := by
    rintro other hwaits rfl
    exact absurd ((Engine.waits_iff hlimit _).mp hwaits) (Nat.not_le.mpr hlate)
  induction h with
  | allowed => cases hmem
  | pass hwaits _ _ _ ih =>
    obtain ⟨hlast, hrun⟩ := ih ((List.mem_cons.mp hmem).resolve_left (hgiven hwaits))
    exact ⟨by rw [List.getLast?_cons, hlast]; rfl, hrun⟩
  | fault hwaits => exact absurd (List.mem_singleton.mp hmem) (hgiven hwaits)
  | breach hwaits => exact absurd (List.mem_singleton.mp hmem) (hgiven hwaits)
  | late after hlimit' _ =>
    obtain rfl := List.mem_singleton.mp hmem
    obtain rfl := Option.some.inj (hlimit.symm.trans hlimit')
    exact ⟨rfl, rfl, rfl⟩

/-- The time of one rule is among the times of all rules. -/
theorem le_length_cons_mul {rule : Rule} {rest : List Rule} {time limit : Nat} (h : time ≤ limit) :
    time ≤ (rule :: rest).length * limit :=
  Nat.le_trans h (Nat.le_mul_of_pos_left limit (Nat.succ_pos rest.length))

/-- **No rule takes longer than the limit.** -/
theorem elapsed_le (h : Timeline engine store client path rules now state visits run)
    {limit : Duration} (hlimit : engine.timeout = some limit) :
    run.elapsed ≤ now + rules.length * limit.ceilMillis := by
  induction h with
  | allowed => exact Nat.le_add_right _ _
  | pass hwaits _ _ _ ih =>
    have hle := (Engine.waits_iff hlimit _).mp hwaits
    rw [List.length_cons, Nat.succ_mul]
    omega
  | fault hwaits =>
    have hle := (Engine.waits_iff hlimit _).mp hwaits
    exact Nat.add_le_add_left (le_length_cons_mul hle) _
  | breach hwaits =>
    have hle := (Engine.waits_iff hlimit _).mp hwaits
    exact Nat.add_le_add_left (le_length_cons_mul hle) _
  | late after hlimit' _ =>
    obtain rfl := Option.some.inj (hlimit.symm.trans hlimit')
    exact Nat.add_le_add_left (le_length_cons_mul (Nat.le_refl _)) _

end Timeline

end Decision

namespace Engine

open Store Decision

theorem waits_iff_of_whole {engine : Engine} {t : Nat}
    (hwhole : ∀ limit, engine.timeout = some limit → limit.ceilMillis = t) (delay : Nat) :
    engine.waits delay = true ↔ engine.timeout = none ∨ delay ≤ t := by
  cases hlimit : engine.timeout with
  | none => simp [waits_of_timeout_eq_none hlimit]
  | some limit => simp [waits_iff hlimit, hwhole limit hlimit]

/-- Nobody is asked for a client on a list, and no time passes. -/
theorem run_judge_of_listed {σ : Type} (store : Backend σ) (state : σ) (engine : Engine)
    (policy : Policy) (request : Request)
    (h : policy.access.isSafelisted (engine.client request) = true ∨
      policy.access.isBlocked (engine.client request) = true) :
    ((engine.judge policy request).run store state).elapsed = 0 ∧
      (engine.judge policy request).calls store state = [] := by
  unfold judge
  by_cases hs : policy.access.isSafelisted (engine.client request) = true
  · rw [Policy.judge_of_isSafelisted hs]
    exact ⟨rfl, rfl⟩
  · rw [Policy.judge_of_isBlocked (Bool.eq_false_iff.mpr hs) (h.resolve_left hs)]
    exact ⟨rfl, rfl⟩

/-- A configured limit of zero stands for no limit. -/
theorem timeout_engine_eq_none_iff (config : Config) :
    config.engine.timeout = none ↔ config.storage.timeoutMillis = 0 := by
  have hzero : config.storage.timeoutMillis = 0 ↔ config.storage.timeoutMillis.toNat = 0 :=
    UInt64.toNat_inj.symm
  rw [hzero, Config.engine, StorageConfig.timeout]
  simp

/--
**A limit bounds every decision.** Let the engine wait `t` milliseconds for a hit, or without a
limit. A client on a list is judged at once and without a call. For any other client the rules that
apply are visited in order, and the visits make a timeline: a hit that takes no longer than `t` by
itself is seen as the store tells it, and one that takes longer is given up `t` after its visit
began. This is a fault of the store, with which the decision ends, and there is no further call,
neither an expiry if the increment was still awaited nor one for a rule after it. So a decision
takes no longer than `t` for each rule that applies. Without a limit, which is what a configured
limit of zero stands for, all hits are seen as the store tells them.
-/
theorem judge_timeline {σ : Type} (store : Backend σ) (state : σ) (engine : Engine)
    (policy : Policy) (request : Request) (t : Nat)
    (hwhole : ∀ limit, engine.timeout = some limit → limit.nanos = t * 1_000_000) :
    let client := engine.client request
    let rules := policy.matching request.path request.method
    let dialogue := engine.judge policy request
    let run := dialogue.run store state
    (policy.access.isSafelisted client = true ∨ policy.access.isBlocked client = true →
      run.elapsed = 0 ∧ dialogue.calls store state = []) ∧
    (policy.access.isSafelisted client = false → policy.access.isBlocked client = false →
      ∃ visits, Timeline engine store client request.path rules 0 state visits run ∧
        visits.map Visit.rule <+: rules ∧
        dialogue.calls store state =
          visits.flatMap (Visit.calls engine store client request.path) ∧
        ∀ visit ∈ visits,
          (engine.waits (visit.delay store client request.path) = true ↔
            engine.timeout = none ∨ visit.delay store client request.path ≤ t) ∧
          ∀ limit, engine.timeout = some limit → t < visit.delay store client request.path →
            (visits.getLast? = some visit ∧ run.result = .error (.timedOut limit) ∧
              run.elapsed = visit.began + t) ∧
            (t < visit.pending store client request.path →
              visit.calls engine store client request.path =
                [.incr (visit.key client request.path)])) ∧
    (engine.timeout ≠ none → run.elapsed ≤ rules.length * t) ∧
    (engine.timeout = none → dialogue =
      policy.judge incrementAndExpire client request.path request.method) ∧
    ∀ config : Config, config.engine.timeout = none ↔ config.storage.timeoutMillis = 0 := by
  have hceil : ∀ limit, engine.timeout = some limit → limit.ceilMillis = t := by
    intro limit hlimit
    have hnanos := hwhole limit hlimit
    have hle := (limit.ceilMillis_le_iff t).mpr (Nat.le_of_eq hnanos)
    have hge := (limit.ceilMillis_le_iff limit.ceilMillis).mp (Nat.le_refl _)
    omega
  intro client rules dialogue run
  have htimeline : policy.access.isSafelisted client = false →
      policy.access.isBlocked client = false →
      ∃ visits, Timeline engine store client request.path rules 0 state visits run ∧
        dialogue.calls store state =
          visits.flatMap (Visit.calls engine store client request.path) := by
    intro hs hb
    have hdialogue : dialogue = evaluate engine.increment client request.path rules :=
      Policy.judge_of_unlisted hs hb
    have h := exists_timeline engine store client request.path rules 0 state
    rw [Dialogue.after_zero, ← hdialogue] at h
    exact h
  have hlisted := run_judge_of_listed store state engine policy request
  refine ⟨hlisted, fun hs hb => ?_, fun hsome => ?_, fun hnone => ?_, timeout_engine_eq_none_iff⟩
  · obtain ⟨visits, h, hcalls⟩ := htimeline hs hb
    refine ⟨visits, h, h.inOrder, hcalls, fun visit hmem => ⟨waits_iff_of_whole hceil _, ?_⟩⟩
    intro limit hlimit hlate
    have hend := h.late_of_mem hmem hlimit
    have hpending := visit.calls_of_pending engine store client request.path hlimit
    rw [hceil limit hlimit] at hend hpending
    exact ⟨hend hlate, hpending⟩
  · obtain ⟨limit, hlimit⟩ := Option.ne_none_iff_exists'.mp hsome
    by_cases hl : policy.access.isSafelisted client = true ∨ policy.access.isBlocked client = true
    · rw [(hlisted hl).1]
      exact Nat.zero_le _
    · obtain ⟨hs, hb⟩ := not_or.mp hl
      obtain ⟨visits, h, -⟩ := htimeline (Bool.eq_false_iff.mpr hs) (Bool.eq_false_iff.mpr hb)
      have hle := h.elapsed_le hlimit
      rwa [hceil limit hlimit, Nat.zero_add] at hle
  · have hplain : engine.increment = incrementAndExpire := by
      funext key period
      rw [increment, hnone]
    show policy.judge engine.increment client request.path request.method = _
    rw [hplain]

/-- A store that opens the window of a key anew at each hit and is slow, each time more. -/
def slowScript : Script :=
  { incr := [⟨.ok 1, 100⟩, ⟨.ok 1, 200⟩], expire := [⟨.ok 0, 150⟩, ⟨.ok 0, 51⟩] }

/-- An engine that waits a quarter of a second. -/
def quarterEngine : Engine := { timeout := some (.ofMillis 250) }

/-- The first of three rules takes all its time. The second has it anew, and its expiry is given up
a millisecond before the answer comes, so that the third is not reached. -/
theorem judge_timeline_of_slow_expiry :
    (∀ limit, quarterEngine.timeout = some limit → limit.nanos = 250 * 1_000_000) ∧
      (quarterEngine.judge sharedPolicy {}).calls Script.store slowScript =
        [.incr "shared", .expire "shared" (.ofSecs 60), .incr "shared",
          .expire "shared" (.ofSecs 60)] ∧
      ((quarterEngine.judge sharedPolicy {}).run Script.store slowScript).result =
        .error (.timedOut (.ofMillis 250)) ∧
      ((quarterEngine.judge sharedPolicy {}).run Script.store slowScript).elapsed = 500 ∧
      ((quarterEngine.judge sharedPolicy {}).run Script.store slowScript).elapsed ≤
        (sharedPolicy.matching "/" "GET").length * 250 ∧
      ∃ visits, Timeline quarterEngine Script.store (quarterEngine.client {}) "/"
        (sharedPolicy.matching "/" "GET") 0 slowScript visits
        ((quarterEngine.judge sharedPolicy {}).run Script.store slowScript) := by
  have hwhole : ∀ limit, quarterEngine.timeout = some limit → limit.nanos = 250 * 1_000_000 := by
    rintro limit ⟨⟩
    rfl
  have hs : sharedPolicy.access.isSafelisted (quarterEngine.client {}) = false := by
    decide +kernel
  have hb : sharedPolicy.access.isBlocked (quarterEngine.client {}) = false := by
    decide +kernel
  obtain ⟨-, hunlisted, hbound, -, -⟩ :=
    judge_timeline Script.store slowScript quarterEngine sharedPolicy {} 250 hwhole
  obtain ⟨visits, htimeline, -⟩ := hunlisted hs hb
  exact ⟨hwhole, by rfl, by rfl, by rfl, hbound (by decide), visits, htimeline⟩

end Engine

end Admission
