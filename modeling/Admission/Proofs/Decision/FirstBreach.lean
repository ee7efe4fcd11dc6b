import Admission.Engine
import Admission.Proofs.Store.Live
/-!
# The first breach

Over the store in memory a decision has a closed form. Each rule that applies sees the live count of
its key before the decision and one hit for every rule up to it, itself included, that renders the
same key; the first rule that sees more than its limit throttles the request, and the rules after it
count nothing. Nothing is assumed about the table, and several rules may render one key.

* `run_increment`: a hit that an engine counts on the store in memory, whatever its time limit
* `run_evaluate_cons`: one turn of the evaluation
* `CountsHits`: what hits on a list of keys do to the store
* `outcome_evaluate`: the closed form of the evaluation, by induction over the rules
* `judge_first_breach`: the closed form of a decision

The induction needs the closed form for every live count, because the rest of the rules starts from
the counts that the first one leaves: a hit on its key moves from the list of keys to the counts.
-/

namespace Admission

open Store

/-! ## One hit -/

namespace Store.Dialogue

@[simp]
theorem after_zero {σ α : Type} (run : Run σ α) : run.after 0 = run := by
  simp [Run.after]

end Store.Dialogue

namespace Engine

/-- **A hit on the store in memory ends at once, so that no time limit matters.** -/
theorem run_increment (engine : Engine) (memory : Memory) (key : String) (period : Duration) :
    (engine.increment key period).run Memory.store memory =
      ⟨.ok (memory.table.hitOf memory.now key).count, 0,
        { memory with table := memory.hit key period }⟩ := by
  have hplain := Memory.run_incrementAndExpire memory key period
  unfold increment
  cases engine.timeout with
  | none => exact hplain
  | some limit =>
    have hle : ((incrementAndExpire key period).run Memory.store memory).elapsed ≤
        limit.ceilMillis := by
      rw [hplain]
      exact Nat.zero_le _
    exact (Dialogue.run_within_of_le Memory.store _ hle).trans hplain

end Engine

/-! ## Hits on a list of keys -/

/-- The store after hits on keys, one for each time that a key is listed, at one instant. -/
structure CountsHits (before after : Memory) (keys : List String) : Prop where
  now : after.now = before.now
  live : ∀ key, after.table.liveCount after.now key =
    before.table.liveCount before.now key + keys.count key
  /-- A key that is not listed keeps what is stored for it. -/
  frame : ∀ key, key ∉ keys → after.table.find? key = before.table.find? key

namespace CountsHits

theorem refl (memory : Memory) : CountsHits memory memory [] where
  now := rfl
  live := fun _ => rfl
  frame := fun _ _ => rfl

theorem append {a b c : Memory} {keys more : List String} (h : CountsHits a b keys)
    (h' : CountsHits b c more) : CountsHits a c (keys ++ more) where
  now := h'.now.trans h.now
  live := fun key => by rw [h'.live, h.live, List.count_append, Nat.add_assoc]
  frame := fun key hk => by
    rw [List.mem_append, not_or] at hk
    rw [h'.frame key hk.2, h.frame key hk.1]

theorem hit (memory : Memory) (key : String) {period : Duration} (hp : 0 < period.nanos) :
    CountsHits memory { memory with table := memory.hit key period } [key] where
  now := rfl
  live := fun other => by
    show (memory.hit key period).liveCount memory.now other = _
    rw [Memory.liveCount_hit memory key other hp, List.count_singleton]
    by_cases ho : other = key
    · simp [ho]
    · simp [ho, Ne.symm ho]
  frame := fun other ho => Memory.find?_hit_of_ne memory (by simpa using ho)

end CountsHits

namespace Decision

variable (client path : String)

/-- The keys that rules render, in order. -/
def keys (rules : List Rule) : List String := rules.map fun rule => rule.key.render client path

/-- The count that a rule sees after hits on keys from given counts. -/
def seen (live : String → Nat) (hits : List String) (rule : Rule) : Nat :=
  live (rule.key.render client path) + hits.count (rule.key.render client path)

/-- The rule at a place sees more than its limit if all rules up to it count their hit. -/
def Breaches (live : String → Nat) (rules : List Rule) (place : Nat) (rule : Rule) : Prop :=
  rules[place]? = some rule ∧
    rule.limit.toNat < seen client path live (keys client path (rules.take (place + 1))) rule

section

variable {live : String → Nat} {first rule : Rule} {rest : List Rule} {place : Nat}

theorem seen_append (keys more : List String) :
    seen client path live (keys ++ more) rule =
      seen client path (fun key => live key + keys.count key) more rule := by
  simp only [seen, List.count_append]
  omega

theorem breaches_cons_zero :
    Breaches client path live (first :: rest) 0 rule ↔
      first = rule ∧ first.limit.toNat < live (first.key.render client path) + 1 := by
  unfold Breaches
  rw [List.getElem?_cons_zero, Option.some.injEq]
  constructor
  · rintro ⟨rfl, h⟩
    exact ⟨rfl, by simpa [seen, keys] using h⟩
  · rintro ⟨rfl, h⟩
    exact ⟨rfl, by simpa [seen, keys] using h⟩

/-- The rules after the first one start from the counts that its hit leaves. -/
theorem breaches_cons_succ :
    Breaches client path live (first :: rest) (place + 1) rule ↔
      Breaches client path (fun key => live key + [first.key.render client path].count key) rest
        place rule := by
  unfold Breaches
  rw [List.getElem?_cons_succ, List.take_succ_cons, keys, List.map_cons, ← List.singleton_append,
    seen_append]
  rfl

end

/-! ## The closed form -/

/-- One turn of the evaluation. -/
theorem run_evaluate_cons (engine : Engine) (rule : Rule) (rest : List Rule) (memory : Memory) :
    (evaluate engine.increment client path (rule :: rest)).run Memory.store memory =
      let key := rule.key.render client path
      let count := memory.table.liveCount memory.now key + 1
      let after : Memory := { memory with table := memory.hit key rule.period }
      if rule.limit.toNat < count then ⟨.ok (throttled rule key count), 0, after⟩
      else (evaluate engine.increment client path rest).run Memory.store after := by
  rw [evaluate]
  show (Dialogue.bind _ _).run Memory.store memory = _
  rw [Dialogue.run_bind, engine.run_increment, Dialogue.after_zero, Counters.count_hitOf]
  simp only
  split <;> rfl

/-- How an evaluation of rules ends that starts on a store with given live counts. -/
structure Outcome (live : String → Nat) (rules : List Rule) (before : Memory)
    (run : Dialogue.Run Memory (Except StorageFault Decision)) : Prop where
  /-- The first rule that breaches throttles, and no rule after it counts. -/
  breach : ∀ place rule, Breaches client path live rules place rule →
    (∀ i < place, ∀ other, ¬ Breaches client path live rules i other) →
    run.result = .ok (throttled rule (rule.key.render client path)
      (seen client path live (keys client path (rules.take (place + 1))) rule)) ∧
    CountsHits before run.state (keys client path (rules.take (place + 1)))
  /-- If no rule breaches, all of them count. -/
  noBreach : (∀ i other, ¬ Breaches client path live rules i other) →
    run.result = .ok allowed ∧ CountsHits before run.state (keys client path rules)

variable {client path}

/-- An evaluation that goes on after its first rule ends as the evaluation of the rest does. -/
theorem Outcome.cons {live : String → Nat} {rule : Rule} {rest : List Rule}
    {before after : Memory} {run : Dialogue.Run Memory (Except StorageFault Decision)}
    (hhit : CountsHits before after [rule.key.render client path])
    (hlimit : ¬ rule.limit.toNat < live (rule.key.render client path) + 1)
    (h : Outcome client path (fun key => live key + [rule.key.render client path].count key) rest
      after run) :
    Outcome client path live (rule :: rest) before run where
  breach := by
    intro place breaker hbreach hfirst
    cases place with
    | zero => exact absurd (breaches_cons_zero client path |>.mp hbreach).2 hlimit
    | succ place =>
      obtain ⟨hresult, hcounts⟩ := h.breach place breaker
        ((breaches_cons_succ client path).mp hbreach) fun i hi other hother =>
          hfirst (i + 1) (by omega) other ((breaches_cons_succ client path).mpr hother)
      -- the hit of the first rule is among those that the breaking rule sees
      rw [List.take_succ_cons, keys, List.map_cons, ← List.singleton_append, seen_append]
      exact ⟨hresult, hhit.append hcounts⟩
  noBreach := by
    intro hnone
    obtain ⟨hresult, hcounts⟩ := h.noBreach fun i other hother =>
      hnone (i + 1) other ((breaches_cons_succ client path).mpr hother)
    exact ⟨hresult, hhit.append hcounts⟩

/-- An evaluation that its first rule stops. -/
theorem Outcome.of_first {live : String → Nat} {rule : Rule} {rest : List Rule}
    {before after : Memory} (hhit : CountsHits before after [rule.key.render client path])
    (hlimit : rule.limit.toNat < live (rule.key.render client path) + 1) :
    Outcome client path live (rule :: rest) before
      ⟨.ok (throttled rule (rule.key.render client path)
        (live (rule.key.render client path) + 1)), 0, after⟩ where
  breach := by
    intro place breaker hbreach hfirst
    cases place with
    | zero =>
      obtain ⟨rfl, -⟩ := (breaches_cons_zero client path).mp hbreach
      exact ⟨by simp [seen, keys], hhit⟩
    | succ place =>
      exact absurd ((breaches_cons_zero client path).mpr ⟨rfl, hlimit⟩)
        (hfirst 0 (by omega) rule)
  noBreach := fun hnone =>
    absurd ((breaches_cons_zero client path).mpr ⟨rfl, hlimit⟩) (hnone 0 rule)

/-- **The closed form of an evaluation.** -/
theorem outcome_evaluate (engine : Engine) (rules : List Rule) (memory : Memory) :
    Outcome client path (memory.table.liveCount memory.now) rules memory
      ((evaluate engine.increment client path rules).run Memory.store memory) := by
  induction rules generalizing memory with
  | nil => exact ⟨fun _ _ h => absurd h.1 (by simp), fun _ => ⟨rfl, .refl memory⟩⟩
  | cons rule rest ih =>
    have hhit := CountsHits.hit memory (rule.key.render client path) rule.period_pos
    rw [run_evaluate_cons]
    by_cases hlimit : rule.limit.toNat <
        memory.table.liveCount memory.now (rule.key.render client path) + 1
    · simp only [if_pos hlimit]
      exact .of_first hhit hlimit
    · simp only [if_neg hlimit]
      refine .cons hhit hlimit ?_
      -- the rest starts from the counts that the hit has left
      rw [← funext hhit.live]
      exact ih _

end Decision

namespace Engine

/--
**The closed form of a decision.** A client that is on no list is judged by the rules that apply:
the first one that breaches throttles the request, and if none does the request is allowed. What is
counted is one hit for each rule up to the one that stopped the evaluation.
-/
theorem judge_first_breach (engine : Engine) (policy : Policy) (request : Request) (memory : Memory)
    (hs : policy.access.isSafelisted (engine.client request) = false)
    (hb : policy.access.isBlocked (engine.client request) = false) :
    Decision.Outcome (engine.client request) request.path (memory.table.liveCount memory.now)
      (policy.matching request.path request.method) memory
      ((engine.judge policy request).run Memory.store memory) := by
  rw [judge, Policy.judge_of_unlisted hs hb]
  exact Decision.outcome_evaluate engine _ memory

/-- A rule for every request with one counter for all clients. -/
def sharedRule (limit : UInt64) (h : 0 < limit.toNat) : Rule :=
  ⟨none, .any, "", ⟨"shared"⟩, limit, .ofSecs 60, h, by decide⟩

/-- Two rules, and a third that is not reached, over a counter that stands at one. -/
def sharedPolicy : Policy :=
  { rules := [sharedRule 5 (by decide), sharedRule 2 (by decide), sharedRule 9 (by decide)] }

/-- A store in which the counter of these rules stands at one. -/
def sharedMemory : Memory := ⟨7, Counters.empty.put "shared" ⟨1, none⟩⟩

/-- The same rules with two others between them that would breach before the second: one for another
method and one for another path. -/
def mixedPolicy : Policy :=
  { rules := [sharedRule 5 (by decide),
      { sharedRule 2 (by decide) with method := "POST" },
      { sharedRule 2 (by decide) with pattern := .exact "/login" },
      sharedRule 2 (by decide), sharedRule 9 (by decide)] }

/-- The rules that do not apply are left out. The second of two others with one key sees the hit of
the first, and breaches. -/
theorem judge_first_breach_shared_key :
    mixedPolicy.access.isSafelisted (Engine.client {} {}) = false ∧
      mixedPolicy.access.isBlocked (Engine.client {} {}) = false ∧
      mixedPolicy.matching "/" "GET" = sharedPolicy.rules ∧
      ((Engine.judge {} mixedPolicy {}).run Memory.store sharedMemory).result =
        .ok (.throttled (sharedRule 2 (by decide)) "shared" 3) := by
  have hs : mixedPolicy.access.isSafelisted (Engine.client {} {}) = false := by decide +kernel
  have hb : mixedPolicy.access.isBlocked (Engine.client {} {}) = false := by decide +kernel
  have hmatching : mixedPolicy.matching "/" "GET" = sharedPolicy.rules := by
    rw [Policy.matching_eq_filter]
    decide +kernel
  have hclosed := judge_first_breach {} mixedPolicy {} sharedMemory hs hb
  rw [show mixedPolicy.matching ({} : Request).path ({} : Request).method = sharedPolicy.rules from
    hmatching] at hclosed
  have hbreach : Decision.Breaches (Engine.client {} {}) "/"
      (sharedMemory.table.liveCount sharedMemory.now) sharedPolicy.rules 1
      (sharedRule 2 (by decide)) := by
    exact ⟨rfl, by decide +kernel⟩
  have hfirst : ∀ i < 1, ∀ other, ¬ Decision.Breaches (Engine.client {} {}) "/"
      (sharedMemory.table.liveCount sharedMemory.now) sharedPolicy.rules i other := by
    intro i hi other hother
    obtain rfl : i = 0 := by omega
    obtain ⟨-, hover⟩ := (Decision.breaches_cons_zero _ _).mp hother
    exact absurd hover (by decide +kernel)
  have hcount : Decision.seen (Engine.client {} {}) "/"
      (sharedMemory.table.liveCount sharedMemory.now)
      (Decision.keys (Engine.client {} {}) "/" (sharedPolicy.rules.take 2))
      (sharedRule 2 (by decide)) = 3 := by
    decide +kernel
  have hkey : (sharedRule 2 (by decide)).key.render (Engine.client {} {}) "/" = "shared" := by
    decide +kernel
  have hresult := (hclosed.breach 1 _ hbreach hfirst).1
  rw [hkey, hcount] at hresult
  exact ⟨hs, hb, hmatching, hresult⟩

end Engine

end Admission
