import Admission.Proofs.Decision.FirstBreach
import Admission.Store.Scripted
/-!
# Turns

What a decision says to a counter store, over any store, whatever it counts and wherever it fails.
A turn is a call and the outcome of its answer. With each rule that is evaluated the store has an
exchange: the increment and, if that was told one, the expiry.

1. `run_recorded`, `turns_bind`: a record of the turns changes nothing, and dialogues in a row have
   their turns in a row
2. `exists_exchange`: the turns of one hit are those of an exchange, and the hit comes to what the
   exchange tells
3. `Course.nil`, `Course.pass`, `Course.fault`, `Course.breach`: one rule of an evaluation
4. `exists_course`: the course of an evaluation, by induction over the rules
5. `judge_turns`: the turns of a decision

Nothing is assumed about the answers. A store may tell one at every increment, tell less than
before, or fail at either call.
-/

namespace Admission

namespace Store

variable {σ α β : Type}

/-! ## A record of the turns -/

/-- A call to a store and the outcome of its answer. -/
structure Turn where
  call : Call
  outcome : Except StorageFault Nat

/-- The store with a record of its turns. -/
def Backend.recorded (store : Backend σ) : Backend (σ × List Turn) where
  answer request state :=
    let reply := store.answer request state.1
    (reply.1, reply.2, state.2 ++ [⟨request, reply.1.outcome⟩])

namespace Dialogue

/-- The turns of a dialogue with a store. -/
def turns (store : Backend σ) (d : Dialogue α) (state : σ) : List Turn :=
  (d.run store.recorded (state, [])).state.2

/-- **A record changes nothing.** -/
theorem run_recorded (store : Backend σ) (d : Dialogue α) (state : σ) (before : List Turn) :
    d.run store.recorded (state, before) =
      ⟨(d.run store state).result, (d.run store state).elapsed,
        ((d.run store state).state, before ++ d.turns store state)⟩ := by
  induction d generalizing state before with
  | done result => simp [run, turns]
  | call request next ih =>
    have hrun : ∀ turns, (call request next).run store.recorded (state, turns) =
        ((next (store.answer request state).1).run store.recorded
          ((store.answer request state).2,
            turns ++ [⟨request, (store.answer request state).1.outcome⟩])).after
          (store.answer request state).1.delay := fun _ => rfl
    rw [turns, hrun, hrun, ih, ih, List.append_assoc]
    rfl
  | callWithin request limit late next ihl ihn =>
    have hrun : ∀ turns, (callWithin request limit late next).run store.recorded (state, turns) =
        if limit < (store.answer request state).1.delay then
          (late.run store.recorded ((store.answer request state).2,
            turns ++ [⟨request, (store.answer request state).1.outcome⟩])).after limit
        else ((next (store.answer request state).1).run store.recorded
          ((store.answer request state).2,
            turns ++ [⟨request, (store.answer request state).1.outcome⟩])).after
          (store.answer request state).1.delay := fun _ => rfl
    rw [turns, hrun, hrun, run]
    split
    · rw [ihl, ihl, List.append_assoc]
      rfl
    · rw [ihn, ihn, List.append_assoc]
      rfl

@[simp]
theorem turns_done (store : Backend σ) (result : α) (state : σ) :
    (done result).turns store state = [] := rfl

@[simp]
theorem turns_call (store : Backend σ) (request : Call) (next : Answer → Dialogue α) (state : σ) :
    (call request next).turns store state =
      ⟨request, (store.answer request state).1.outcome⟩ ::
        (next (store.answer request state).1).turns store (store.answer request state).2 := by
  show ((next _).run store.recorded (_, [] ++ [_])).state.2 = _
  rw [run_recorded]
  rfl

@[simp]
theorem turns_callWithin (store : Backend σ) (request : Call) (limit : Nat) (late : Dialogue α)
    (next : Answer → Dialogue α) (state : σ) :
    (callWithin request limit late next).turns store state =
      ⟨request, (store.answer request state).1.outcome⟩ ::
        if limit < (store.answer request state).1.delay then
          late.turns store (store.answer request state).2
        else (next (store.answer request state).1).turns store (store.answer request state).2 := by
  by_cases hlate : limit < (store.answer request state).1.delay
  · have hrun : (callWithin request limit late next).run store.recorded (state, []) = _ :=
      if_pos hlate
    rw [if_pos hlate, turns, hrun]
    show (late.run store.recorded (_, [] ++ [_])).state.2 = _
    rw [run_recorded]
    rfl
  · have hrun : (callWithin request limit late next).run store.recorded (state, []) = _ :=
      if_neg hlate
    rw [if_neg hlate, turns, hrun]
    show ((next _).run store.recorded (_, [] ++ [_])).state.2 = _
    rw [run_recorded]
    rfl

/-- **Dialogues in a row have their turns in a row.** -/
theorem turns_bind (store : Backend σ) (d : Dialogue α) (f : α → Dialogue β) (state : σ) :
    (d.bind f).turns store state =
      d.turns store state ++
        (f (d.run store state).result).turns store (d.run store state).state := by
  rw [turns, run_bind, run_recorded]
  show ((f _).run store.recorded (_, [] ++ _)).state.2 = _
  rw [run_recorded]
  rfl

end Dialogue

/-! ## One hit -/

/-- What a store says to one hit: to the increment and, if there is one, to the expiry. -/
structure Exchange where
  counted : Except StorageFault Nat
  closed? : Option (Except StorageFault Nat)
  /-- The window is closed exactly if the increment was told one. -/
  closed_iff : closed?.isSome = true ↔ counted = .ok 1

namespace Exchange

/-- The turns of an exchange: the increment, and the expiry after it if there is one. -/
def turns (exchange : Exchange) (key : String) (period : Duration) : List Turn :=
  ⟨.incr key, exchange.counted⟩ :: (exchange.closed?.map (Turn.mk (.expire key period))).toList

/-- What comes of an exchange: the fault of a call that failed, or else the count. -/
def told (exchange : Exchange) : Except StorageFault Nat :=
  match exchange.closed? with
  | some (.error fault) => .error fault
  | _ => exchange.counted

end Exchange

/-- **The turns of a hit are those of an exchange.** -/
theorem exists_exchange (store : Backend σ) (key : String) (period : Duration) (state : σ) :
    ∃ exchange : Exchange,
      (incrementAndExpire key period).turns store state = exchange.turns key period ∧
      ((incrementAndExpire key period).run store state).result = exchange.told := by
  unfold incrementAndExpire
  generalize hcounted : (store.answer (.incr key) state).1.outcome = counted
  cases counted with
  | error fault =>
    refine ⟨⟨.error fault, none, by simp⟩, ?_, ?_⟩
    · simp [hcounted, Exchange.turns]
    · simp [Dialogue.run, hcounted, Dialogue.Run.after, Exchange.told]
  | ok count =>
    by_cases hone : count = 1
    · subst hone
      generalize hclosed :
        (store.answer (.expire key period) (store.answer (.incr key) state).2).1.outcome = closed
      refine ⟨⟨.ok 1, some closed, by simp⟩, ?_, ?_⟩
      · cases closed <;> simp [hcounted, hclosed, Exchange.turns]
      · cases closed <;>
          simp [Dialogue.run, hcounted, hclosed, Dialogue.Run.after, Exchange.told]
    · refine ⟨⟨.ok count, none, by simpa using hone⟩, ?_, ?_⟩
      · simp [hcounted, hone, Exchange.turns]
      · simp [Dialogue.run, hcounted, hone, Dialogue.Run.after, Exchange.told]

end Store

open Store

namespace Decision

variable {client path : String}

/-! ## The course of an evaluation -/

/-- The turns of rules, each with its exchange. -/
def turnsOf (client path : String) (talks : List (Rule × Exchange)) : List Turn :=
  talks.flatMap fun (rule, exchange) =>
    exchange.turns (rule.key.render client path) rule.period

/-- A rule is told a count up to its limit. -/
def Passes (talk : Rule × Exchange) : Prop :=
  ∃ count, talk.2.told = .ok count ∧ count ≤ talk.1.limit.toNat

/-- How an evaluation of rules goes over a store, from the exchanges of the rules evaluated. -/
structure Course (client path : String) (rules : List Rule) (talks : List (Rule × Exchange))
    (turns : List Turn) (result : Except StorageFault Decision) : Prop where
  turns_eq : turns = turnsOf client path talks
  /-- The rules are evaluated in order, and none is left out before the last one evaluated. -/
  inOrder : talks.map Prod.fst <+: rules
  /-- No rule is evaluated after one that does not pass. -/
  passes : ∀ talk ∈ talks.dropLast, Passes talk
  allowed_iff : result = .ok .allowed ↔ talks.map Prod.fst = rules ∧ ∀ talk ∈ talks, Passes talk
  fault_iff : ∀ fault, result = .error fault ↔
    ∃ talk, talks.getLast? = some talk ∧ talk.2.told = .error fault
  throttled_iff : ∀ rule key count, result = .ok (.throttled rule key count) ↔
    rule.key.render client path = key ∧ ∃ exchange, talks.getLast? = some (rule, exchange) ∧
      exchange.told = .ok count ∧ rule.limit.toNat < count
  ne_safelisted : result ≠ .ok .safelisted
  ne_blocked : result ≠ .ok .blocked

namespace Course

variable {rule : Rule} {rest : List Rule} {exchange : Exchange} {talks : List (Rule × Exchange)}
  {turns : List Turn} {result : Except StorageFault Decision}

theorem nil : Course client path [] [] [] (.ok .allowed) where
  turns_eq := rfl
  inOrder := List.prefix_rfl
  passes := by simp
  allowed_iff := by simp
  fault_iff := by simp
  throttled_iff := by simp
  ne_safelisted := by simp
  ne_blocked := by simp

/-- A rule that passes leaves the rest of the evaluation to the rules after it. -/
theorem pass (h : Course client path rest talks turns result) (hpass : Passes (rule, exchange)) :
    Course client path (rule :: rest) ((rule, exchange) :: talks)
      (exchange.turns (rule.key.render client path) rule.period ++ turns) result := by
  obtain ⟨count, htold, hcount⟩ := id hpass
  have hlast : ∀ talk, ((rule, exchange) :: talks).getLast? = some talk →
      talk = (rule, exchange) ∨ talks.getLast? = some talk := by
    intro talk hl
    rw [List.getLast?_cons, Option.some.injEq] at hl
    cases ht : talks.getLast? with
    | none => exact .inl (by rw [← hl, ht]; rfl)
    | some other => exact .inr (by rw [← hl, ht]; rfl)
  have hlast' : ∀ talk, talks.getLast? = some talk →
      ((rule, exchange) :: talks).getLast? = some talk := by
    intro talk hl
    rw [List.getLast?_cons, hl]
    rfl
  refine ⟨?_, ?_, ?_, ?_, ?_, ?_, h.ne_safelisted, h.ne_blocked⟩
  · rw [h.turns_eq]
    rfl
  · exact List.prefix_cons_inj rule |>.mpr h.inOrder
  · intro talk htalk
    cases talks with
    | nil => cases htalk
    | cons next talks =>
      rcases List.mem_cons.mp htalk with rfl | htalk
      · exact hpass
      · exact h.passes talk htalk
  · rw [h.allowed_iff, List.map_cons, List.cons.injEq, List.forall_mem_cons]
    exact ⟨fun ⟨hall, hpasses⟩ => ⟨⟨rfl, hall⟩, hpass, hpasses⟩,
      fun ⟨⟨_, hall⟩, _, hpasses⟩ => ⟨hall, hpasses⟩⟩
  · intro fault
    rw [h.fault_iff]
    constructor
    · rintro ⟨talk, hl, hfault⟩
      exact ⟨talk, hlast' talk hl, hfault⟩
    · rintro ⟨talk, hl, hfault⟩
      rcases hlast talk hl with rfl | hl
      · rw [htold] at hfault
        cases hfault
      · exact ⟨talk, hl, hfault⟩
  · intro breaker key seen
    rw [h.throttled_iff]
    constructor
    · rintro ⟨hkey, other, hl, hseen⟩
      exact ⟨hkey, other, hlast' _ hl, hseen⟩
    · rintro ⟨hkey, other, hl, hseen, hover⟩
      rcases hlast _ hl with heq | hl
      · cases heq
        rw [htold, Except.ok.injEq] at hseen
        exact absurd (hseen ▸ hover) (Nat.not_lt.mpr hcount)
      · exact ⟨hkey, other, hl, hseen, hover⟩

/-- A call that fails ends the evaluation. -/
theorem fault {cause : StorageFault} (htold : exchange.told = .error cause) :
    Course client path (rule :: rest) [(rule, exchange)]
      (exchange.turns (rule.key.render client path) rule.period) (.error cause) where
  turns_eq := (List.append_nil _).symm
  inOrder := ⟨rest, rfl⟩
  passes := by simp
  allowed_iff := by simp [Passes, htold]
  fault_iff := by simp [htold]
  throttled_iff := by simp [htold]
  ne_safelisted := by simp
  ne_blocked := by simp

/-- A rule that is told more than its limit ends the evaluation. -/
theorem breach {count : Nat} (htold : exchange.told = .ok count)
    (hlimit : rule.limit.toNat < count) :
    Course client path (rule :: rest) [(rule, exchange)]
      (exchange.turns (rule.key.render client path) rule.period)
      (.ok (.throttled rule (rule.key.render client path) count)) where
  turns_eq := (List.append_nil _).symm
  inOrder := ⟨rest, rfl⟩
  passes := by simp
  allowed_iff := by simp [Passes, htold, hlimit]
  fault_iff := by simp [htold]
  throttled_iff := by
    intro breaker key seen
    simp only [Except.ok.injEq, throttled.injEq, List.getLast?_singleton, Option.some.injEq,
      Prod.mk.injEq]
    constructor
    · rintro ⟨rfl, rfl, rfl⟩
      exact ⟨rfl, exchange, ⟨rfl, rfl⟩, htold, hlimit⟩
    · rintro ⟨rfl, other, ⟨rfl, rfl⟩, hseen, -⟩
      rw [htold, Except.ok.injEq] at hseen
      exact ⟨rfl, rfl, hseen⟩
  ne_safelisted := by simp
  ne_blocked := by simp

end Course

/-- **Every evaluation has a course**, whatever the store answers. -/
theorem exists_course {σ : Type} (store : Backend σ) (client path : String) (rules : List Rule)
    (state : σ) :
    ∃ talks, Course client path rules talks
      ((evaluate incrementAndExpire client path rules).turns store state)
      ((evaluate incrementAndExpire client path rules).run store state).result := by
  induction rules generalizing state with
  | nil => exact ⟨[], .nil⟩
  | cons rule rest ih =>
    obtain ⟨exchange, hturns, htold⟩ :=
      exists_exchange store (rule.key.render client path) rule.period state
    rw [evaluate]
    show ∃ talks, Course client path (rule :: rest) talks
      ((Dialogue.bind _ _).turns store state) ((Dialogue.bind _ _).run store state).result
    rw [Dialogue.turns_bind, Dialogue.run_bind, hturns, htold]
    cases hcount : exchange.told with
    | error cause =>
      refine ⟨[(rule, exchange)], ?_⟩
      show Course client path (rule :: rest) _ (_ ++ []) (.error cause)
      rw [List.append_nil]
      exact .fault hcount
    | ok count =>
      simp only
      by_cases hlimit : rule.limit.toNat < count
      · refine ⟨[(rule, exchange)], ?_⟩
        rw [if_pos hlimit]
        show Course client path (rule :: rest) _ (_ ++ []) (.ok _)
        rw [List.append_nil]
        exact .breach hcount hlimit
      · rw [if_neg hlimit]
        obtain ⟨talks, hrest⟩ := ih _
        exact ⟨_, hrest.pass ⟨count, hcount, Nat.le_of_not_lt hlimit⟩⟩

end Decision

namespace Engine

/--
**What a decision says to its store.** For a client on a list it says nothing. For any other client
the rules that apply are evaluated in order, each by an increment and, exactly if that was told one,
an expiry; the first call that fails ends the decision with its fault, the first rule that is told
more than its limit throttles the request, and the request is allowed exactly if all rules were
evaluated and neither happened.
-/
theorem judge_turns {σ : Type} (store : Backend σ) (state : σ) {engine : Engine}
    (hpatient : engine.timeout = none) (policy : Policy) (request : Request) :
    let listed := policy.access.isSafelisted (engine.client request)
    let denied := policy.access.isBlocked (engine.client request)
    let turns := (engine.judge policy request).turns store state
    let result := ((engine.judge policy request).run store state).result
    (listed = true → turns = [] ∧ result = .ok .safelisted) ∧
      (listed = false → denied = true → turns = [] ∧ result = .ok .blocked) ∧
      (listed = false → denied = false → ∃ talks, Decision.Course (engine.client request)
        request.path (policy.matching request.path request.method) talks turns result) := by
  have hplain : engine.increment = incrementAndExpire := by
    funext key period
    rw [increment, hpatient]
  refine ⟨fun hs => ?_, fun hs hb => ?_, fun hs hb => ?_⟩
  · rw [judge, Policy.judge_of_isSafelisted hs]
    exact ⟨rfl, rfl⟩
  · rw [judge, Policy.judge_of_isBlocked hs hb]
    exact ⟨rfl, rfl⟩
  · rw [judge, Policy.judge_of_unlisted hs hb, hplain]
    exact Decision.exists_course store _ _ _ state

/-- A store that tells one and then fails. -/
def hiccupScript : Script := { incr := [⟨.ok 1, 0⟩, ⟨.error (.reported "hiccup"), 0⟩] }

/-- The second of three rules meets the fault, and nothing is said for the third. -/
theorem judge_turns_until_hiccup :
    (Engine.judge {} sharedPolicy {}).turns Script.store hiccupScript =
        [⟨.incr "shared", .ok 1⟩, ⟨.expire "shared" (.ofSecs 60), .ok 0⟩,
          ⟨.incr "shared", .error (.reported "hiccup")⟩] ∧
      ∃ talks : List (Rule × Exchange), talks.map Prod.fst <+: sharedPolicy.rules ∧
        ∃ talk, talks.getLast? = some talk ∧ talk.2.told = .error (.reported "hiccup") := by
  have hs : sharedPolicy.access.isSafelisted (Engine.client {} {}) = false := by decide +kernel
  have hb : sharedPolicy.access.isBlocked (Engine.client {} {}) = false := by decide +kernel
  have hresult : ((Engine.judge {} sharedPolicy {}).run Script.store hiccupScript).result =
      .error (.reported "hiccup") := by
    rfl
  obtain ⟨talks, hcourse⟩ := (judge_turns Script.store hiccupScript rfl sharedPolicy {}).2.2 hs hb
  exact ⟨by rfl, talks, hcourse.inOrder, (hcourse.fault_iff _).mp hresult⟩

end Engine

end Admission
