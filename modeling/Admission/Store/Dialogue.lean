import Admission.Error
/-!
# Talking to a counter store

A counter store answers calls one at a time, and each answer takes a while. A computation over a
store is a `Dialogue`: it is done, or it makes a call and goes on with the answer, or it makes a
call and gives up if the answer takes longer than it is willing to wait. Keeping the calls apart
lets several dialogues be mixed, call by call, on one store.

A store is a function from a state and a call to an answer and the next state (`Backend`); `run`
leads a dialogue with a store and reports the time that has passed. Main statements: `run_bind`
(dialogues in a row), `run_within_of_le` and `run_within_of_lt` (a limit over a whole dialogue
changes nothing before it is reached, and ends the dialogue when it is). All times are in
milliseconds, and all recursion is on the dialogue.
-/

namespace Admission.Store

/-- A call to a counter store. -/
inductive Call where
  /-- Add one to the counter of a key and tell the new count. -/
  | incr (key : String)
  /-- Close the window of a key after a period; the number in the answer means nothing. -/
  | expire (key : String) (period : Duration)
  deriving DecidableEq, Repr

/-- The answer to a call and the time it took. -/
structure Answer where
  outcome : Except StorageFault Nat
  delay : Nat := 0
  deriving Repr

/-- A store whose states are the values of a type. -/
structure Backend (σ : Type) where
  answer : Call → σ → Answer × σ

/-- A computation that talks to a counter store. -/
inductive Dialogue (α : Type) where
  /-- The end, with a result. -/
  | done (result : α)
  /-- A call whose answer is awaited however long it takes. -/
  | call (request : Call) (next : Answer → Dialogue α)
  /-- A call that is given up for `late` if its answer takes longer than `limit`. -/
  | callWithin (request : Call) (limit : Nat) (late : Dialogue α) (next : Answer → Dialogue α)

namespace Dialogue

/-- One dialogue after another. -/
def bind {α β : Type} : Dialogue α → (α → Dialogue β) → Dialogue β
  | done result, f => f result
  | call request next, f => call request fun answer => (next answer).bind f
  | callWithin request limit late next, f =>
    callWithin request limit (late.bind f) fun answer => (next answer).bind f

instance : Monad Dialogue where
  pure := done
  bind := bind

/-! ## Leading a dialogue -/

/-- What a dialogue came to: its result, the time that has passed, and the state of the store. -/
structure Run (σ α : Type) where
  result : α
  elapsed : Nat
  state : σ

/-- The same with more time passed before it. -/
def Run.after {σ α : Type} (time : Nat) (run : Run σ α) : Run σ α :=
  { run with elapsed := time + run.elapsed }

/-- Leads a dialogue with a store. -/
def run {σ α : Type} (store : Backend σ) : Dialogue α → σ → Run σ α
  | done result, state => ⟨result, 0, state⟩
  | call request next, state =>
    let reply := store.answer request state
    ((next reply.1).run store reply.2).after reply.1.delay
  | callWithin request limit late next, state =>
    let reply := store.answer request state
    if limit < reply.1.delay then (late.run store reply.2).after limit
    else ((next reply.1).run store reply.2).after reply.1.delay

theorem after_after {σ α : Type} (s t : Nat) (r : Run σ α) :
    (r.after t).after s = r.after (s + t) := by
  simp [Run.after, Nat.add_assoc]

/-- **Dialogues in a row are led in a row.** -/
theorem run_bind {σ α β : Type} (store : Backend σ) (d : Dialogue α) (f : α → Dialogue β) (s : σ) :
    (d.bind f).run store s =
      ((f (d.run store s).result).run store (d.run store s).state).after
        (d.run store s).elapsed := by
  induction d generalizing s with
  | done result => simp [bind, run, Run.after]
  | call request next ih =>
    simp only [bind, run, ih, after_after]
    rfl
  | callWithin request limit late next ihl ihn =>
    simp only [bind, run]
    split
    · simp only [ihl, after_after]
      rfl
    · simp only [ihn, after_after]
      rfl

/-! ## A limit over a whole dialogue -/

/-- The dialogue with the result `late` if it takes longer than `limit` in all. -/
def within {α : Type} (limit : Nat) (late : α) : Dialogue α → Dialogue α
  | done result => done result
  | call request next =>
    callWithin request limit (done late) fun answer =>
      (next answer).within (limit - answer.delay) late
  | callWithin request inner onLate next =>
    -- the tighter of the two limits decides who gives up
    if inner ≤ limit then
      callWithin request inner (onLate.within (limit - inner) late) fun answer =>
        (next answer).within (limit - answer.delay) late
    else
      callWithin request limit (done late) fun answer =>
        (next answer).within (limit - answer.delay) late

/-- **Within its limit a dialogue goes as it goes without one.** -/
theorem run_within_of_le {σ α : Type} (store : Backend σ) {limit : Nat} (late : α) {d : Dialogue α}
    {s : σ} (h : (d.run store s).elapsed ≤ limit) :
    (d.within limit late).run store s = d.run store s := by
  induction d generalizing limit s with
  | done result => rfl
  | call request next ih =>
    simp only [run, Run.after] at h
    simp only [within, run]
    rw [if_neg (by omega), ih _ (by omega)]
  | callWithin request inner onLate next ihl ihn =>
    simp only [run] at h
    simp only [within]
    by_cases hd : inner < (store.answer request s).1.delay
    · rw [if_pos hd] at h
      simp only [Run.after] at h
      rw [if_pos (by omega)]
      simp only [run, if_pos hd]
      rw [ihl (by omega)]
    · rw [if_neg hd] at h
      simp only [Run.after] at h
      split
      · simp only [run, if_neg hd]
        rw [ihn _ (by omega)]
      · simp only [run, if_neg hd]
        rw [if_neg (by omega), ihn _ (by omega)]

theorem Run.after_late {σ α : Type} {late : α} {limit time : Nat} {r : Run σ α} (hle : time ≤ limit)
    (h : r.result = late ∧ r.elapsed = limit - time) :
    (r.after time).result = late ∧ (r.after time).elapsed = limit :=
  ⟨h.1, by rw [Run.after, h.2, Nat.add_sub_cancel' hle]⟩

/-- **Beyond its limit a dialogue is given up**, at the limit and for the result `late`. -/
theorem run_within_of_lt {σ α : Type} (store : Backend σ) {limit : Nat} (late : α) {d : Dialogue α}
    {s : σ} (h : limit < (d.run store s).elapsed) :
    ((d.within limit late).run store s).result = late ∧
      ((d.within limit late).run store s).elapsed = limit := by
  induction d generalizing limit s with
  | done result => exact absurd h (Nat.not_lt_zero limit)
  | call request next ih =>
    simp only [run, Run.after] at h
    simp only [within, run]
    split
    · exact ⟨rfl, rfl⟩
    · exact Run.after_late (by omega) (ih _ (by omega))
  | callWithin request inner onLate next ihl ihn =>
    simp only [run] at h
    simp only [within]
    by_cases hd : inner < (store.answer request s).1.delay
    · rw [if_pos hd] at h
      simp only [Run.after] at h
      split
      · simp only [run, if_pos hd]
        exact Run.after_late (by omega) (ihl (by omega))
      · simp only [run]
        rw [if_pos (by omega)]
        exact ⟨rfl, rfl⟩
    · rw [if_neg hd] at h
      simp only [Run.after] at h
      split
      · simp only [run, if_neg hd]
        exact Run.after_late (by omega) (ihn _ (by omega))
      · simp only [run]
        split
        · exact ⟨rfl, rfl⟩
        · exact Run.after_late (by omega) (ihn _ (by omega))

end Dialogue

/-! ## Counting a hit -/

/-- Adds one to the counter of a key and, if that opened its window, closes it after a period. -/
def incrementAndExpire (key : String) (period : Duration) :
    Dialogue (Except StorageFault Nat) :=
  .call (.incr key) fun counted =>
    match counted.outcome with
    | .error fault => .done (.error fault)
    | .ok count =>
      if count = 1 then
        .call (.expire key period) fun closed =>
          match closed.outcome with
          | .error fault => .done (.error fault)
          | .ok _ => .done (.ok count)
      else .done (.ok count)

end Admission.Store
