import Mathlib.Data.List.Induction
import Admission.Store.Memory
import Admission.Store.Pool
/-!
# Interleavings

Several dialogues on one store in memory, led call by call in any order. What happens next is a
`Move`: one dialogue goes one call further, or time passes, or somebody purges or clears the store.
A list of moves is a schedule. `Pool.log` is what an observer writes down along a schedule: who made
which call when, and what the store told.

* `Member.step_eq`: the store in memory answers at once and never fails, so a dialogue goes on in
  one way only, whether it waits for the answer without a limit or with one
* `Pool.play_append_singleton`, `Pool.log_append_singleton`: one more move, for inductions from the
  end of a schedule
* `Pool.move_step_of_asks`, `Pool.move_step_of_not_asks`: what a step does
* `Pool.done_of_count`: a dialogue ends if it gets enough steps, whatever else happens
-/

namespace Admission.Store

/-! ## A dialogue between two calls -/

namespace Dialogue

variable {α : Type}

/-- The call that a dialogue makes next. -/
def asks? : Dialogue α → Option Call
  | done _ => none
  | call request _ => some request
  | callWithin request _ _ _ => some request

/-- How a dialogue goes on when a number is told at once. -/
def resume (told : Nat) : Dialogue α → Dialogue α
  | done result => done result
  | call _ next => next ⟨.ok told, 0⟩
  | callWithin _ _ _ next => next ⟨.ok told, 0⟩

/-- A dialogue makes at most so many calls if every call is answered at once. -/
def EndsWithin : Nat → Dialogue α → Prop
  | 0, d => ∃ result, d = done result
  | calls + 1, d => (∃ result, d = done result) ∨ ∀ told, EndsWithin calls (d.resume told)

theorem eq_done_of_asks? {d : Dialogue α} (h : d.asks? = none) : ∃ result, d = done result := by
  cases d with
  | done result => exact ⟨result, rfl⟩
  | call request next => cases h
  | callWithin request limit late next => cases h

/-- A call that is made is one of those that a dialogue may make. -/
theorem EndsWithin.resume {calls : Nat} {d : Dialogue α} {request : Call}
    (h : d.EndsWithin calls) (ha : d.asks? = some request) (told : Nat) :
    ∃ left, calls = left + 1 ∧ (d.resume told).EndsWithin left := by
  cases calls with
  | zero =>
    obtain ⟨result, rfl⟩ := h
    cases ha
  | succ left =>
    rcases h with ⟨result, rfl⟩ | hresume
    · cases ha
    · exact ⟨left, rfl, hresume told⟩

end Dialogue

namespace Memory

/-- What the store tells when it is called. -/
def told (request : Call) (memory : Memory) : Nat :=
  match request with
  | .incr key => (memory.table.hitOf memory.now key).count
  | .expire _ _ => 0

/-- The store after a call. -/
def called (request : Call) (memory : Memory) : Memory := (memory.answer request).2

theorem store_answer (request : Call) (memory : Memory) :
    store.answer request memory = (⟨.ok (memory.told request), 0⟩, memory.called request) := by
  cases request <;> rfl

end Memory

/-- **On the store in memory a dialogue goes on with what is told, and no limit is reached.** -/
theorem Member.step_eq {α : Type} (member : Member α) (memory : Memory) :
    member.step Memory.store memory =
      match member.dialogue.asks? with
      | none => (member, memory)
      | some request =>
        ({ member with dialogue := member.dialogue.resume (memory.told request) },
          memory.called request) := by
  obtain ⟨time, dialogue⟩ := member
  cases dialogue with
  | done result => rfl
  | call request next => simp [step, Dialogue.asks?, Dialogue.resume, Memory.store_answer]
  | callWithin request limit late next =>
    simp [step, Dialogue.asks?, Dialogue.resume, Memory.store_answer]

theorem Member.result?_eq_none {α : Type} {member : Member α} {request : Call}
    (h : member.dialogue.asks? = some request) : member.result? = none := by
  unfold result?
  cases hd : member.dialogue with
  | done result => simp [hd, Dialogue.asks?] at h
  | call request next => rfl
  | callWithin request limit late next => rfl

/-! ## Schedules -/

/-- What happens next to dialogues on one store in memory. -/
inductive Move where
  /-- The dialogue at a place goes one call further. -/
  | step (place : Nat)
  /-- Time passes. -/
  | advance (period : Duration)
  /-- The counters whose window is over are dropped. -/
  | purge
  /-- All counters are dropped. -/
  | clear
  deriving DecidableEq, Repr

/-- A call that was made and what the store told. -/
structure Called where
  place : Nat
  time : Nat
  request : Call
  told : Nat
  deriving DecidableEq, Repr

/-- The instant of an increment and the count that it told. -/
def Called.increment? (called : Called) : Option (Nat × Nat) :=
  match called.request with
  | .incr _ => some (called.time, called.told)
  | .expire _ _ => none

/-- The instant at which the end of a window was set. -/
def Called.expiry? (called : Called) : Option Nat :=
  match called.request with
  | .incr _ => none
  | .expire _ _ => some called.time

/-- The instants of the increments in a log. -/
def incrementTimes (log : List Called) : List Nat := (log.filterMap Called.increment?).map Prod.fst

/-- The counts that the increments in a log told. -/
def incrementCounts (log : List Called) : List Nat := (log.filterMap Called.increment?).map Prod.snd

/-- The instants at which ends of windows were set. -/
def expiryTimes (log : List Called) : List Nat := log.filterMap Called.expiry?

section

variable (log : List Called) (place time told : Nat) (key : String) (period : Duration)

@[simp]
theorem incrementTimes_append_incr :
    incrementTimes (log ++ [⟨place, time, .incr key, told⟩]) = incrementTimes log ++ [time] := by
  simp [incrementTimes, Called.increment?]

@[simp]
theorem incrementTimes_append_expire :
    incrementTimes (log ++ [⟨place, time, .expire key period, told⟩]) = incrementTimes log := by
  simp [incrementTimes, Called.increment?]

@[simp]
theorem incrementCounts_append_incr :
    incrementCounts (log ++ [⟨place, time, .incr key, told⟩]) = incrementCounts log ++ [told] := by
  simp [incrementCounts, Called.increment?]

@[simp]
theorem incrementCounts_append_expire :
    incrementCounts (log ++ [⟨place, time, .expire key period, told⟩]) = incrementCounts log := by
  simp [incrementCounts, Called.increment?]

@[simp]
theorem expiryTimes_append_incr :
    expiryTimes (log ++ [⟨place, time, .incr key, told⟩]) = expiryTimes log := by
  simp [expiryTimes, Called.expiry?]

@[simp]
theorem expiryTimes_append_expire :
    expiryTimes (log ++ [⟨place, time, .expire key period, told⟩]) = expiryTimes log ++ [time] := by
  simp [expiryTimes, Called.expiry?]

end

namespace Pool

variable {α : Type}

/-- The pool after a move. -/
def move (pool : Pool Memory α) : Move → Pool Memory α
  | .step place => pool.step Memory.store place
  | .advance period => { pool with state := pool.state.advance period }
  | .purge => { pool with state := pool.state.purge }
  | .clear => { pool with state := pool.state.clear }

/-- The call that a move makes, if it makes one. -/
def called? (pool : Pool Memory α) : Move → Option Called
  | .step place =>
    (pool.members[place]?.bind fun member => member.dialogue.asks?).map fun request =>
      ⟨place, pool.state.now, request, pool.state.told request⟩
  | .advance _ => none
  | .purge => none
  | .clear => none

/-- The pool after a schedule. -/
def play (schedule : List Move) (pool : Pool Memory α) : Pool Memory α := schedule.foldl move pool

/-- The calls that are made along a schedule, in order. -/
def log : List Move → Pool Memory α → List Called
  | [], _ => []
  | next :: rest, pool => (pool.called? next).toList ++ log rest (pool.move next)

theorem play_append_singleton (schedule : List Move) (next : Move) (pool : Pool Memory α) :
    play (schedule ++ [next]) pool = (play schedule pool).move next := by
  simp [play]

theorem log_append_singleton (schedule : List Move) (next : Move) (pool : Pool Memory α) :
    log (schedule ++ [next]) pool =
      log schedule pool ++ ((play schedule pool).called? next).toList := by
  induction schedule generalizing pool with
  | nil => simp [log, play]
  | cons first rest ih =>
    rw [List.cons_append, log, ih, log, List.append_assoc]
    rfl

/-- A step at a place whose dialogue asks: the store is called and the dialogue goes on. -/
theorem move_step_of_asks {pool : Pool Memory α} {place : Nat} {member : Member α} {request : Call}
    (hm : pool.members[place]? = some member) (ha : member.dialogue.asks? = some request) :
    pool.move (.step place) =
      ⟨pool.members.set place
        { member with dialogue := member.dialogue.resume (pool.state.told request) },
        pool.state.called request⟩ := by
  simp only [move, step, hm, Member.step_eq, ha]

/-- A step at any other place changes nothing. -/
theorem move_step_of_not_asks {pool : Pool Memory α} {place : Nat}
    (h : (pool.members[place]?.bind fun member => member.dialogue.asks?) = none) :
    pool.move (.step place) = pool := by
  cases hm : pool.members[place]? with
  | none => simp only [move, step, hm]
  | some member =>
    have ha : member.dialogue.asks? = none := by simpa [hm] using h
    obtain ⟨hplace, rfl⟩ := List.getElem?_eq_some_iff.mp hm
    simp only [move, step, hm, Member.step_eq, ha, List.set_getElem_self]

theorem called?_step_of_asks {pool : Pool Memory α} {place : Nat} {member : Member α}
    {request : Call} (hm : pool.members[place]? = some member)
    (ha : member.dialogue.asks? = some request) :
    pool.called? (.step place) =
      some ⟨place, pool.state.now, request, pool.state.told request⟩ := by
  simp only [called?, hm, Option.bind_some, ha, Option.map_some]

theorem called?_step_of_not_asks {pool : Pool Memory α} {place : Nat}
    (h : (pool.members[place]?.bind fun member => member.dialogue.asks?) = none) :
    pool.called? (.step place) = none := by
  rw [called?, h, Option.map_none]

theorem getElem?_move_step_of_asks {pool : Pool Memory α} {place : Nat} {member : Member α}
    {request : Call} (hm : pool.members[place]? = some member)
    (ha : member.dialogue.asks? = some request) :
    (pool.move (.step place)).members[place]? =
      some { member with dialogue := member.dialogue.resume (pool.state.told request) } := by
  obtain ⟨hplace, -⟩ := List.getElem?_eq_some_iff.mp hm
  rw [move_step_of_asks hm ha, List.getElem?_set_self hplace]

/-- A move leaves the dialogues at all places alone but the one that it takes further. -/
theorem getElem?_move_of_ne (pool : Pool Memory α) {place : Nat} {next : Move}
    (hne : next ≠ .step place) : (pool.move next).members[place]? = pool.members[place]? := by
  cases next with
  | step other =>
    have ho : other ≠ place := fun he => hne (by rw [he])
    cases hb : pool.members[other]?.bind fun member => member.dialogue.asks? with
    | none => rw [move_step_of_not_asks hb]
    | some request =>
      obtain ⟨member, hm, ha⟩ := Option.bind_eq_some_iff.mp hb
      rw [move_step_of_asks hm ha, List.getElem?_set_ne ho]
  | advance period => rfl
  | purge => rfl
  | clear => rfl

/-- **A dialogue is done once it has had as many moves as it makes calls.** -/
theorem done_of_count {pool : Pool Memory α} {place calls : Nat} {member : Member α}
    (hm : pool.members[place]? = some member) (hends : member.dialogue.EndsWithin calls)
    {schedule : List Move} (hcount : calls ≤ schedule.count (.step place)) :
    ∃ last, (play schedule pool).members[place]? = some last ∧ last.result?.isSome := by
  induction schedule generalizing pool calls member with
  | nil =>
    obtain rfl : calls = 0 := Nat.le_zero.mp hcount
    obtain ⟨result, hd⟩ := hends
    exact ⟨member, hm, by rw [Member.result?, hd]; rfl⟩
  | cons next rest ih =>
    by_cases hnext : next = .step place
    · subst hnext
      rw [List.count_cons_self] at hcount
      cases ha : member.dialogue.asks? with
      | none =>
        -- it is done already, and the move changes nothing
        have hends : member.dialogue.EndsWithin 0 := Dialogue.eq_done_of_asks? ha
        refine ih ?_ hends (Nat.zero_le _)
        rw [move_step_of_not_asks (by rw [hm]; exact ha)]
        exact hm
      | some request =>
        obtain ⟨left, rfl, hleft⟩ := hends.resume ha (pool.state.told request)
        have hmove : (pool.move (.step place)).members[place]? =
            some { member with dialogue := member.dialogue.resume (pool.state.told request) } := by
          obtain ⟨hplace, -⟩ := List.getElem?_eq_some_iff.mp hm
          rw [move_step_of_asks hm ha, List.getElem?_set_self hplace]
        exact ih hmove hleft (Nat.le_of_succ_le_succ hcount)
    · rw [List.count_cons_of_ne hnext] at hcount
      exact ih ((getElem?_move_of_ne pool hnext).trans hm) hends hcount

end Pool

end Admission.Store
