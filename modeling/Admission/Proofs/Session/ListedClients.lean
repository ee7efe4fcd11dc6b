import Admission.Proofs.Decision.Persistence
import Admission.Session
/-!
# Listed clients

A client that is on a list when its request comes is never counted. Its verdict is that of the list,
the safelist first, and the session is afterwards as it was before. So such requests can be left out
of a session, in which the policy may change at any time: nobody else's verdict depends on them, and
neither does what is stored at the end.

1. `Event.perform`, `run`: what happens in a session, one event after another
2. `judge_of_isSafelisted`, `judge_of_isBlocked`: a request of a listed client
3. `perform_of_isListed`: it leaves the session as it is
4. `run_unmarked_listed`: so it can be left out of a run
5. `listed_clients_leave_no_trace`: the verdicts on listed clients and on all others

Whether a client is listed is asked at the moment of its request: the same client may have been
counted before, and it may be listed by a range that comes later.
-/

namespace Admission

open Store

namespace Session

/-! ## What happens in a session -/

/-- What happens in a session over a store in memory. -/
inductive Event where
  /-- The engine at a place judges a request. -/
  | judge (place : Nat) (request : Request)
  /-- The policy is changed. -/
  | change (made : Policy.Change)
  /-- Time passes. -/
  | advance (period : Duration)
  /-- The counters whose window is over are dropped. -/
  | purge

/-- Carries an event out; only a judgement has a verdict. -/
def Event.perform (event : Event) (session : Session Memory) :
    Option (Except StorageFault Decision) × Session Memory :=
  match event with
  | judge place request =>
    let (verdict, session) := session.judge Memory.store place request
    (some verdict, session)
  | change made => (none, { session with policy := session.policy.change made })
  | advance period => (none, { session with store := session.store.advance period })
  | purge => (none, { session with store := session.store.purge })

/-- Carries events out one after another and collects the verdicts. -/
def run : List Event → Session Memory →
    List (Option (Except StorageFault Decision)) × Session Memory
  | [], session => ([], session)
  | event :: rest, session =>
    let (verdict, session) := event.perform session
    let (verdicts, session) := run rest session
    (verdict :: verdicts, session)

variable {session : Session Memory} {place : Nat} {request : Request}

theorem run_append (before after : List Event) (session : Session Memory) :
    run (before ++ after) session =
      ((run before session).1 ++ (run after (run before session).2).1,
        (run after (run before session).2).2) := by
  induction before generalizing session with
  | nil => rfl
  | cons event rest ih =>
    simp only [List.cons_append, run]
    rw [ih]

theorem length_run (events : List Event) (session : Session Memory) :
    (run events session).1.length = events.length := by
  induction events generalizing session with
  | nil => rfl
  | cons event rest ih =>
    simp only [run, List.length_cons]
    rw [ih]

/-- The verdict on an event is that in the session as it is when the event comes. -/
theorem getElem?_run (before : List Event) (event : Event) (after : List Event)
    (session : Session Memory) :
    (run (before ++ event :: after) session).1[before.length]? =
      some (event.perform (run before session).2).1 := by
  rw [run_append, ← length_run before session, List.getElem?_append_right (Nat.le_refl _),
    Nat.sub_self]
  rfl

/-! ## A request of a listed client -/

/-- **A client on the safelist is let through, whatever else there is.** -/
theorem judge_of_isSafelisted (hs : session.policy.access.isSafelisted
      ((session.engine place).client request) = true) :
    session.judge Memory.store place request = (.ok .safelisted, session) := by
  unfold judge lead Engine.judge
  rw [Policy.judge_of_isSafelisted hs]
  rfl

/-- **A client that is denied and not on the safelist is stopped.** -/
theorem judge_of_isBlocked (hs : session.policy.access.isSafelisted
      ((session.engine place).client request) = false)
    (hb : session.policy.access.isBlocked ((session.engine place).client request) = true) :
    session.judge Memory.store place request = (.ok .blocked, session) := by
  unfold judge lead Engine.judge
  rw [Policy.judge_of_isBlocked hs hb]
  rfl

/-- Whether an event is a request whose client is on a list now. -/
def Event.isListed (event : Event) (session : Session Memory) : Bool :=
  match event with
  | judge place request =>
    let client := (session.engine place).client request
    session.policy.access.isSafelisted client || session.policy.access.isBlocked client
  | _ => false

/-- **A request of a listed client leaves the session as it is.** -/
theorem perform_of_isListed {event : Event} (h : event.isListed session = true) :
    (event.perform session).2 = session := by
  cases event with
  | judge place request =>
    show (session.judge Memory.store place request).2 = session
    cases hs : session.policy.access.isSafelisted ((session.engine place).client request) with
    | true => rw [judge_of_isSafelisted hs]
    | false =>
      simp only [Event.isListed, hs, Bool.false_or] at h
      rw [judge_of_isBlocked hs h]
  | change made => cases h
  | advance period => cases h
  | purge => cases h

/-! ## Runs without listed clients -/

/-- The marks of the events of a run that are requests whose client is on a list when they come. -/
def listed : List Event → Session Memory → List Bool
  | [], _ => []
  | event :: rest, session => event.isListed session :: listed rest (event.perform session).2

/-- The items that are not marked. -/
def unmarked {α : Type} (marks : List Bool) (items : List α) : List α :=
  ((items.zip marks).filter fun (_, mark) => !mark).map Prod.fst

theorem unmarked_cons {α : Type} (mark : Bool) (marks : List Bool) (item : α) (items : List α) :
    unmarked (mark :: marks) (item :: items) =
      if mark then unmarked marks items else item :: unmarked marks items := by
  cases mark <;> rfl

/-- **The requests of listed clients can be left out of a run.** -/
theorem run_unmarked_listed (events : List Event) (session : Session Memory) :
    run (unmarked (listed events session) events) session =
      (unmarked (listed events session) (run events session).1, (run events session).2) := by
  induction events generalizing session with
  | nil => rfl
  | cons event rest ih =>
    have hrest := ih (event.perform session).2
    simp only [listed, run]
    rw [unmarked_cons, unmarked_cons]
    cases hlisted : event.isListed session with
    | true =>
      rw [if_pos rfl, if_pos rfl]
      -- the rest starts from the session as it was before the request
      rw [perform_of_isListed hlisted] at hrest ⊢
      exact hrest
    | false =>
      rw [if_neg Bool.false_ne_true, if_neg Bool.false_ne_true]
      simp only [run]
      rw [hrest]

/--
**Listed clients leave no trace.** Take any session and any run of requests, changes of the policy,
purges and passing time.

* A request whose client is on the safelist at that moment is let through, and one whose client is
  not there but denied at that moment is stopped, whatever the rules and the counters.
* Without all these requests the run gives the same verdicts on the others and ends in the same
  session: with the same policy, and the same counters and ends of windows in the store.
-/
theorem listed_clients_leave_no_trace (events : List Event) (session : Session Memory) :
    (∀ before place request after, events = before ++ .judge place request :: after →
      let now := (run before session).2
      let client := (now.engine place).client request
      (now.policy.access.isSafelisted client = true →
        (run events session).1[before.length]? = some (some (.ok .safelisted))) ∧
      (now.policy.access.isSafelisted client = false → now.policy.access.isBlocked client = true →
        (run events session).1[before.length]? = some (some (.ok .blocked)))) ∧
    run (unmarked (listed events session) events) session =
      (unmarked (listed events session) (run events session).1, (run events session).2) := by
  refine ⟨?_, run_unmarked_listed events session⟩
  rintro before place request after rfl
  have hverdict := getElem?_run before (.judge place request) after session
  refine ⟨fun hs => ?_, fun hs hb => ?_⟩
  · rw [hverdict]
    show some (some ((run before session).2.judge Memory.store place request).1) = _
    rw [judge_of_isSafelisted hs]
  · rw [hverdict]
    show some (some ((run before session).2.judge Memory.store place request).1) = _
    rw [judge_of_isBlocked hs hb]

/-- A session with one counter for everybody, who have two requests in a minute together. -/
def twoForAll : Session Memory := { policy := Traffic.minutePolicy, store := {} }

/-- A request of a peer. -/
def visitOf (peer : String) : Event := .judge 0 { remoteAddr := peer }

/-- A client is counted, then blocked by a range, and then safelisted; another one comes last. -/
def changingLists : List Event :=
  [visitOf "192.0.2.1:80", .change (.access (.range "192.0.2.0/28")), visitOf "192.0.2.1:80",
    .advance (.ofSecs 10), .change (.access (.safelist "192.0.2.1")), visitOf "192.0.2.1:80",
    visitOf "198.51.100.7:80"]

/-- The other client has the second request of the minute, with the listed requests or without. -/
theorem listed_clients_leave_no_trace_of_changing_lists :
    (run changingLists twoForAll).1[2]? = some (some (.ok .blocked)) ∧
      (run changingLists twoForAll).1[5]? = some (some (.ok .safelisted)) ∧
      run (unmarked (listed changingLists twoForAll) changingLists) twoForAll =
        ([some (.ok .allowed), none, none, none, some (.ok .allowed)],
          (run changingLists twoForAll).2) := by
  obtain ⟨hverdicts, hothers⟩ := listed_clients_leave_no_trace changingLists twoForAll
  have hallowed : unmarked (listed changingLists twoForAll) (run changingLists twoForAll).1 =
      [some (.ok .allowed), none, none, none, some (.ok .allowed)] := by
    decide +kernel
  refine ⟨?_, ?_, ?_⟩
  · refine (hverdicts (changingLists.take 2) 0 _ (changingLists.drop 3) rfl).2 ?_ ?_
    · decide +kernel
    · decide +kernel
  · refine (hverdicts (changingLists.take 5) 0 _ (changingLists.drop 6) rfl).1 ?_
    decide +kernel
  · rw [hothers, hallowed]

end Session

end Admission
