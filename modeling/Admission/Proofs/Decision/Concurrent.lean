import Mathlib.Data.List.Perm.Basic
import Admission.Proofs.Decision.FirstBreach
import Admission.Proofs.Store.Interleaving
/-!
# Concurrent admission

Decisions that all count one hit on the same key are led at the same time on one store in memory,
call by call in any order, while time passes and counters are purged. A decision makes two calls if
it counts first and one call otherwise, so between the calls of the first one the others meet a
counter without an end.

The argument goes through what can be said of all decisions together after any schedule:

1. `Stage`: how far one decision has come; `AtStage` says so of its dialogue
2. `Phase`: nothing is counted yet (`idle`), or the window is open without an end (`opened`), or its
   end is set (`closed`), and in each case how many decisions are at which stage
3. `Phase.later`, `Phase.increment`, `Phase.expire`: each kind of move keeps a phase
4. `progress_play`: hence there is a phase after every schedule
5. `concurrent_admission`: the counts that are told, the decisions, and the final count

Stages are counted up to order (`List.Perm`), since who is at which stage depends on the schedule.
-/

namespace Admission.Store

/-! ## Stages of one decision -/

/-- How far a decision has come that counts one hit. -/
inductive Stage where
  /-- It has not counted yet. -/
  | waiting
  /-- It has counted first and has still to set the end of the window. -/
  | closing
  /-- It has counted and is done. -/
  | done (count : Nat)
  deriving DecidableEq, Repr

/-- The stage after an increment. -/
def Stage.counted (count : Nat) : Stage := if count = 1 then .closing else .done count

/-- The count of a decision that is done. -/
def Stage.count? : Stage → Option Nat
  | waiting => none
  | closing => none
  | done count => some count

section

variable {α : Type} (key : String) (period : Duration) (verdict : Nat → α)

/-- A dialogue at a stage; `verdict` is its result by the count that it was told. -/
def AtStage : Stage → Dialogue α → Prop
  | .waiting, d =>
    d.asks? = some (.incr key) ∧
      (d.resume 1).asks? = some (.expire key period) ∧
      (∀ told, (d.resume 1).resume told = .done (verdict 1)) ∧
      ∀ count, count ≠ 1 → d.resume count = .done (verdict count)
  | .closing, d =>
    d.asks? = some (.expire key period) ∧ ∀ told, d.resume told = .done (verdict 1)
  | .done count, d => d = .done (verdict count)

variable {key period verdict} {d : Dialogue α}

theorem AtStage.counted (h : AtStage key period verdict .waiting d) (count : Nat) :
    AtStage key period verdict (.counted count) (d.resume count) := by
  obtain ⟨-, hasks, hclosed, hother⟩ := h
  unfold Stage.counted
  split
  · next hone =>
    subst hone
    exact ⟨hasks, hclosed⟩
  · next hne => exact hother count hne

theorem AtStage.endsWithin (h : AtStage key period verdict .waiting d) : d.EndsWithin 2 := by
  obtain ⟨-, -, hclosed, hother⟩ := h
  refine .inr fun count => ?_
  by_cases hc : count = 1
  · rw [hc]
    exact .inr fun told => ⟨_, hclosed told⟩
  · exact .inl ⟨_, hother count hc⟩

theorem AtStage.result? {stage : Stage} {member : Member α}
    (h : AtStage key period verdict stage member.dialogue) :
    member.result? = stage.count?.map verdict := by
  cases stage with
  | waiting => exact Member.result?_eq_none h.1
  | closing => exact Member.result?_eq_none h.1
  | done count =>
    unfold Member.result?
    rw [show member.dialogue = .done (verdict count) from h]
    rfl

variable (key period verdict)

/-- The dialogues of a pool are at stages. -/
structure Tracks (stages : List Stage) (members : List (Member α)) : Prop where
  length : stages.length = members.length
  atStage : ∀ i (hs : i < stages.length) (hm : i < members.length),
    AtStage key period verdict stages[i] members[i].dialogue

variable {key period verdict} {stages : List Stage} {members : List (Member α)}

theorem Tracks.set (h : Tracks key period verdict stages members) (place : Nat) {stage : Stage}
    {member : Member α} (hat : AtStage key period verdict stage member.dialogue) :
    Tracks key period verdict (stages.set place stage) (members.set place member) where
  length := by rw [List.length_set, List.length_set, h.length]
  atStage := fun i hs hm => by
    rw [List.getElem_set, List.getElem_set]
    split
    · exact hat
    · exact h.atStage i _ _

theorem Tracks.stage? (h : Tracks key period verdict stages members) {place : Nat}
    {member : Member α} (hm : members[place]? = some member) :
    ∃ stage, stages[place]? = some stage ∧ AtStage key period verdict stage member.dialogue := by
  obtain ⟨hplace, rfl⟩ := List.getElem?_eq_some_iff.mp hm
  have hs : place < stages.length := h.length ▸ hplace
  exact ⟨stages[place], List.getElem?_eq_getElem hs, h.atStage place hs hplace⟩

/-- The results of the dialogues that are done are the verdicts on their counts. -/
theorem Tracks.results (h : Tracks key period verdict stages members) :
    members.filterMap Member.result? = (stages.filterMap Stage.count?).map verdict := by
  have hmap : members.map Member.result? = stages.map fun s => s.count?.map verdict := by
    refine List.ext_getElem (by simp [h.length]) fun i hm hs => ?_
    rw [List.getElem_map, List.getElem_map]
    exact (h.atStage i _ _).result?
  have hid := congrArg (List.filterMap id) hmap
  rw [List.filterMap_map, List.filterMap_map] at hid
  rw [List.map_filterMap]
  exact hid

end

theorem perm_set {α : Type} {l rest : List α} {place : Nat} {old : α}
    (hold : l[place]? = some old) (h : l.Perm (old :: rest)) (new : α) :
    (l.set place new).Perm (new :: rest) := by
  obtain ⟨hplace, rfl⟩ := List.getElem?_eq_some_iff.mp hold
  have hrest : (l.eraseIdx place).Perm rest :=
    ((List.getElem_cons_eraseIdx_perm hplace).trans h).cons_inv
  exact (List.set_perm_cons_eraseIdx hplace new).trans (hrest.cons new)

/-- Taking a decision that waits to another stage, when the waiting ones are listed last. -/
theorem exists_perm_set_of_waiting {stages : List Stage} (front : List Stage) {place k : Nat}
    (hplace : stages[place]? = some .waiting) (hfront : .waiting ∉ front)
    (h : stages.Perm (front ++ List.replicate k .waiting)) :
    ∃ k', k = k' + 1 ∧
      ∀ new, (stages.set place new).Perm (front ++ [new] ++ List.replicate k' .waiting) := by
  have hmem : Stage.waiting ∈ front ++ List.replicate k .waiting :=
    h.mem_iff.mp (List.mem_of_getElem? hplace)
  cases k with
  | zero =>
    rw [List.replicate_zero, List.append_nil] at hmem
    exact absurd hmem hfront
  | succ k' =>
    refine ⟨k', rfl, fun new => ?_⟩
    rw [List.replicate_succ] at h
    have hset := perm_set hplace (h.trans List.perm_middle) new
    rw [List.append_assoc, List.singleton_append]
    exact hset.trans List.perm_middle.symm

/-! ## Phases of all decisions -/

/--
How far `calls` decisions have come together: the stages they are at, the calls that were logged,
and the store. A phase with a count `m + 1` leaves `k` decisions that have not counted yet.
-/
inductive Phase (calls : Nat) (key : String) (period : Duration) (stages : List Stage)
    (log : List Called) (memory : Memory) : Prop where
  /-- Nobody has counted. -/
  | idle (hstages : stages.Perm (List.replicate calls .waiting))
      (htimes : incrementTimes log = []) (hcounts : incrementCounts log = [])
      (hexpiries : expiryTimes log = [])
      (hlive : memory.table.live? memory.now key = none)
  /-- The first one to count has still to set the end of the window. -/
  | opened (m k first : Nat) (hcalls : m + 1 + k = calls)
      (hstages : stages.Perm
        (.closing :: ((List.range' 2 m).map .done ++ List.replicate k .waiting)))
      (hfirst : (incrementTimes log).head? = some first) (hpast : first ≤ memory.now)
      (hcounts : incrementCounts log = List.range' 1 (m + 1)) (hexpiries : expiryTimes log = [])
      (hlive : memory.table.live? memory.now key = some ⟨m + 1, none⟩)
  /-- The end of the window is set. -/
  | closed (m k first expiry : Nat) (hcalls : m + 1 + k = calls)
      (hstages : stages.Perm ((List.range' 1 (m + 1)).map .done ++ List.replicate k .waiting))
      (hfirst : (incrementTimes log).head? = some first) (hpast : first ≤ expiry)
      (hcounts : incrementCounts log = List.range' 1 (m + 1))
      (hexpiries : expiryTimes log = [expiry])
      (hlive : memory.table.live? memory.now key =
        (some ⟨m + 1, deadline expiry period⟩).filter fun c => !c.isOver memory.now)

/-- An increment in an open window tells one more. -/
theorem Memory.told_incr_of_live {memory : Memory} {key : String} {counter : Counter}
    (h : memory.table.live? memory.now key = some counter) :
    memory.told (.incr key) = counter.count + 1 := by
  rw [told, Counters.hitOf_of_live h]
  rfl

theorem incrementCounts_next {log : List Called} {place time m : Nat} {key : String}
    (h : incrementCounts log = List.range' 1 (m + 1)) :
    incrementCounts (log ++ [⟨place, time, .incr key, 2 + m⟩]) = List.range' 1 (m + 1 + 1) := by
  rw [incrementCounts_append_incr, h, List.range'_1_concat (n := m + 1),
    show 1 + (m + 1) = 2 + m by omega]

namespace Phase

variable {calls : Nat} {key : String} {period : Duration} {stages : List Stage}
  {log : List Called} {memory : Memory}

/-- A phase lasts while no decision moves: what is seen later is what is not over by then. -/
theorem later (h : Phase calls key period stages log memory) {memory' : Memory}
    (hle : memory.now ≤ memory'.now)
    (hlive' : memory'.table.live? memory'.now key =
      (memory.table.live? memory.now key).filter fun c => !c.isOver memory'.now) :
    Phase calls key period stages log memory' := by
  cases h with
  | idle hstages htimes hcounts hexpiries hlive =>
    exact .idle hstages htimes hcounts hexpiries (by rw [hlive', hlive]; rfl)
  | opened m k first hcalls hstages hfirst hpast hcounts hexpiries hlive =>
    exact .opened m k first hcalls hstages hfirst (Nat.le_trans hpast hle) hcounts hexpiries
      (by rw [hlive', hlive]; rfl)
  | closed m k first expiry hcalls hstages hfirst hpast hcounts hexpiries hlive =>
    refine .closed m k first expiry hcalls hstages hfirst hpast hcounts hexpiries ?_
    rw [hlive', hlive, Counter.filter_isOver_of_le hle]

/-- **An increment takes one decision further and tells the next count.** -/
theorem increment (h : Phase calls key period stages log memory) {place : Nat}
    (hplace : stages[place]? = some .waiting)
    (hwithin : ∀ first ∈ (incrementTimes log).head?, memory.now < first + period.nanos) :
    Phase calls key period (stages.set place (.counted (memory.told (.incr key))))
      (log ++ [⟨place, memory.now, .incr key, memory.told (.incr key)⟩])
      (memory.called (.incr key)) := by
  have hcalled : (memory.called (.incr key)).table.live? memory.now key =
      some (memory.table.hitOf memory.now key) := by
    show (memory.table.incr memory.now key).2.live? memory.now key = _
    rw [Counters.live?_incr, if_pos rfl, Option.filter_some, Counters.isOver_hitOf]
    rfl
  cases h with
  | idle hstages htimes hcounts hexpiries hlive =>
    -- the first increment: its decision goes on to set the end
    have hhit := Counters.hitOf_of_not_live hlive
    have htold : memory.told (.incr key) = 1 := by rw [Memory.told, hhit]
    obtain ⟨k, hk, hset⟩ := exists_perm_set_of_waiting [] hplace (by simp) hstages
    rw [htold]
    refine .opened 0 k memory.now (by omega) (hset .closing) ?_ (Nat.le_refl _) ?_ ?_ ?_
    · rw [incrementTimes_append_incr, htimes]
      rfl
    · rw [incrementCounts_append_incr, hcounts]
      rfl
    · rw [expiryTimes_append_incr, hexpiries]
    · rw [← hhit]
      exact hcalled
  | opened m k first hcalls hstages hfirst hpast hcounts hexpiries hlive =>
    -- no end is set yet, so the window is open however much time has passed
    have hhit := Counters.hitOf_of_live hlive
    have htold : memory.told (.incr key) = 2 + m := by
      rw [Memory.told_incr_of_live hlive, Nat.add_comm 2 m]
    obtain ⟨k', hk, hset⟩ := exists_perm_set_of_waiting
      (.closing :: (List.range' 2 m).map .done) hplace (by simp) hstages
    rw [htold, Stage.counted, if_neg (by omega)]
    refine .opened (m + 1) k' first (by omega) ?_ ?_ hpast ?_ ?_ ?_
    · rw [List.range'_1_concat, List.map_append]
      exact hset (.done (2 + m))
    · rw [incrementTimes_append_incr, List.head?_append, hfirst]
      rfl
    · exact incrementCounts_next hcounts
    · rw [expiryTimes_append_incr, hexpiries]
    · rw [hhit] at hcalled
      exact hcalled
  | closed m k first expiry hcalls hstages hfirst hpast hcounts hexpiries hlive =>
    -- the end was set no earlier than the first increment, so the window is open
    have hnow : memory.now < first + period.nanos := hwithin first hfirst
    have hopen : ∀ count, (Counter.mk count (deadline expiry period)).isOver memory.now = false :=
      fun count => Counter.isOver_deadline_of_lt count (by omega)
    rw [Option.filter_some, hopen] at hlive
    have hhit := Counters.hitOf_of_live hlive
    have htold : memory.told (.incr key) = 2 + m := by
      rw [Memory.told_incr_of_live hlive, Nat.add_comm 2 m]
    obtain ⟨k', hk, hset⟩ := exists_perm_set_of_waiting
      ((List.range' 1 (m + 1)).map .done) hplace (by simp) hstages
    rw [htold, Stage.counted, if_neg (by omega)]
    refine .closed (m + 1) k' first expiry (by omega) ?_ ?_ hpast ?_ ?_ ?_
    · rw [List.range'_1_concat, List.map_append, show 1 + (m + 1) = 2 + m by omega]
      exact hset (.done (2 + m))
    · rw [incrementTimes_append_incr, List.head?_append, hfirst]
      rfl
    · exact incrementCounts_next hcounts
    · rw [expiryTimes_append_incr, hexpiries]
    · show (memory.called (.incr key)).table.live? memory.now key =
        (some (Counter.mk (m + 1 + 1) (deadline expiry period))).filter fun c =>
          !c.isOver memory.now
      rw [Option.filter_some, hopen, hcalled, hhit]
      rfl

/-- **Setting the end of the window takes the first decision to its end.** -/
theorem expire (h : Phase calls key period stages log memory) {place : Nat}
    (hplace : stages[place]? = some .closing) :
    Phase calls key period (stages.set place (.done 1))
      (log ++ [⟨place, memory.now, .expire key period, memory.told (.expire key period)⟩])
      (memory.called (.expire key period)) := by
  have hmem : Stage.closing ∈ stages := List.mem_of_getElem? hplace
  cases h with
  | idle hstages htimes hcounts hexpiries hlive =>
    exact absurd (hstages.mem_iff.mp hmem) (by simp)
  | closed m k first expiry hcalls hstages hfirst hpast hcounts hexpiries hlive =>
    exact absurd (hstages.mem_iff.mp hmem) (by simp)
  | opened m k first hcalls hstages hfirst hpast hcounts hexpiries hlive =>
    refine .closed m k first memory.now hcalls ?_ ?_ hpast ?_ ?_ ?_
    · rw [List.range'_succ, List.map_cons, List.cons_append]
      exact perm_set hplace hstages (.done 1)
    · rw [incrementTimes_append_expire, hfirst]
    · rw [incrementCounts_append_expire, hcounts]
    · rw [expiryTimes_append_expire, hexpiries]
      rfl
    · exact Counters.live?_expire_of_live hlive

end Phase

/-! ## All schedules -/

/-- No increment in a log comes a period or more after the first one. -/
def Within (period : Duration) (log : List Called) : Prop :=
  ∀ first ∈ (incrementTimes log).head?, ∀ time ∈ incrementTimes log, time < first + period.nanos

theorem Within.of_append {period : Duration} {log more : List Called}
    (h : Within period (log ++ more)) : Within period log := by
  intro first hfirst time htime
  have htimes : incrementTimes (log ++ more) = incrementTimes log ++ incrementTimes more := by
    simp [incrementTimes]
  refine h first ?_ time ?_
  · rw [htimes, List.head?_append, Option.mem_def.mp hfirst]
    rfl
  · rw [htimes]
    exact List.mem_append_left _ htime

section

variable {α : Type} {calls : Nat} {key : String} {period : Duration} {verdict : Nat → α}
  {log : List Called} {pool : Pool Memory α}

/-- The dialogues of a pool are at stages, and all together are in a phase. -/
def Progress (calls : Nat) (key : String) (period : Duration) (verdict : Nat → α)
    (log : List Called) (pool : Pool Memory α) : Prop :=
  ∃ stages, Tracks key period verdict stages pool.members ∧
    Phase calls key period stages log pool.state

/-- One more call of one decision. -/
theorem Progress.step (h : Progress calls key period verdict log pool) {place : Nat}
    (hwithin : Within period (log ++ (pool.called? (.step place)).toList)) :
    Progress calls key period verdict (log ++ (pool.called? (.step place)).toList)
      (pool.move (.step place)) := by
  obtain ⟨stages, htracks, hphase⟩ := h
  cases hb : pool.members[place]?.bind fun member => member.dialogue.asks? with
  | none =>
    rw [Pool.called?, hb, Pool.move_step_of_not_asks hb, Option.map_none, Option.toList_none,
      List.append_nil]
    exact ⟨stages, htracks, hphase⟩
  | some request =>
    obtain ⟨member, hm, ha⟩ := Option.bind_eq_some_iff.mp hb
    obtain ⟨stage, hstage, hat⟩ := htracks.stage? hm
    -- the stage tells which call is made, and with it which move of the phase applies
    rw [Pool.called?, hb, Option.map_some, Option.toList_some] at hwithin ⊢
    rw [Pool.move_step_of_asks hm ha]
    cases stage with
    | waiting =>
      obtain rfl := Option.some.inj (ha.symm.trans hat.1)
      refine ⟨_, htracks.set place (hat.counted _), hphase.increment hstage ?_⟩
      intro first hfirst
      refine hwithin first ?_ pool.state.now ?_
      · rw [incrementTimes_append_incr, List.head?_append, Option.mem_def.mp hfirst]
        rfl
      · rw [incrementTimes_append_incr]
        exact List.mem_append_right _ (List.mem_singleton_self _)
    | closing =>
      obtain rfl := Option.some.inj (ha.symm.trans hat.1)
      refine ⟨stages.set place (.done 1), htracks.set place ?_, hphase.expire hstage⟩
      exact hat.2 _
    | done count =>
      have hd : member.dialogue = .done (verdict count) := hat
      rw [hd] at ha
      cases ha

/-- **Every move but a clearing keeps all decisions together in a phase.** -/
theorem Progress.move (h : Progress calls key period verdict log pool) {next : Move}
    (hclear : next ≠ .clear) (hwithin : Within period (log ++ (pool.called? next).toList)) :
    Progress calls key period verdict (log ++ (pool.called? next).toList) (pool.move next) := by
  cases next with
  | step place => exact h.step hwithin
  | advance time =>
    obtain ⟨stages, htracks, hphase⟩ := h
    rw [Pool.called?, Option.toList_none, List.append_nil]
    have hle : pool.state.now ≤ (pool.state.advance time).now := Nat.le_add_right _ _
    exact ⟨stages, htracks, hphase.later hle (Counters.live?_of_le hle)⟩
  | purge =>
    obtain ⟨stages, htracks, hphase⟩ := h
    rw [Pool.called?, Option.toList_none, List.append_nil]
    refine ⟨stages, htracks, hphase.later (Nat.le_refl _) ?_⟩
    exact (Counters.live?_purge (Nat.le_refl _)).trans (Counters.live?_of_le (Nat.le_refl _))
  | clear => exact absurd rfl hclear

/-- **After every schedule all decisions together are in a phase.** -/
theorem progress_play (hstart : Progress calls key period verdict [] pool) {schedule : List Move}
    (hclear : .clear ∉ schedule) (hwithin : Within period (Pool.log schedule pool)) :
    Progress calls key period verdict (Pool.log schedule pool) (Pool.play schedule pool) := by
  induction schedule using List.reverseRecOn with
  | nil => exact hstart
  | append_singleton schedule next ih =>
    rw [List.mem_append, not_or, List.mem_singleton] at hclear
    rw [Pool.log_append_singleton] at hwithin ⊢
    rw [Pool.play_append_singleton]
    exact (ih hclear.1 hwithin.of_append).move (Ne.symm hclear.2) hwithin

end

/-! ## The end of a schedule -/

/-- When all decisions are done, their counts are the first ones, and the window has its end. -/
theorem Phase.ended {calls : Nat} {key : String} {period : Duration} {stages : List Stage}
    {log : List Called} {memory : Memory} (h : Phase calls key period stages log memory)
    (hdone : ∀ stage ∈ stages, stage.count?.isSome) :
    stages.Perm ((List.range' 1 calls).map .done) ∧
      incrementCounts log = List.range' 1 calls ∧
      (0 < calls → ∃ first expiry, (incrementTimes log).head? = some first ∧
        expiryTimes log = [expiry] ∧ first ≤ expiry ∧ ∀ later, memory.now ≤ later →
          memory.table.live? later key =
            (some ⟨calls, deadline expiry period⟩).filter fun c => !c.isOver later) := by
  -- nobody is left at the other stages, which rules two phases out
  have hwaiting : .waiting ∉ stages := fun hmem => absurd (hdone _ hmem) (by simp [Stage.count?])
  have hclosing : .closing ∉ stages := fun hmem => absurd (hdone _ hmem) (by simp [Stage.count?])
  cases h with
  | idle hstages htimes hcounts hexpiries hlive =>
    have hcalls : calls = 0 := by
      rw [hstages.mem_iff] at hwaiting
      simpa using hwaiting
    subst hcalls
    exact ⟨hstages, hcounts, fun hpos => absurd hpos (Nat.lt_irrefl 0)⟩
  | opened m k first hcalls hstages hfirst hpast hcounts hexpiries hlive =>
    rw [hstages.mem_iff] at hclosing
    exact absurd List.mem_cons_self hclosing
  | closed m k first expiry hcalls hstages hfirst hpast hcounts hexpiries hlive =>
    have hk : k = 0 := by
      rw [hstages.mem_iff] at hwaiting
      simpa using hwaiting
    subst hk
    obtain rfl : m + 1 = calls := hcalls
    rw [List.replicate_zero, List.append_nil] at hstages
    refine ⟨hstages, hcounts, fun _ => ⟨first, expiry, hfirst, hexpiries, hpast, ?_⟩⟩
    intro later hlater
    rw [Counters.live?_of_le hlater, hlive, Counter.filter_isOver_of_le hlater]

theorem Tracks.isSome_count? {α : Type} {key : String} {period : Duration} {verdict : Nat → α}
    {stages : List Stage} {members : List (Member α)}
    (h : Tracks key period verdict stages members)
    (hdone : ∀ member ∈ members, member.result?.isSome) :
    ∀ stage ∈ stages, stage.count?.isSome := by
  intro stage hmem
  obtain ⟨i, hi, rfl⟩ := List.getElem_of_mem hmem
  have hm : i < members.length := h.length ▸ hi
  have hresult := hdone _ (List.getElem_mem hm)
  rw [(h.atStage i hi hm).result?, Option.isSome_map] at hresult
  exact hresult

end Admission.Store

namespace Admission

open Store

/-! ## Decisions that count on one key -/

/-- The decision of a rule on the count of its key. -/
def Rule.verdict (rule : Rule) (key : String) (count : Nat) : Except StorageFault Decision :=
  if rule.limit.toNat < count then .ok (.throttled rule key count) else .ok .allowed

/-- The first counts are allowed up to the limit, and the ones above it are throttled. -/
theorem Rule.map_verdict_range' (rule : Rule) (key : String) (calls : Nat) :
    (List.range' 1 calls).map (rule.verdict key) =
      List.replicate (min calls rule.limit.toNat) (.ok .allowed) ++
        (List.range' (rule.limit.toNat + 1) (calls - rule.limit.toNat)).map fun count =>
          .ok (.throttled rule key count) := by
  have hallowed : ∀ n ≤ rule.limit.toNat, (List.range' 1 n).map (rule.verdict key) =
      List.replicate n (.ok .allowed) := by
    intro n hn
    refine List.eq_replicate_iff.mpr ⟨by simp, fun decision hmem => ?_⟩
    obtain ⟨count, hcount, rfl⟩ := List.mem_map.mp hmem
    rw [List.mem_range'_1] at hcount
    rw [verdict, if_neg (by omega)]
  rcases Nat.le_total calls rule.limit.toNat with hle | hle
  · rw [hallowed calls hle, Nat.min_eq_left hle, Nat.sub_eq_zero_of_le hle]
    simp
  · have hsplit : List.range' 1 calls = List.range' 1 rule.limit.toNat ++
        List.range' (rule.limit.toNat + 1) (calls - rule.limit.toNat) := by
      rw [Nat.add_comm rule.limit.toNat 1, List.range'_append_1]
      congr 1
      omega
    rw [hsplit, List.map_append, hallowed _ (Nat.le_refl _), Nat.min_eq_right hle]
    congr 1
    refine List.map_congr_left fun count hmem => ?_
    rw [List.mem_range'_1] at hmem
    rw [verdict, if_pos (by omega)]

namespace Engine

/-- A request on which an engine counts one hit, for one rule and on one key. -/
structure CountsOnce (engine : Engine) (policy : Policy) (request : Request) (rule : Rule)
    (key : String) : Prop where
  notSafelisted : policy.access.isSafelisted (engine.client request) = false
  notBlocked : policy.access.isBlocked (engine.client request) = false
  matching : policy.matching request.path request.method = [rule]
  renders : rule.key.render (engine.client request) request.path = key

variable {rule : Rule} {key : String}

section

variable {engine : Engine} {policy : Policy} {request : Request}
  (h : engine.CountsOnce policy request rule key)

include h

/-- Such a decision is one hit and the verdict on its count. -/
theorem CountsOnce.judge_eq :
    engine.judge policy request = (engine.increment key rule.period).bind fun counted =>
      .done (counted.bind (rule.verdict key)) := by
  rw [judge, Policy.judge_of_unlisted h.notSafelisted h.notBlocked, h.matching]
  simp only [Decision.evaluate, h.renders]
  show Dialogue.bind _ _ = Dialogue.bind _ _
  congr 1
  funext counted
  cases counted with
  | error fault => rfl
  | ok count =>
    simp only [Except.bind, Rule.verdict]
    split <;> rfl

theorem CountsOnce.atStage :
    AtStage key rule.period (rule.verdict key) .waiting (engine.judge policy request) := by
  rw [h.judge_eq]
  unfold increment incrementAndExpire
  cases engine.timeout with
  | none =>
    refine ⟨rfl, rfl, fun told => rfl, fun count hc => ?_⟩
    simp [Dialogue.bind, Dialogue.resume, Except.bind, hc]
  | some limit =>
    refine ⟨rfl, rfl, fun told => rfl, fun count hc => ?_⟩
    simp [Dialogue.bind, Dialogue.resume, Dialogue.within, Except.bind, hc]

end

/-- Decisions of engines that start at the same time on one store. -/
def atOnce (calls : List (Engine × Policy × Request)) (memory : Memory) :
    Pool Memory (Except StorageFault Decision) :=
  .start (calls.map fun (engine, policy, request) => engine.judge policy request) memory

section

variable {calls : List (Engine × Policy × Request)} {memory : Memory} {schedule : List Move}
  (hcalls : ∀ engine policy request, (engine, policy, request) ∈ calls →
    engine.CountsOnce policy request rule key)

include hcalls

theorem progress_atOnce (hstart : memory.table.count? memory.now key = none) :
    Progress calls.length key rule.period (rule.verdict key) [] (atOnce calls memory) := by
  refine ⟨List.replicate calls.length .waiting, ⟨by simp [atOnce, Pool.start], ?_⟩,
    .idle (.refl _) rfl rfl rfl (Option.map_eq_none_iff.mp hstart)⟩
  intro i hs hm
  simp only [atOnce, Pool.start, List.getElem_replicate, List.getElem_map]
  exact (hcalls _ _ _ (List.getElem_mem _)).atStage

/-- **Each of the decisions is done once it has had two moves, whatever the others do.** -/
theorem done_of_two_moves {place : Nat} (hplace : place < calls.length)
    (htwo : 2 ≤ schedule.count (.step place)) :
    ∃ last, (Pool.play schedule (atOnce calls memory)).members[place]? = some last ∧
      last.result?.isSome := by
  have hat := (hcalls _ _ _ (List.getElem_mem hplace)).atStage
  have hm : (atOnce calls memory).members[place]? =
      some ⟨0, calls[place].1.judge calls[place].2.1 calls[place].2.2⟩ := by
    simp only [atOnce, Pool.start, List.map_map, List.getElem?_map,
      List.getElem?_eq_getElem hplace]
    rfl
  exact Pool.done_of_count hm hat.endsWithin htwo

/--
**Concurrent admission is exact.** Decisions that all count one hit for one rule on one key are led
on one store in any order of their calls, while time passes and counters are purged, until all of
them are done. The key has no open window at the start, and no increment comes a period or more
after the first one. Then the increments tell one, two, three and so on; as many decisions as the
limit says allow, and the others throttle; and the window counts all of them until it ends.
-/
theorem concurrent_admission (hstart : memory.table.count? memory.now key = none)
    (hclear : .clear ∉ schedule)
    (hwithin : Within rule.period (Pool.log schedule (atOnce calls memory)))
    (hdone : ∀ member ∈ (Pool.play schedule (atOnce calls memory)).members,
      member.result?.isSome) :
    incrementCounts (Pool.log schedule (atOnce calls memory)) = List.range' 1 calls.length ∧
      (Pool.play schedule (atOnce calls memory)).results.Perm
        (List.replicate (min calls.length rule.limit.toNat) (.ok .allowed) ++
          (List.range' (rule.limit.toNat + 1) (calls.length - rule.limit.toNat)).map fun count =>
            .ok (.throttled rule key count)) ∧
      (0 < calls.length → ∃ first expiry,
        (incrementTimes (Pool.log schedule (atOnce calls memory))).head? = some first ∧
        expiryTimes (Pool.log schedule (atOnce calls memory)) = [expiry] ∧ first ≤ expiry ∧
        ∀ later, (Pool.play schedule (atOnce calls memory)).state.now ≤ later →
          (Pool.play schedule (atOnce calls memory)).state.table.count? later key =
            if (Counter.mk calls.length (deadline expiry rule.period)).isOver later then none
            else some calls.length) := by
  obtain ⟨stages, htracks, hphase⟩ := progress_play (progress_atOnce hcalls hstart) hclear hwithin
  obtain ⟨hperm, hcounts, hended⟩ := hphase.ended (htracks.isSome_count? hdone)
  refine ⟨hcounts, ?_, fun hpos => ?_⟩
  · rw [Pool.results, htracks.results, ← Rule.map_verdict_range']
    have hdoneCounts : ((List.range' 1 calls.length).map Stage.done).filterMap Stage.count? =
        List.range' 1 calls.length := by
      rw [List.filterMap_map]
      exact List.filterMap_some
    rw [← hdoneCounts]
    exact (hperm.filterMap _).map _
  · obtain ⟨first, expiry, hfirst, hexpiries, hpast, hlive⟩ := hended hpos
    refine ⟨first, expiry, hfirst, hexpiries, hpast, fun later hlater => ?_⟩
    rw [Counters.count?, hlive later hlater, Option.filter_some]
    cases (Counter.mk calls.length (deadline expiry rule.period)).isOver later <;> rfl

end

theorem pairLimit_pos : 0 < (2 : UInt64).toNat := by decide

/-- A rule for every request that lets two of them through in a minute. -/
def pairRule : Rule := sharedRule 2 pairLimit_pos

/-- Three decisions by this rule, one of them with a limit on the time of the store. -/
def pairCalls : List (Engine × Policy × Request) :=
  [({}, { rules := [pairRule] }, {}),
    ({ timeout := some (.ofMillis 5) }, { rules := [pairRule] }, { path := "/b" }),
    ({}, { rules := [pairRule] }, { path := "/c" })]

/-- The others count between the two calls of the first decision, and the counter is purged. -/
def pairSchedule : List Move :=
  [.step 0, .purge, .advance (.ofSecs 7), .step 2, .step 1, .step 0, .purge, .advance (.ofSecs 59)]

/-- Of three decisions at once, two are allowed, and the window still counts three at the end. -/
theorem concurrent_admission_of_three :
    (Pool.play pairSchedule (atOnce pairCalls {})).results.Perm
        [.ok .allowed, .ok .allowed, .ok (.throttled pairRule "shared" 3)] ∧
      (Pool.play pairSchedule (atOnce pairCalls {})).state.table.count? 66_000_000_000 "shared" =
        some 3 := by
  have hcalls : ∀ engine policy request, (engine, policy, request) ∈ pairCalls →
      engine.CountsOnce policy request pairRule "shared" := by
    intro engine policy request hmem
    simp only [pairCalls, List.mem_cons, Prod.mk.injEq, List.not_mem_nil, or_false] at hmem
    rcases hmem with ⟨rfl, rfl, rfl⟩ | ⟨rfl, rfl, rfl⟩ | ⟨rfl, rfl, rfl⟩
    all_goals
      exact ⟨by decide +kernel, by decide +kernel, by decide +kernel, by decide +kernel⟩
  have hlog : incrementTimes (Pool.log pairSchedule (atOnce pairCalls {})) =
      [0, 7_000_000_000, 7_000_000_000] := by
    decide +kernel
  have hwithin : Within pairRule.period (Pool.log pairSchedule (atOnce pairCalls {})) := by
    unfold Within
    rw [hlog]
    decide +kernel
  have hdone : ∀ member ∈ (Pool.play pairSchedule (atOnce pairCalls {})).members,
      member.result?.isSome :=
    List.all_eq_true.mp (by decide +kernel)
  obtain ⟨-, hresults, hended⟩ :=
    concurrent_admission hcalls rfl (by decide) hwithin hdone
  obtain ⟨first, expiry, -, hexpiry, -, hcount⟩ := hended (by decide)
  have hends : expiryTimes (Pool.log pairSchedule (atOnce pairCalls {})) = [7_000_000_000] := by
    decide +kernel
  obtain rfl : expiry = 7_000_000_000 := List.singleton_inj.mp (hexpiry.symm.trans hends)
  refine ⟨hresults, ?_⟩
  rw [hcount _ (by decide +kernel)]
  decide +kernel

end Engine

end Admission
