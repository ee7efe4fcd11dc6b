import Mathlib.Data.List.Induction
import Admission.Proofs.Decision.Concurrent
import Admission.Proofs.Decision.FailedExpiry
/-!
# Pending expiries

Between an increment that opens a window and the call that sets its end, the counter is without an
end. Other dialogues may count on it meanwhile, the store may be cleared and the window opened once
more by somebody else, so that several dialogues may be about to set the end for one key. Nothing is
lost by that: as long as a counter is without an end, there is a dialogue that has opened a window
of its key and sets an end next.

1. `ClosesWindows`: dialogues that set the end of each window that they open; they are closed under
   `bind` and `within`, so judgements are among them
2. `endless_called`, `Pool.endless_move`: where a counter without an end comes from
3. `Owed.move`: a dialogue that is about to set an end stays so, until it does
4. `Attended.move`, `attended_play`: hence what is said above holds after every schedule
-/

namespace Admission.Store

/-! ## Dialogues that set an end -/

namespace Dialogue

variable {α β : Type} {d : Dialogue α} {request : Call}

/-- The next call sets the end of a window of the key. -/
def Closing (key : String) (d : Dialogue α) : Prop :=
  ∃ period, d.asks? = some (.expire key period)

/-- Whenever an increment has opened a window, the next call sets its end. -/
inductive ClosesWindows : Dialogue α → Prop where
  | intro {d : Dialogue α}
      (hcloses : ∀ key, d.asks? = some (.incr key) → (d.resume 1).Closing key)
      (hrest : ∀ request, d.asks? = some request → ∀ told, ClosesWindows (d.resume told)) :
      ClosesWindows d

theorem ClosesWindows.closing {key : String} (h : d.ClosesWindows)
    (ha : d.asks? = some (.incr key)) : (d.resume 1).Closing key := by
  cases h with
  | intro hcloses hrest => exact hcloses key ha

theorem ClosesWindows.resume (h : d.ClosesWindows) (ha : d.asks? = some request) (told : Nat) :
    (d.resume told).ClosesWindows := by
  cases h with
  | intro hcloses hrest => exact hrest request ha told

theorem closesWindows_done (result : α) : (done result).ClosesWindows :=
  .intro (fun _ ha => nomatch ha) fun _ ha => nomatch ha

theorem closesWindows_incrementAndExpire (key : String) (period : Duration) :
    (incrementAndExpire key period).ClosesWindows := by
  refine .intro ?_ fun request _ told => ?_
  · rintro other ⟨⟩
    exact ⟨period, rfl⟩
  · by_cases hone : told = 1
    · subst hone
      exact .intro (fun _ ha => nomatch ha) fun _ _ _ => closesWindows_done _
    · have hdone : (incrementAndExpire key period).resume told = done (.ok told) := if_neg hone
      rw [hdone]
      exact closesWindows_done _

/-! ### Dialogues in a row -/

theorem asks?_bind (ha : d.asks? = some request) (f : α → Dialogue β) :
    (d.bind f).asks? = some request := by
  cases d with
  | done result => cases ha
  | call other next => exact ha
  | callWithin other limit late next => exact ha

theorem resume_bind (ha : d.asks? = some request) (f : α → Dialogue β) (told : Nat) :
    (d.bind f).resume told = (d.resume told).bind f := by
  cases d with
  | done result => cases ha
  | call other next => rfl
  | callWithin other limit late next => rfl

theorem ClosesWindows.bind (h : d.ClosesWindows) {f : α → Dialogue β}
    (hf : ∀ result, (f result).ClosesWindows) : (d.bind f).ClosesWindows := by
  induction h with
  | @intro d hcloses hrest ih =>
    cases ha : d.asks? with
    | none =>
      obtain ⟨result, rfl⟩ := eq_done_of_asks? ha
      exact hf result
    | some request =>
      refine .intro (fun key hask => ?_) fun _ _ told => ?_
      · obtain rfl := Option.some.inj ((asks?_bind ha f).symm.trans hask)
        obtain ⟨period, hclosing⟩ := hcloses key ha
        rw [resume_bind ha]
        exact ⟨period, asks?_bind hclosing f⟩
      · rw [resume_bind ha]
        exact ih request ha told

/-! ### A limit over a dialogue -/

theorem asks?_within (limit : Nat) (late : α) (d : Dialogue α) :
    (d.within limit late).asks? = d.asks? := by
  cases d with
  | done result => rfl
  | call request next => rfl
  | callWithin request inner onLate next =>
    unfold within
    split <;> rfl

theorem resume_within (limit : Nat) (late : α) (d : Dialogue α) (told : Nat) :
    (d.within limit late).resume told = (d.resume told).within limit late := by
  cases d with
  | done result => rfl
  | call request next => rfl
  | callWithin request inner onLate next =>
    rw [within]
    split <;> rfl

theorem ClosesWindows.within (h : d.ClosesWindows) (limit : Nat) (late : α) :
    (d.within limit late).ClosesWindows := by
  induction h with
  | @intro d hcloses hrest ih =>
    refine .intro (fun key ha => ?_) fun request ha told => ?_
    · rw [asks?_within] at ha
      obtain ⟨period, hclosing⟩ := hcloses key ha
      rw [resume_within]
      exact ⟨period, (asks?_within limit late _).trans hclosing⟩
    · rw [asks?_within] at ha
      rw [resume_within]
      exact ih request ha told

end Dialogue

theorem Member.not_closing {α : Type} {member : Member α} (h : member.result?.isSome)
    (key : String) : ¬ member.dialogue.Closing key := by
  rintro ⟨period, hclosing⟩
  rw [Member.result?_eq_none hclosing] at h
  cases h

/-! ## Where a counter without an end comes from -/

open Counters

section

variable {memory : Memory} {request : Call} {key : String}

/-- A counter that is without an end after a call was so before, or the call has opened its window,
or it has set an end that the clock cannot tell. -/
theorem Memory.endless_called (h : (memory.called request).table.Endless key) :
    (memory.table.Endless key ∧ ∀ period, request ≠ .expire key period) ∨
      (request = .incr key ∧ memory.told request = 1) ∨
      ∃ period, request = .expire key period ∧ deadline memory.now period = none := by
  cases request with
  | incr other =>
    have hfind : ∀ k, (memory.called (.incr other)).table.find? k =
        if k = other then some (memory.table.hitOf memory.now other) else memory.table.find? k :=
      fun k => find?_incr memory.table memory.now other k
    by_cases ho : key = other
    · subst ho
      obtain ⟨after, hafter, hend⟩ := h
      rw [hfind, if_pos rfl] at hafter
      obtain rfl := Option.some.inj hafter
      cases hl : memory.table.live? memory.now key with
      | none => exact .inr (.inl ⟨rfl, by rw [told, hitOf_of_not_live hl]⟩)
      | some counter =>
        rw [hitOf_of_live hl] at hend
        refine .inl ⟨⟨counter, (live?_eq_some_iff.mp hl).1, hend⟩, ?_⟩
        rintro period ⟨⟩
    · refine .inl ⟨(endless_congr ?_).mp h, ?_⟩
      · rw [hfind, if_neg ho]
      · rintro period ⟨⟩
  | expire other period =>
    have hfind : ∀ k, (memory.called (.expire other period)).table.find? k =
        if k = other then (memory.table.find? other).map fun counter =>
          { counter with endsAt := deadline memory.now period }
        else memory.table.find? k :=
      fun k => find?_expire memory.table memory.now other k period
    by_cases ho : key = other
    · subst ho
      obtain ⟨after, hafter, hend⟩ := h
      rw [hfind, if_pos rfl] at hafter
      obtain ⟨counter, -, rfl⟩ := Option.map_eq_some_iff.mp hafter
      exact .inr (.inr ⟨period, rfl, hend⟩)
    · refine .inl ⟨(endless_congr ?_).mp h, ?_⟩
      · rw [hfind, if_neg ho]
      · rintro period' he
        cases he
        exact ho rfl

end

/-- The instant at which a call has set the end of a window. -/
def Called.closesAt? (called : Called) : Option Nat :=
  match called.request with
  | .incr _ => none
  | .expire _ period => some (called.time + period.nanos)

namespace Pool

variable {α : Type} {pool : Pool Memory α} {log : List Called} {next : Move} {key : String}

/-- A counter that is without an end after a move was so before, and its end was not to be set then,
or the move has opened its window. -/
theorem endless_move (h : (pool.move next).state.table.Endless key)
    (hrange : ∀ called ∈ pool.called? next, ∀ instant ∈ called.closesAt?, instant < clockEnd) :
    (pool.state.table.Endless key ∧
        ∀ called ∈ pool.called? next, ∀ period, called.request ≠ .expire key period) ∨
      ∃ place, next = .step place ∧
        pool.called? next = some ⟨place, pool.state.now, .incr key, 1⟩ := by
  cases next with
  | step place =>
    cases hb : pool.members[place]?.bind fun member => member.dialogue.asks? with
    | none =>
      rw [move_step_of_not_asks hb] at h
      rw [called?_step_of_not_asks hb]
      exact .inl ⟨h, fun _ hmem => absurd hmem (Option.not_mem_none _)⟩
    | some request =>
      obtain ⟨member, hm, ha⟩ := Option.bind_eq_some_iff.mp hb
      rw [called?_step_of_asks hm ha] at hrange ⊢
      rw [move_step_of_asks hm ha] at h
      rcases Memory.endless_called h with ⟨hbefore, hne⟩ | ⟨rfl, htold⟩ | ⟨period, rfl, hnone⟩
      · refine .inl ⟨hbefore, ?_⟩
        rintro called ⟨⟩
        exact hne
      · exact .inr ⟨place, rfl, by rw [htold]⟩
      · have hlt := hrange _ rfl _ rfl
        rw [deadline, if_pos hlt] at hnone
        cases hnone
  | advance period => exact .inl ⟨h, fun _ hmem => absurd hmem (Option.not_mem_none _)⟩
  | purge =>
    obtain ⟨counter, hfind, hend⟩ := h
    have hlive := (find?_purge pool.state.table pool.state.now key).symm.trans hfind
    exact .inl ⟨⟨counter, (live?_eq_some_iff.mp hlive).1, hend⟩,
      fun _ hmem => absurd hmem (Option.not_mem_none _)⟩
  | clear =>
    obtain ⟨counter, hfind, -⟩ := h
    cases hfind

/-! ## Who sets the end -/

/-- A dialogue has opened a window of the key and sets an end next. -/
def Owed (log : List Called) (pool : Pool Memory α) (key : String) : Prop :=
  ∃ place member time, pool.members[place]? = some member ∧
    ⟨place, time, .incr key, 1⟩ ∈ log ∧ member.dialogue.Closing key

/-- What is owed stays so until it is done. -/
theorem Owed.move (h : pool.Owed log key)
    (hne : ∀ called ∈ pool.called? next, ∀ period, called.request ≠ .expire key period) :
    (pool.move next).Owed (log ++ (pool.called? next).toList) key := by
  obtain ⟨place, member, time, hm, hlog, period, hclosing⟩ := h
  -- if the dialogue itself moved, it would make the call that it is about to make
  have hother : next ≠ .step place := by
    rintro rfl
    exact hne _ (called?_step_of_asks hm hclosing) period rfl
  exact ⟨place, member, time, (getElem?_move_of_ne pool hother).trans hm,
    List.mem_append_left _ hlog, period, hclosing⟩

/-- All dialogues set the ends of their windows, and for each counter without an end this is owed. -/
structure Attended (log : List Called) (pool : Pool Memory α) : Prop where
  closes : ∀ member ∈ pool.members, member.dialogue.ClosesWindows
  owed : ∀ key, pool.state.table.Endless key → pool.Owed log key

theorem closesWindows_of_mem_move (h : ∀ member ∈ pool.members, member.dialogue.ClosesWindows)
    {member : Member α} (hmem : member ∈ (pool.move next).members) :
    member.dialogue.ClosesWindows := by
  cases next with
  | step place =>
    cases hb : pool.members[place]?.bind fun member => member.dialogue.asks? with
    | none =>
      rw [move_step_of_not_asks hb] at hmem
      exact h member hmem
    | some request =>
      obtain ⟨before, hbefore, ha⟩ := Option.bind_eq_some_iff.mp hb
      rw [move_step_of_asks hbefore ha] at hmem
      rcases List.mem_or_eq_of_mem_set hmem with hmem | rfl
      · exact h member hmem
      · exact (h before (List.mem_of_getElem? hbefore)).resume ha _
  | advance period => exact h member hmem
  | purge => exact h member hmem
  | clear => exact h member hmem

theorem Attended.move (h : pool.Attended log)
    (hrange : ∀ called ∈ pool.called? next, ∀ instant ∈ called.closesAt?, instant < clockEnd) :
    (pool.move next).Attended (log ++ (pool.called? next).toList) where
  closes := fun _ hmem => closesWindows_of_mem_move h.closes hmem
  owed := by
    intro key hend
    rcases endless_move hend hrange with ⟨hbefore, hne⟩ | ⟨place, rfl, hcalled⟩
    · exact (h.owed key hbefore).move hne
    · -- the one that has opened the window is about to set its end
      obtain ⟨request, hasks, hrequest⟩ := Option.map_eq_some_iff.mp hcalled
      obtain ⟨member, hm, ha⟩ := Option.bind_eq_some_iff.mp hasks
      injection hrequest with _ _ hincr htold
      subst hincr
      have hafter := getElem?_move_step_of_asks hm ha
      rw [htold] at hafter
      have hcloses := h.closes member (List.mem_of_getElem? hm)
      refine ⟨place, _, pool.state.now, hafter, ?_, hcloses.closing ha⟩
      rw [hcalled]
      exact List.mem_append_right _ (List.mem_singleton_self _)

theorem attended_play {schedule : List Move} (h : pool.Attended [])
    (hrange : ∀ called ∈ Pool.log schedule pool, ∀ instant ∈ called.closesAt?,
      instant < clockEnd) :
    (play schedule pool).Attended (Pool.log schedule pool) := by
  induction schedule using List.reverseRecOn with
  | nil => exact h
  | append_singleton schedule next ih =>
    rw [log_append_singleton] at hrange ⊢
    rw [play_append_singleton]
    have hbefore := ih fun called hmem => hrange called (List.mem_append_left _ hmem)
    exact hbefore.move fun called hmem =>
      hrange called (List.mem_append_right _ (Option.mem_toList.mpr hmem))

theorem attended_start {dialogues : List (Dialogue α)} {memory : Memory}
    (hcloses : ∀ d ∈ dialogues, d.ClosesWindows) (hends : ∀ key, ¬ memory.table.Endless key) :
    (start dialogues memory).Attended [] where
  closes := by
    intro member hmem
    obtain ⟨d, hd, rfl⟩ := List.mem_map.mp hmem
    exact hcloses d hd
  owed := fun key hend => absurd hend (hends key)

/-- When nobody is about to set an end, none is missing. -/
theorem Attended.endsAt_ne_none (h : pool.Attended log)
    (hnobody : ∀ member ∈ pool.members, ∀ key, ¬ member.dialogue.Closing key) {counter : Counter}
    (hfind : pool.state.table.find? key = some counter) : counter.endsAt ≠ none := by
  intro hend
  obtain ⟨place, member, time, hm, -, hclosing⟩ := h.owed key ⟨counter, hfind, hend⟩
  exact hnobody member (List.mem_of_getElem? hm) key hclosing

end Pool

/-! ## Hits at the same time -/

theorem not_endless_empty (key : String) : ¬ Counters.empty.Endless key := by
  rintro ⟨counter, ⟨⟩, -⟩

/-- Tasks on a new store that count one hit each, on a key and for a period. -/
def hitsAtOnce (tasks : List (String × Duration)) (now : Nat) :
    Pool Memory (Except StorageFault Nat) :=
  .start (tasks.map fun (key, period) => incrementAndExpire key period) ⟨now, .empty⟩

theorem attended_hitsAtOnce (tasks : List (String × Duration)) (now : Nat) :
    (hitsAtOnce tasks now).Attended [] := by
  refine Pool.attended_start (fun d hmem => ?_) not_endless_empty
  obtain ⟨⟨key, period⟩, -, rfl⟩ := List.mem_map.mp hmem
  exact Dialogue.closesWindows_incrementAndExpire key period

/--
**A counter is without an end only until a task that has opened its window goes on.** Any number of
tasks count hits on a new store, in any order of their calls, while time passes and the store is
purged and cleared; all ends that they set are such that the clock can tell them. Then for every
counter without an end there is a task that was told one by its increment of that key and sets the
end for that key next. Hence, if no task is about to set an end, all stored counters have one.
-/
theorem endless_only_while_owed (tasks : List (String × Duration)) (now : Nat)
    (schedule : List Move)
    (hrange : ∀ called ∈ Pool.log schedule (hitsAtOnce tasks now), ∀ instant ∈ called.closesAt?,
      instant < clockEnd) :
    (∀ key, (Pool.play schedule (hitsAtOnce tasks now)).state.table.Endless key →
        (Pool.play schedule (hitsAtOnce tasks now)).Owed
          (Pool.log schedule (hitsAtOnce tasks now)) key) ∧
      ((∀ member ∈ (Pool.play schedule (hitsAtOnce tasks now)).members,
          ∀ key, ¬ member.dialogue.Closing key) →
        ∀ key counter,
          (Pool.play schedule (hitsAtOnce tasks now)).state.table.find? key = some counter →
            counter.endsAt ≠ none) := by
  have hattended := Pool.attended_play (attended_hitsAtOnce tasks now) hrange
  exact ⟨hattended.owed, fun hnobody _ _ hfind => hattended.endsAt_ne_none hnobody hfind⟩

/-- Three tasks that hit one key. -/
def threeHits : List (String × Duration) :=
  [("k", .ofSecs 60), ("k", .ofSecs 60), ("k", .ofSecs 60)]

/-- Two tasks open a window, because the store is cleared between them. When the first one has set
the end of the second window, and this is over, the third task opens another window. -/
def crossed : List Move :=
  [.step 0, .clear, .step 1, .step 0, .advance (.ofSecs 60), .step 2]

/-- The same until all tasks are done. -/
def crossedToEnd : List Move := crossed ++ [.step 1, .step 2]

/-- The end of the last window is missing and owed; when all tasks are done, it is there. -/
theorem endless_only_while_owed_crossed :
    (Pool.play crossed (hitsAtOnce threeHits 0)).state.table.Endless "k" ∧
      (Pool.play crossed (hitsAtOnce threeHits 0)).Owed
        (Pool.log crossed (hitsAtOnce threeHits 0)) "k" ∧
      (Pool.play crossedToEnd (hitsAtOnce threeHits 0)).state.table.find? "k" =
        some ⟨1, some 120_000_000_000⟩ ∧
      some 120_000_000_000 ≠ none := by
  have hrange : ∀ called ∈ Pool.log crossedToEnd (hitsAtOnce threeHits 0),
      ∀ instant ∈ called.closesAt?, instant < clockEnd := by
    decide +kernel
  have hend : (Pool.play crossed (hitsAtOnce threeHits 0)).state.table.Endless "k" :=
    ⟨⟨1, none⟩, by decide +kernel, rfl⟩
  have howed := (endless_only_while_owed threeHits 0 crossed (by decide +kernel)).1 "k" hend
  have hdone : ∀ member ∈ (Pool.play crossedToEnd (hitsAtOnce threeHits 0)).members,
      member.result?.isSome := by
    decide +kernel
  have hfind : (Pool.play crossedToEnd (hitsAtOnce threeHits 0)).state.table.find? "k" =
      some ⟨1, some 120_000_000_000⟩ := by
    decide +kernel
  have hends := (endless_only_while_owed threeHits 0 crossedToEnd hrange).2
    (fun member hmem => Member.not_closing (hdone member hmem)) "k" _ hfind
  exact ⟨hend, howed, hfind, hends⟩

end Admission.Store

/-! ## Judgements at the same time -/

namespace Admission

open Store

theorem Engine.closesWindows_increment (engine : Engine) (key : String) (period : Duration) :
    (engine.increment key period).ClosesWindows := by
  have hplain := Dialogue.closesWindows_incrementAndExpire key period
  unfold increment
  cases engine.timeout with
  | none => exact hplain
  | some limit => exact hplain.within _ _

theorem Decision.closesWindows_evaluate (engine : Engine) (client path : String)
    (rules : List Rule) : (evaluate engine.increment client path rules).ClosesWindows := by
  induction rules with
  | nil => exact Dialogue.closesWindows_done _
  | cons rule rest ih =>
    rw [evaluate]
    refine Dialogue.ClosesWindows.bind (engine.closesWindows_increment _ _) fun counted => ?_
    cases counted with
    | error fault => exact Dialogue.closesWindows_done _
    | ok count =>
      simp only
      split
      · exact Dialogue.closesWindows_done _
      · exact ih

theorem Engine.closesWindows_judge (engine : Engine) (policy : Policy) (request : Request) :
    (engine.judge policy request).ClosesWindows := by
  unfold judge Policy.judge
  split
  · exact Dialogue.closesWindows_done _
  · split
    · exact Dialogue.closesWindows_done _
    · exact Decision.closesWindows_evaluate engine _ _ _

/-- **When all judgements are done, every window ends.** They may be led on a new store in any order
of their calls, while time passes and the store is purged and cleared. -/
theorem Engine.endsAt_ne_none_of_judged (calls : List (Engine × Policy × Request)) (now : Nat)
    {schedule : List Move}
    (hrange : ∀ called ∈ Pool.log schedule (atOnce calls ⟨now, .empty⟩),
      ∀ instant ∈ called.closesAt?, instant < clockEnd)
    (hdone : ∀ member ∈ (Pool.play schedule (atOnce calls ⟨now, .empty⟩)).members,
      member.result?.isSome)
    {key : String} {counter : Counter}
    (hfind : (Pool.play schedule (atOnce calls ⟨now, .empty⟩)).state.table.find? key =
      some counter) : counter.endsAt ≠ none := by
  have hstart : (atOnce calls ⟨now, .empty⟩).Attended [] := by
    refine Pool.attended_start (fun d hmem => ?_) not_endless_empty
    obtain ⟨⟨engine, policy, request⟩, -, rfl⟩ := List.mem_map.mp hmem
    exact engine.closesWindows_judge policy request
  exact (Pool.attended_play hstart hrange).endsAt_ne_none
    (fun member hmem => Member.not_closing (hdone member hmem)) hfind

end Admission
