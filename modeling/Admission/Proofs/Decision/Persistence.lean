import Admission.Proofs.Access.History
import Admission.Proofs.Decision.Traffic
/-!
# Persistent throttling

A request that was throttled is denied again until the window of the key ends, and no longer. What
happens in between is any traffic: requests that are judged by other policies, requests on the same
key, purges. The policy of the request may be changed in the meantime in every way but one, that its
client is safelisted.

1. `rules_prefix_changed`, `isSafelisted_changed_iff`: what changes do to a policy
2. `Continues`: what is seen of a key from an instant on is a window that has grown out of a counter
3. `Continues.hit`, `Continues.perform`, `Continues.play`: hits before the end of the window and all
   events on other keys keep it so
4. `Evaluates.exists_window`, `Evaluates.denies_of_mem`: a rule that throttles has such a window,
   and a rule that finds its limit used up lets no evaluation through
5. `continues_play`, `continues_run`: a run keeps the window going up to its end
6. `denies_of_repeats`, `denied_until_end`: hence what becomes of the request and of the key

Another rule may be the one that breaches when the request is repeated, so step 4 says that the
request is denied and not by which rule.
-/

namespace Admission

open Store

/-! ## Changes of a policy -/

namespace Policy

/-- A change of a policy. -/
inductive Change where
  | access (addition : AccessList.Addition)
  | rule (rule : Rule)
  deriving DecidableEq

/-- The policy after a change; a range that is refused changes nothing. -/
def change (policy : Policy) : Change → Policy
  | .access (.safelist ip) => policy.addSafelist ip
  | .access (.blocklist ip) => policy.addBlocklist ip
  | .access (.range cidr) =>
    match policy.addRange cidr with
    | .ok changed => changed
    | .error _ => policy
  | .rule rule => policy.addRule rule

/-- The policy after changes, one after another. -/
def changed (policy : Policy) (changes : List Change) : Policy := changes.foldl change policy

/-- An addition to the access list touches nothing else. -/
theorem change_access (policy : Policy) (addition : AccessList.Addition) :
    policy.change (.access addition) = { policy with access := policy.access.add addition } := by
  cases addition with
  | safelist ip => rfl
  | blocklist ip => rfl
  | range cidr =>
    cases h : Network.ofString? cidr with
    | none => simp [change, addRange, AccessList.add, AccessList.addRange, h, Except.map]
    | some network => simp [change, addRange, AccessList.add, AccessList.addRange, h, Except.map]

/-- Changes leave the rules where they are and may add some after them. -/
theorem rules_prefix_changed (policy : Policy) (changes : List Change) :
    policy.rules <+: (policy.changed changes).rules := by
  induction changes generalizing policy with
  | nil => exact List.prefix_rfl
  | cons first rest ih =>
    refine List.IsPrefix.trans ?_ (ih (policy.change first))
    cases first with
    | access addition =>
      have hrules := congrArg Policy.rules (policy.change_access addition)
      exact ⟨[], by rw [List.append_nil, hrules]⟩
    | rule rule => exact List.prefix_append _ _

/-- A client is on the safelist after changes if it was before or one of them put it there. -/
theorem isSafelisted_changed_iff (policy : Policy) (changes : List Change) (ip : String) :
    (policy.changed changes).access.isSafelisted ip = true ↔
      policy.access.isSafelisted ip = true ∨ .access (.safelist ip) ∈ changes := by
  induction changes generalizing policy with
  | nil => simp [changed]
  | cons first rest ih =>
    have hrest : (policy.changed (first :: rest)).access.isSafelisted ip = true ↔
        (policy.change first).access.isSafelisted ip = true ∨ .access (.safelist ip) ∈ rest :=
      ih (policy.change first)
    have hfirst : (policy.change first).access.isSafelisted ip = true ↔
        policy.access.isSafelisted ip = true ∨ .access (.safelist ip) = first := by
      cases first with
      | access addition =>
        rw [change_access, AccessList.isSafelisted_add, Change.access.injEq, or_comm,
          eq_comm (a := addition)]
      | rule rule => simp [change, addRule]
    rw [hrest, hfirst, List.mem_cons, or_assoc]

theorem mem_matching_changed {policy : Policy} {rule : Rule} {path method : String}
    (h : rule ∈ policy.matching path method) (changes : List Change) :
    rule ∈ (policy.changed changes).matching path method := by
  rw [mem_matching] at h ⊢
  exact ⟨(policy.rules_prefix_changed changes).subset h.1, h.2⟩

end Policy

/-! ## A window that goes on -/

theorem Counter.isOver_congr {a b : Counter} (h : a.endsAt = b.endsAt) (now : Nat) :
    a.isOver now = b.isOver now := by
  unfold isOver
  rw [h]

namespace Counters

/-- What is seen of the key from now on is a window that has grown out of the counter. -/
def Continues (table : Counters) (now : Nat) (key : String) (counter : Counter) : Prop :=
  ∃ grown : Counter, grown.endsAt = counter.endsAt ∧ counter.count ≤ grown.count ∧
    ∀ later, now ≤ later → table.live? later key = (some grown).filter fun c => !c.isOver later

namespace Continues

variable {table table' : Counters} {now next : Nat} {key : String} {counter : Counter}

theorem congr (h : Continues table now key counter) (hle : now ≤ next)
    (hlive : ∀ time, next ≤ time → table'.live? time key = table.live? time key) :
    Continues table' next key counter := by
  obtain ⟨grown, hends, hcount, hshown⟩ := h
  refine ⟨grown, hends, hcount, fun time hlater => ?_⟩
  rw [hlive time hlater, hshown time (Nat.le_trans hle hlater)]

theorem later (h : Continues table now key counter) (hle : now ≤ next) :
    Continues table next key counter :=
  h.congr hle fun _ _ => rfl

/-- Until its end the window is stored with the end that it has. -/
theorem exists_live? (h : Continues table now key counter) (hopen : counter.isOver now = false) :
    ∃ grown, table.live? now key = some grown ∧ grown.endsAt = counter.endsAt ∧
      counter.count ≤ grown.count := by
  obtain ⟨grown, hends, hcount, hshown⟩ := h
  refine ⟨grown, ?_, hends, hcount⟩
  rw [hshown now (Nat.le_refl now), Option.filter_some, Counter.isOver_congr hends, hopen]
  rfl

/-- From its end on nothing is seen of it. -/
theorem live?_eq_none (h : Continues table now key counter) (hover : counter.isOver now = true) :
    table.live? now key = none := by
  obtain ⟨grown, hends, -, hshown⟩ := h
  rw [hshown now (Nat.le_refl now), Option.filter_some, Counter.isOver_congr hends, hover]
  rfl

theorem count_le_liveCount (h : Continues table now key counter)
    (hopen : counter.isOver now = false) : counter.count ≤ table.liveCount now key := by
  obtain ⟨grown, hlive, -, hcount⟩ := h.exists_live? hopen
  rw [liveCount, count?, hlive]
  exact hcount

/-- **A hit before the end of the window grows it and leaves its end.** -/
theorem hit (h : Continues table now key counter) (hpos : 0 < counter.count)
    (hopen : counter.isOver now = false) (period : Duration) :
    Continues ((Memory.mk now table).hit key period) now key counter := by
  obtain ⟨grown, hlive, hends, hcount⟩ := h.exists_live? hopen
  refine ⟨grown.succ, hends, Nat.le_succ_of_le hcount, fun time _ => ?_⟩
  exact Memory.live?_hit_of_live ⟨now, table⟩ hlive (Nat.lt_of_lt_of_le hpos hcount)

/-- **An event keeps the window going**, unless it clears the store or hits the key too late. -/
theorem perform {memory : Memory} {event : Event}
    (h : Continues memory.table memory.now key counter) (hpos : 0 < counter.count)
    (hle : memory.now ≤ event.time) (hclear : event.operation ≠ .clear)
    (hbefore : event.operation.counts key = true → counter.isOver event.time = false) :
    Continues (event.perform memory).2.table (event.perform memory).2.now key counter := by
  rw [now_perform]
  obtain ⟨time, operation⟩ := event
  cases operation with
  | hit other period =>
    have hperform : (Event.mk time (.hit other period)).perform memory = _ :=
      perform_hit time memory.table other period
    rw [hperform]
    by_cases hkey : other = key
    · subst hkey
      exact (h.later hle).hit hpos (hbefore (by simp [Operation.counts])) period
    · exact h.congr hle fun _ _ => Memory.live?_hit_of_ne _ (Ne.symm hkey)
  | purge => exact h.congr hle fun _ hlater => live?_purge hlater
  | clear => exact absurd rfl hclear

theorem play {memory : Memory} {events : List Event}
    (h : Continues memory.table memory.now key counter) (hpos : 0 < counter.count)
    (hordered : events.Pairwise (·.time ≤ ·.time))
    (hafter : ∀ event ∈ events, memory.now ≤ event.time)
    (hclear : ∀ event ∈ events, event.operation ≠ .clear)
    (hbefore : ∀ event ∈ events, event.operation.counts key = true →
      counter.isOver event.time = false)
    (hle : memory.now ≤ now) (hnow : ∀ event ∈ events, event.time ≤ now) :
    Continues (Store.play events memory).2.table now key counter := by
  induction events generalizing memory with
  | nil => exact h.later hle
  | cons event rest ih =>
    obtain ⟨hrest, hordered⟩ := List.pairwise_cons.mp hordered
    rw [List.forall_mem_cons] at hafter hclear hbefore hnow
    have hstep := h.perform hpos hafter.1 hclear.1 hbefore.1
    have hclock : (event.perform memory).2.now = event.time := now_perform event memory
    have hlater : ∀ e ∈ rest, (event.perform memory).2.now ≤ e.time := fun e he => by
      rw [hclock]
      exact hrest e he
    have hreach : (event.perform memory).2.now ≤ now := by
      rw [hclock]
      exact hnow.1
    exact ih hstep hordered hlater hclear.2 hbefore.2 hreach hnow.2

end Continues

end Counters

open Counters

/-! ## Evaluations -/

namespace Decision.Evaluates

variable {client path : String} {rules : List Rule} {memory after : Memory} {decision : Decision}
  {hits : List Operation} {rule : Rule}

/-- A rule that throttles leaves an open window that has counted more than its limit. -/
theorem exists_window {key : String} {count : Nat}
    (h : Evaluates client path rules memory (.throttled rule key count) hits after) :
    rule ∈ rules ∧ rule.key.render client path = key ∧ after.now = memory.now ∧
      ∃ counter, after.table.find? key = some counter ∧ rule.limit.toNat < counter.count ∧
        counter.isOver memory.now = false ∧
        Continues after.table memory.now key counter := by
  generalize hthrottled : Decision.throttled rule key count = decision at h
  induction h with
  | nil memory => cases hthrottled
  | @breach first rest memory other hkey hlimit =>
    cases hthrottled
    refine ⟨List.mem_cons_self, hkey, rfl, ?_⟩
    have hpos := rule.limit_pos
    cases hlive : memory.table.live? memory.now key with
    | none =>
      simp only [liveCount, count?, hlive, Option.map_none, Option.getD_none] at hlimit
      omega
    | some counter =>
      have hcount : memory.table.liveCount memory.now key = counter.count := by
        simp [liveCount, count?, hlive]
      rw [hcount] at hlimit
      have hcounted : 0 < counter.count := by omega
      refine ⟨counter.succ, Memory.find?_hit_of_live memory hlive hcounted, hlimit,
        (live?_eq_some_iff.mp hlive).2, counter.succ, rfl, Nat.le_refl _, fun time _ => ?_⟩
      exact Memory.live?_hit_of_live memory hlive hcounted
  | @pass first rest memory after other decision hits hkey hlimit hrest ih =>
    obtain ⟨hmem, hrender, hnow, hwindow⟩ := ih hthrottled
    exact ⟨List.mem_cons_of_mem _ hmem, hrender, hnow, hwindow⟩

/-- **An evaluation with a rule whose limit is used up denies the request.** -/
theorem denies_of_mem (h : Evaluates client path rules memory decision hits after)
    (hrule : rule ∈ rules)
    (hused : rule.limit.toNat ≤
      memory.table.liveCount memory.now (rule.key.render client path)) :
    decision.denies = true := by
  induction h with
  | nil memory => cases hrule
  | breach rest hkey hlimit => rfl
  | @pass first rest memory after other decision hits hkey hlimit hrest ih =>
    rcases List.mem_cons.mp hrule with rfl | hmem
    · rw [hkey] at hused
      omega
    · refine ih hmem (Nat.le_trans hused ?_)
      -- the hit of the first rule takes nothing from any count
      have hhit := Memory.liveCount_hit memory other (rule.key.render client path)
        first.period_pos
      exact hhit ▸ Nat.le_add_right _ _

end Decision.Evaluates

theorem Engine.Judges.denies_of_mem {engine : Engine} {policy : Policy} {request : Request}
    {memory after : Memory} {decision : Decision} {hits : List Operation} {rule : Rule}
    (h : Judges engine policy request memory decision hits after)
    (hs : policy.access.isSafelisted (engine.client request) = false)
    (hrule : rule ∈ policy.matching request.path request.method)
    (hused : rule.limit.toNat ≤ memory.table.liveCount memory.now
      (rule.key.render (engine.client request) request.path)) :
    decision.denies = true := by
  cases h with
  | safelisted hs' =>
    rw [hs] at hs'
    cases hs'
  | blocked _ _ => rfl
  | unlisted _ _ h => exact h.denies_of_mem hrule hused

/-! ## Repetitions of a throttled request -/

namespace Traffic

/--
A step judges a request again: one of the same client, for the same path and method. The policy may
have been changed, but the client was not safelisted.
-/
def Repeats (engine : Engine) (policy : Policy) (request : Request) (again : Step) : Prop :=
  ∃ engine' changes request', again.action = .judge engine' (policy.changed changes) request' ∧
    .access (.safelist (engine.client request)) ∉ changes ∧
    engine'.client request' = engine.client request ∧
    request'.path = request.path ∧ request'.method = request.method

variable {first again : Step} {steps : List Step} {engine : Engine} {policy : Policy}
  {request : Request} {rule : Rule} {key : String} {count : Nat} {counter : Counter}
  {table : Counters}

theorem exists_window_of_perform (haction : first.action = .judge engine policy request)
    (h : (first.perform table).1 = some (.ok (.throttled rule key count))) :
    policy.access.isSafelisted (engine.client request) = false ∧
      rule ∈ policy.matching request.path request.method ∧
      rule.key.render (engine.client request) request.path = key ∧
      ∃ counter, (first.perform table).2.find? key = some counter ∧
        rule.limit.toNat < counter.count ∧ counter.isOver first.time = false ∧
        Continues (first.perform table).2 first.time key counter := by
  obtain ⟨decision, hits, after, hjudges⟩ :=
    Engine.Judges.exists_judges engine policy request ⟨first.time, table⟩
  rw [Step.perform_of_judges haction hjudges] at h ⊢
  obtain rfl := Except.ok.inj (Option.some.inj h)
  cases hjudges with
  | unlisted hs hb hevaluates =>
    obtain ⟨hrule, hkey, -, hwindow⟩ := hevaluates.exists_window
    exact ⟨hs, hrule, hkey, hwindow⟩

/-- What a run does up to some event, and does not clear, keeps the window going. -/
theorem continues_play {after : Counters} {start now : Nat} {events rest : List Event}
    (h : Continues after start key counter) (hpos : 0 < counter.count)
    (hordered : steps.Pairwise (·.time ≤ ·.time)) (hafter : ∀ step ∈ steps, start ≤ step.time)
    (hsplit : history steps after = events ++ rest) (hle : start ≤ now)
    (hnow : ∀ event ∈ events, event.time ≤ now)
    (hbefore : ∀ event ∈ events, event.operation.counts key = true →
      counter.isOver event.time = false) :
    Continues (play events ⟨start, after⟩).2.table now key counter := by
  have hmem : ∀ event ∈ events, event ∈ history steps after := fun event he =>
    hsplit ▸ List.mem_append_left rest he
  have htimes : events.Pairwise (·.time ≤ ·.time) :=
    (List.pairwise_append.mp (hsplit ▸ pairwise_history hordered after)).1
  have hlater : ∀ event ∈ events, start ≤ event.time := by
    intro event he
    obtain ⟨step, hstep, htime⟩ := exists_step_of_mem_history (hmem event he)
    rw [htime]
    exact hafter step hstep
  have hclear : ∀ event ∈ events, event.operation ≠ .clear := fun event he =>
    ne_clear_of_mem_history (hmem event he)
  have hstart : Continues (Memory.mk start after).table (Memory.mk start after).now key counter := h
  exact hstart.play hpos htimes hlater hclear hbefore hle hnow

theorem continues_run {after : Counters} {start now : Nat}
    (h : Continues after start key counter) (hpos : 0 < counter.count)
    (hordered : steps.Pairwise (·.time ≤ ·.time)) (hafter : ∀ step ∈ steps, start ≤ step.time)
    (hle : start ≤ now) (hnow : ∀ step ∈ steps, step.time ≤ now)
    (hopen : counter.isOver now = false) :
    Continues (run steps after).2 now key counter := by
  have htimes : ∀ event ∈ history steps after, event.time ≤ now := by
    intro event he
    obtain ⟨step, hstep, htime⟩ := exists_step_of_mem_history he
    rw [htime]
    exact hnow step hstep
  have hall : history steps after = history steps after ++ [] := (List.append_nil _).symm
  have hplay := continues_play h hpos hordered hafter hall hle htimes fun event he _ =>
    Counter.isOver_eq_false_of_le (htimes event he) hopen
  rwa [play_history steps ⟨start, after⟩] at hplay

/-- A request is denied when it is repeated before the end of the window. -/
theorem denies_of_repeats (hrepeats : Repeats engine policy request again)
    (hs : policy.access.isSafelisted (engine.client request) = false)
    (hrule : rule ∈ policy.matching request.path request.method)
    (hkey : rule.key.render (engine.client request) request.path = key)
    (hcontinues : Continues table again.time key counter)
    (hopen : counter.isOver again.time = false) (hused : rule.limit.toNat < counter.count) :
    ∃ decision, (again.perform table).1 = some (.ok decision) ∧ decision.denies = true := by
  obtain ⟨engine', changes, request', haction, hunlisted, hclient, hpath, hmethod⟩ := hrepeats
  obtain ⟨decision, hits, after, hjudges⟩ := Engine.Judges.exists_judges engine'
    (policy.changed changes) request' ⟨again.time, table⟩
  refine ⟨decision, by rw [Step.perform_of_judges haction hjudges], ?_⟩
  have hs' : (policy.changed changes).access.isSafelisted (engine'.client request') = false := by
    rw [hclient, Bool.eq_false_iff]
    intro hlisted
    rcases (policy.isSafelisted_changed_iff changes _).mp hlisted with hbefore | hadded
    · rw [hs] at hbefore
      cases hbefore
    · exact hunlisted hadded
  have hrule' : rule ∈ (policy.changed changes).matching request'.path request'.method := by
    rw [hpath, hmethod]
    exact Policy.mem_matching_changed hrule changes
  refine hjudges.denies_of_mem hs' hrule' ?_
  rw [hclient, hpath, hkey]
  exact Nat.le_trans (Nat.le_of_lt hused) (hcontinues.count_le_liveCount hopen)

/--
**Throttling lasts to the end of the window, and no longer.** Suppose that a request is throttled
on a key. Its window then has some end, or none, and is open. Let any steps follow in the order of
time, by whatever engines and policies.

* Up to the end of the window the stored counter keeps this end.
* Every repetition of the request before the end is denied, if the policy has only been changed in
  ways that do not safelist the client.
* The first hit on the key from the end on is told 1.
-/
theorem denied_until_end (haction : first.action = .judge engine policy request)
    (h : (first.perform table).1 = some (.ok (.throttled rule key count))) :
    ∃ counter, (first.perform table).2.find? key = some counter ∧
      counter.isOver first.time = false ∧
      ∀ steps, (first :: steps).Pairwise (·.time ≤ ·.time) →
        (∀ now, (∀ step ∈ first :: steps, step.time ≤ now) → counter.isOver now = false →
          ∃ grown, (run steps (first.perform table).2).2.find? key = some grown ∧
            grown.endsAt = counter.endsAt) ∧
        (∀ again, (∀ step ∈ first :: steps, step.time ≤ again.time) →
          Repeats engine policy request again → counter.isOver again.time = false →
          ∃ decision,
            (again.perform (run steps (first.perform table).2).2).1 = some (.ok decision) ∧
            decision.denies = true) ∧
        (∀ earlier time period rest,
          history steps (first.perform table).2 = earlier ++ ⟨time, .hit key period⟩ :: rest →
          counter.isOver time = true →
          (∀ event ∈ earlier, event.operation.counts key = true →
            counter.isOver event.time = false) →
          ((Event.mk time (.hit key period)).perform
            (play earlier ⟨first.time, (first.perform table).2⟩).2).1 = some (.ok 1)) := by
  obtain ⟨hs, hrule, hkey, counter, hfind, hused, hopen, hstart⟩ :=
    exists_window_of_perform haction h
  have hpos : 0 < counter.count := Nat.zero_lt_of_lt hused
  refine ⟨counter, hfind, hopen, fun steps htimes => ?_⟩
  obtain ⟨hafter, hordered⟩ := List.pairwise_cons.mp htimes
  have hrun : ∀ now, (∀ step ∈ first :: steps, step.time ≤ now) → counter.isOver now = false →
      Continues (run steps (first.perform table).2).2 now key counter := by
    intro now hnow hopen
    obtain ⟨hfirst, hsteps⟩ := List.forall_mem_cons.mp hnow
    exact continues_run hstart hpos hordered hafter hfirst hsteps hopen
  refine ⟨fun now hnow hopen => ?_, fun again hlast hrepeats hopen => ?_,
    fun earlier time period rest hsplit hover hbefore => ?_⟩
  · obtain ⟨grown, hlive, hends, -⟩ := (hrun now hnow hopen).exists_live? hopen
    exact ⟨grown, (live?_eq_some_iff.mp hlive).1, hends⟩
  · exact denies_of_repeats hrepeats hs hrule hkey (hrun again.time hlast hopen) hopen hused
  · have hlast : ∀ event ∈ earlier, event.time ≤ time := by
      have hpairs := pairwise_history hordered (first.perform table).2
      rw [hsplit] at hpairs
      exact fun event he =>
        (List.pairwise_append.mp hpairs).2.2 event he _ List.mem_cons_self
    have hlate : first.time ≤ time := by
      have hmem : ⟨time, .hit key period⟩ ∈ history steps (first.perform table).2 := by
        rw [hsplit]
        exact List.mem_append_right _ List.mem_cons_self
      obtain ⟨step, hstep, rfl⟩ := exists_step_of_mem_history hmem
      exact hafter step hstep
    have hplay := continues_play hstart hpos hordered hafter hsplit hlate hlast hbefore
    have hperform := perform_hit time (play earlier ⟨first.time, (first.perform table).2⟩).2.table
      key period
    rw [hitOf_of_not_live (hplay.live?_eq_none hover)] at hperform
    exact congrArg Prod.fst hperform

/-- The table after two requests of a window that ends at 60 s. -/
def usedUp : Counters :=
  (run [visit minutePolicy 0 start_lt_clockEnd, visit minutePolicy 30_000 (by decide)] .empty).2

/-- The request that comes too often. -/
def tooMany : Step := visit minutePolicy 40_000 (by decide)

/-- More of the same, with a purge just before the end of the window. -/
def insisting : List Step :=
  [visit minutePolicy 50_000 (by decide), ⟨59_000_000_000, .purge, by decide⟩]

/-- The same request when the window is nearly over and the policy has grown. -/
def lastTry : Step :=
  visit (minutePolicy.changed [.rule twiceAMinute, .access (.blocklist "10.0.0.1")]) 59_950 (by decide)

/-- The request is denied up to the last moment of the window and counts as the first one then. -/
theorem denied_until_end_of_a_minute :
    (tooMany.perform usedUp).1 = some (.ok (.throttled twiceAMinute "shared" 3)) ∧
      (∃ decision, (lastTry.perform (run insisting (tooMany.perform usedUp).2).2).1 =
        some (.ok decision) ∧ decision.denies = true) ∧
      ((Event.mk 60_000_000_000 (.hit "shared" twiceAMinute.period)).perform
        (play (history insisting (tooMany.perform usedUp).2)
          ⟨tooMany.time, (tooMany.perform usedUp).2⟩).2).1 = some (.ok 1) := by
  have hthrottled : (tooMany.perform usedUp).1 =
      some (.ok (.throttled twiceAMinute "shared" 3)) := by
    decide +kernel
  have hend : (tooMany.perform usedUp).2.find? "shared" = some ⟨3, some 60_000_000_000⟩ := by
    decide +kernel
  obtain ⟨counter, hfind, -, hlater⟩ := denied_until_end rfl hthrottled
  obtain rfl := Option.some.inj (hend.symm.trans hfind)
  refine ⟨hthrottled, ?_, ?_⟩
  · refine (hlater insisting (by decide)).2.1 lastTry (by decide) ?_ (by decide)
    exact ⟨_, _, _, rfl, by decide, rfl, rfl, rfl⟩
  · refine (hlater (insisting ++ [visit minutePolicy 60_000 minute_lt_clockEnd]) (by decide)).2.2 _ _ _ []
      ?_ (by decide) ?_
    · rw [history_append]
      decide +kernel
    · decide +kernel

end Traffic

end Admission
