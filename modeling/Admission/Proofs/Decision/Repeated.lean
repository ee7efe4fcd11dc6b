import Admission.Proofs.Decision.Persistence
/-!
# A request that is repeated

A request is judged again and again over a store in memory, by one policy, and all of this happens
while the windows of its counters are open. The place of an attempt in the row then decides about
it: `m` rules with one key count `m` hits in each attempt, so after `a` attempts the rule that is
the `r`-th of them sees `a * m + r` (`Exceeds`).

The counters follow this formula only until the first breach, because a breach keeps the rules after
it from counting, and later another rule may be the one that breaches. But the rule that breached
has used up its limit, and from then on no attempt gets past it. So one of two things holds before
every attempt (`Stands`), and either of them decides as the formula does (`Stands.next`).

* `Evaluates.denies_iff`: an evaluation denies if some rule breaches
* `Evaluates.countsHits`, `Evaluates.exists_usedUp`: what it leaves if it does not, and if it does
* `Evaluates.storedCount_le`: no count is lost by an evaluation within the windows
-/

namespace Admission

open Store

/-! ## Tables without a closed window -/

namespace Counters

/-- The windows of all counters of a table are open. -/
def AllOpen (table : Counters) (now : Nat) : Prop :=
  ∀ key counter, table.find? key = some counter → counter.isOver now = false

/-- The count that is stored for a key. -/
def storedCount (table : Counters) (key : String) : Nat :=
  ((table.find? key).map Counter.count).getD 0

variable {table : Counters} {now : Nat}

theorem allOpen_empty (now : Nat) : empty.AllOpen now := fun _ _ h => nomatch h

/-- **While all windows are open, what is stored is what is seen.** -/
theorem AllOpen.liveCount_eq (h : table.AllOpen now) (key : String) :
    table.liveCount now key = table.storedCount key := by
  unfold liveCount count? live? storedCount
  cases hfind : table.find? key with
  | none => rfl
  | some counter => simp [Option.filter_some, h key counter hfind]

end Counters

open Counters

namespace Store.Memory

variable {memory : Memory} {period : Duration} {time : Nat}

/-- **A hit leaves the windows open up to an instant**, if one that it opens reaches so far. -/
theorem allOpen_struck (key : String) (h : memory.table.AllOpen time)
    (htime : time < memory.now + period.nanos) :
    (memory.struck key period).table.AllOpen time := by
  intro other counter hfind
  by_cases ho : other = key
  · subst ho
    have hself := memory.find?_hit_self other period
    rw [show (memory.hit other period).find? other = some counter from hfind] at hself
    split at hself
    · obtain rfl := Option.some.inj hself
      exact Counter.isOver_deadline_of_lt _ htime
    · next hlive =>
      -- the window was open already and keeps its end
      cases hshown : memory.table.live? memory.now other with
      | none => exact absurd (by simp [liveCount, count?, hshown]) hlive
      | some old =>
        rw [hitOf_of_live hshown] at hself
        obtain rfl := Option.some.inj hself
        exact h other old (live?_eq_some_iff.mp hshown).1
  · rw [show (memory.struck key period).table.find? other = _ from find?_hit_of_ne memory ho]
      at hfind
    exact h other counter hfind

end Store.Memory

namespace Decision

variable {client path : String} {rules : List Rule} {memory after : Memory} {decision : Decision}
  {hits : List Operation}

namespace Evaluates

/-- **An evaluation denies the request exactly if some rule breaches.** -/
theorem denies_iff (h : Evaluates client path rules memory decision hits after) :
    decision.denies = true ↔
      ∃ place rule, Breaches client path (memory.table.liveCount memory.now) rules place rule := by
  induction h with
  | nil memory =>
    constructor
    · intro h
      cases h
    · rintro ⟨place, rule, hplace, -⟩
      cases hplace
  | @breach rule rest memory key hkey hlimit =>
    subst hkey
    refine ⟨fun _ => ⟨0, rule, ?_⟩, fun _ => rfl⟩
    rw [breaches_cons_zero]
    exact ⟨rfl, hlimit⟩
  | @pass first rest memory after key decision hits hkey hlimit hrest ih =>
    subst hkey
    have hlive := funext (CountsHits.hit memory (first.key.render client path)
      first.period_pos).live
    rw [ih]
    constructor
    · rintro ⟨place, rule, hbreach⟩
      refine ⟨place + 1, rule, ?_⟩
      rw [breaches_cons_succ, ← hlive]
      exact hbreach
    · rintro ⟨place, rule, hbreach⟩
      cases place with
      | zero => exact absurd ((breaches_cons_zero client path).mp hbreach).2 (by omega)
      | succ place =>
        rw [breaches_cons_succ, ← hlive] at hbreach
        exact ⟨place, rule, hbreach⟩

/-- An evaluation that lets the request through counts a hit for every rule. -/
theorem countsHits (h : Evaluates client path rules memory decision hits after)
    (hadmitted : decision.denies = false) : CountsHits memory after (keys client path rules) := by
  induction h with
  | nil memory => exact .refl memory
  | breach rest hkey hlimit => cases hadmitted
  | pass hkey hlimit hrest ih =>
    subst hkey
    exact (CountsHits.hit _ _ (Rule.period_pos _)).append (ih hadmitted)

/-- An evaluation leaves the windows open up to an instant that the periods of its rules reach. -/
theorem allOpen {time : Nat} (h : Evaluates client path rules memory decision hits after)
    (hopen : memory.table.AllOpen time)
    (htime : ∀ rule ∈ rules, time < memory.now + rule.period.nanos) :
    after.table.AllOpen time := by
  induction h with
  | nil memory => exact hopen
  | breach rest hkey hlimit => exact Memory.allOpen_struck _ hopen (htime _ (.head rest))
  | pass hkey hlimit hrest ih =>
    rw [List.forall_mem_cons] at htime
    exact ih (Memory.allOpen_struck _ hopen htime.1) htime.2

/-- The windows that are open at the instant of an evaluation are open after it. -/
theorem allOpen_now (h : Evaluates client path rules memory decision hits after)
    (hopen : memory.table.AllOpen memory.now) : after.table.AllOpen memory.now :=
  h.allOpen hopen fun rule _ => Nat.lt_add_of_pos_right rule.period_pos

/-- **An evaluation within the windows takes nothing from any count.** -/
theorem storedCount_le (h : Evaluates client path rules memory decision hits after)
    (hopen : memory.table.AllOpen memory.now) (key : String) :
    memory.table.storedCount key ≤ after.table.storedCount key := by
  have hstruck : ∀ {memory : Memory} {hit : String} {period : Duration}, 0 < period.nanos →
      memory.table.AllOpen memory.now →
      memory.table.storedCount key ≤ (memory.struck hit period).table.storedCount key := by
    intro memory hit period hp hopen
    have hstays := Memory.allOpen_struck hit hopen (Nat.lt_add_of_pos_right hp)
    rw [← hopen.liveCount_eq, ← hstays.liveCount_eq]
    exact memory.liveCount_hit hit key hp ▸ Nat.le_add_right _ _
  induction h with
  | nil memory => exact Nat.le_refl _
  | breach rest hkey hlimit => exact hstruck (Rule.period_pos _) hopen
  | @pass rule rest memory after hit decision hits hkey hlimit hrest ih =>
    have hstays := Memory.allOpen_struck hit hopen
      (Nat.lt_add_of_pos_right rule.period_pos)
    exact Nat.le_trans (hstruck rule.period_pos hopen) (ih hstays)

/-- An evaluation that denies the request leaves a rule whose limit is used up. -/
theorem exists_usedUp (h : Evaluates client path rules memory decision hits after)
    (hopen : memory.table.AllOpen memory.now) (hdenied : decision.denies = true) :
    ∃ rule ∈ rules, rule.limit.toNat ≤ after.table.storedCount (rule.key.render client path) := by
  induction h with
  | nil memory => cases hdenied
  | @breach rule rest memory key hkey hlimit =>
    subst hkey
    refine ⟨rule, .head rest, ?_⟩
    have hcount := memory.liveCount_hit (rule.key.render client path)
      (rule.key.render client path) rule.period_pos
    rw [if_pos rfl] at hcount
    have hstays := Memory.allOpen_struck (rule.key.render client path) hopen
      (Nat.lt_add_of_pos_right rule.period_pos)
    rw [← hstays.liveCount_eq]
    exact Nat.le_of_lt (Nat.lt_of_lt_of_eq hlimit hcount.symm)
  | @pass rule rest memory after key decision hits hkey hlimit hrest ih =>
    obtain ⟨breaker, hbreaker, hused⟩ :=
      ih (Memory.allOpen_struck _ hopen (Nat.lt_add_of_pos_right rule.period_pos)) hdenied
    exact ⟨breaker, .tail rule hbreaker, hused⟩

end Evaluates

end Decision

namespace Engine.Judges

variable {engine : Engine} {policy : Policy} {request : Request} {memory after : Memory}
  {decision : Decision} {hits : List Operation}

/-- A client on the safelist is told so. -/
theorem eq_safelisted (h : Judges engine policy request memory decision hits after)
    (hs : policy.access.isSafelisted (engine.client request) = true) : decision = .safelisted := by
  cases h with
  | safelisted _ => rfl
  | blocked hs' _ => exact absurd (hs'.symm.trans hs) Bool.false_ne_true
  | unlisted hs' _ _ => exact absurd (hs'.symm.trans hs) Bool.false_ne_true

/-- A denied client that is not on the safelist is told so. -/
theorem eq_blocked (h : Judges engine policy request memory decision hits after)
    (hs : policy.access.isSafelisted (engine.client request) = false)
    (hb : policy.access.isBlocked (engine.client request) = true) : decision = .blocked := by
  cases h with
  | safelisted hs' => exact absurd (hs.symm.trans hs') Bool.false_ne_true
  | blocked _ _ => rfl
  | unlisted _ hb' _ => exact absurd (hb'.symm.trans hb) Bool.false_ne_true

/-- A client on no list is judged by the rules that apply. -/
theorem evaluates_of_unlisted (h : Judges engine policy request memory decision hits after)
    (hs : policy.access.isSafelisted (engine.client request) = false)
    (hb : policy.access.isBlocked (engine.client request) = false) :
    Decision.Evaluates (engine.client request) request.path
      (policy.matching request.path request.method) memory decision hits after := by
  cases h with
  | safelisted hs' => exact absurd (hs.symm.trans hs') Bool.false_ne_true
  | blocked _ hb' => exact absurd (hb.symm.trans hb') Bool.false_ne_true
  | unlisted _ _ h => exact h

end Engine.Judges

namespace Decision

variable {client path : String} {rules : List Rule} {memory after : Memory} {decision : Decision}
  {hits : List Operation}

/-! ## The place of an attempt -/

/-- The attempt after so many others exceeds the limit of a rule, if each of them counted a hit for
every rule: the rule sees the hits of its key in all of them, and in this attempt those of the rules
up to itself. -/
def Exceeds (client path : String) (rules : List Rule) (earlier : Nat) : Prop :=
  ∃ (place : Nat) (rule : Rule), rules[place]? = some rule ∧
    rule.limit.toNat <
      earlier * (keys client path rules).count (rule.key.render client path) +
        (keys client path (rules.take (place + 1))).count (rule.key.render client path)

/-- **What exceeds a limit goes on to exceed it.** -/
theorem Exceeds.mono {earlier later : Nat} (h : Exceeds client path rules earlier)
    (hle : earlier ≤ later) : Exceeds client path rules later := by
  obtain ⟨place, rule, hplace, hlimit⟩ := h
  have hmore := Nat.mul_le_mul_right
    ((keys client path rules).count (rule.key.render client path)) hle
  exact ⟨place, rule, hplace, by omega⟩

/-- What attempts have left in a table. -/
inductive Stands (client path : String) (rules : List Rule) (earlier : Nat) (table : Counters) :
    Prop where
  /-- None of them exceeded a limit, and each counted a hit for every rule. -/
  | counting (hnone : ∀ e < earlier, ¬ Exceeds client path rules e)
      (hcount : ∀ key, table.storedCount key = earlier * (keys client path rules).count key)
  /-- One of them exceeded a limit, and the limit of some rule is used up. -/
  | usedUp {e : Nat} (he : e < earlier) (hexceeds : Exceeds client path rules e) {rule : Rule}
      (hrule : rule ∈ rules)
      (hused : rule.limit.toNat ≤ table.storedCount (rule.key.render client path))

theorem Stands.empty (client path : String) (rules : List Rule) :
    Stands client path rules 0 .empty :=
  .counting (fun _ h => nomatch h) fun _ => (Nat.zero_mul _).symm

/-- **The next attempt is denied exactly if it exceeds a limit**, and it leaves the table as
attempts do. -/
theorem Stands.next {earlier : Nat} (hstands : Stands client path rules earlier memory.table)
    (hopen : memory.table.AllOpen memory.now)
    (h : Evaluates client path rules memory decision hits after) :
    (decision.denies = true ↔ Exceeds client path rules earlier) ∧
      Stands client path rules (earlier + 1) after.table := by
  have hstays := h.allOpen_now hopen
  cases hstands with
  | counting hnone hcount =>
    have hlive : memory.table.liveCount memory.now =
        fun key => earlier * (keys client path rules).count key :=
      funext fun key => (hopen.liveCount_eq key).trans (hcount key)
    have hdenies : decision.denies = true ↔ Exceeds client path rules earlier := by
      rw [h.denies_iff, hlive]
      exact Iff.rfl
    refine ⟨hdenies, ?_⟩
    cases hdecision : decision.denies with
    | false =>
      have hadmitted : ¬ Exceeds client path rules earlier := by
        rw [← hdenies, hdecision]
        exact Bool.false_ne_true
      refine .counting (fun e he => ?_) fun key => ?_
      · rcases Nat.lt_succ_iff_lt_or_eq.mp he with hlt | rfl
        · exact hnone e hlt
        · exact hadmitted
      · have hcounts := h.countsHits hdecision
        have hhits := hcounts.live key
        rw [hcounts.now, hstays.liveCount_eq, hlive] at hhits
        rw [hhits, Nat.succ_mul]
    | true =>
      obtain ⟨rule, hrule, hused⟩ := h.exists_usedUp hopen hdecision
      exact .usedUp (Nat.lt_succ_self earlier) (hdenies.mp hdecision) hrule hused
  | @usedUp e he hexceeds rule hrule hused =>
    have hdenied : decision.denies = true :=
      h.denies_of_mem hrule (by rwa [hopen.liveCount_eq])
    refine ⟨⟨fun _ => hexceeds.mono (Nat.le_of_lt he), fun _ => hdenied⟩, ?_⟩
    exact .usedUp (Nat.lt_succ_of_lt he) hexceeds hrule
      (Nat.le_trans hused (h.storedCount_le hopen _))

end Decision

end Admission
