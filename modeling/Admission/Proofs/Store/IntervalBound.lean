import Admission.Proofs.Store.FixedWindow
/-!
# Low counts in an interval

How many hits on a key are told a count up to a limit, within an interval as long as the period of
the key? A window starts at a first hit, not at a fixed instant, so an interval may meet two
windows. It never meets three, since a window that opens within the interval outlasts it. Where it
meets two, the first hit of the earlier one lies before the interval.

1. `Accounted`: what the counter of the key says about the number of low counts so far
2. `Accounted.later`, `Accounted.hit`, `Accounted.perform`: time and each event keep the account
3. `Accounted.play`, `lowHits_lt`: hence there are fewer than twice the limit
-/

namespace Admission.Store

section

variable (key : String) (limit start : Nat) (period : Duration)

/-- A hit on the key within the interval from `start` on that was told a count up to the limit. -/
def isLow : Event × Option Reply → Bool
  | (event, some (.ok count)) =>
    event.operation.counts key && decide (start ≤ event.time ∧ event.time < start + period.nanos ∧
      count ≤ limit)
  | _ => false

/-- The number of such hits among events that take place on a store. -/
def lowHits (events : List Event) (memory : Memory) : Nat :=
  (events.zip (play events memory).1).countP (isLow key limit start period)

theorem lowHits_cons (event : Event) (rest : List Event) (memory : Memory) :
    lowHits key limit start period (event :: rest) memory =
      lowHits key limit start period [event] memory +
        lowHits key limit start period rest (event.perform memory).2 := by
  simp only [lowHits, play, List.zip_cons_cons, List.zip_nil_right, List.countP_cons,
    List.countP_nil]
  omega

theorem lowHits_append (before after : List Event) (memory : Memory) :
    lowHits key limit start period (before ++ after) memory =
      lowHits key limit start period before memory +
        lowHits key limit start period after (play before memory).2 := by
  unfold lowHits
  rw [play_append, List.zip_append (length_play before memory).symm, List.countP_append]

/-- How many low counts there can have been when the store is in a state. -/
inductive Accounted (n : Nat) (memory : Memory) : Prop where
  /-- No window of the key was opened within the interval. -/
  | before (hlimit : n < limit)
      (hlive : ∀ counter, memory.table.live? memory.now key = some counter → n < counter.count)
      (hearly : memory.now < start → n = 0)
  /-- A window was opened within the interval, and lasts to the end of it at least. -/
  | within (counter : Counter)
      (hlive : ∀ later, memory.now ≤ later → later < start + period.nanos →
        memory.table.live? later key = some counter)
      (hpos : 0 < counter.count) (hlimit : n < limit + min counter.count limit)
  /-- The interval is over. -/
  | past (hpast : start + period.nanos ≤ memory.now) (hlimit : n < 2 * limit)

end

variable {key : String} {limit start n : Nat} {period : Duration} {memory : Memory}

theorem lowHits_hit (other : Duration) (memory : Memory) :
    lowHits key limit start period [⟨memory.now, .hit key other⟩] memory =
      if start ≤ memory.now ∧ memory.now < start + period.nanos ∧
        (memory.table.hitOf memory.now key).count ≤ limit then 1 else 0 := by
  simp only [lowHits, play]
  rw [show memory = ⟨memory.now, memory.table⟩ from rfl, perform_hit]
  simp [isLow, Operation.counts, List.countP_cons]

theorem lowHits_congr {a b : Memory} (h : a.table = b.table) (events : List Event) :
    lowHits key limit start period events a = lowHits key limit start period events b := by
  unfold lowHits
  rw [(play_congr h events).1]

namespace Accounted

theorem lt (h : Accounted key limit start period n memory) : n < 2 * limit := by
  cases h with
  | before hlimit _ _ => omega
  | within counter _ _ hlimit => omega
  | past _ hlimit => exact hlimit

/-- The account lasts while what is seen of the key is what was to be seen. -/
theorem congr (h : Accounted key limit start period n memory) {memory' : Memory}
    (hle : memory.now ≤ memory'.now)
    (hlive' : ∀ later, memory'.now ≤ later →
      memory'.table.live? later key = memory.table.live? later key) :
    Accounted key limit start period n memory' := by
  cases h with
  | before hlimit hlive hearly =>
    refine .before hlimit (fun counter hcounter => ?_) fun hlt => hearly (by omega)
    rw [hlive' _ (Nat.le_refl _), Counters.live?_of_le hle] at hcounter
    exact hlive counter (Option.filter_eq_some_iff.mp hcounter).1
  | within counter hlive hpos hlimit =>
    refine .within counter (fun later hlater hlt => ?_) hpos hlimit
    rw [hlive' later hlater]
    exact hlive later (by omega) hlt
  | past hpast hlimit => exact .past (by omega) hlimit

theorem later (h : Accounted key limit start period n memory) {time : Nat} (hle : memory.now ≤ time) :
    Accounted key limit start period n { memory with now := time } :=
  h.congr hle fun _ _ => rfl

/-- A hit within a window tells one more than the window has counted. -/
theorem hit_of_live {counter : Counter} (h : Accounted key limit start period n memory)
    (hlive : memory.table.live? memory.now key = some counter)
    (hnow : memory.now < start + period.nanos) {m : Nat}
    (hm : m = n ∨ (m = n + 1 ∧ start ≤ memory.now ∧ counter.count + 1 ≤ limit)) :
    Accounted key limit start period m { memory with table := memory.hit key period } := by
  cases h with
  | before hlimit hcount hearly =>
    have hn := hcount counter hlive
    refine .before (by omega) (fun counter' hcounter' => ?_) fun hlt => ?_
    · have hlive' : (memory.hit key period).live? memory.now key = some counter' := hcounter'
      rw [Memory.live?_hit_of_live memory hlive (by omega)] at hlive'
      obtain rfl := Option.some.inj (Option.filter_eq_some_iff.mp hlive').1
      show m < counter.count + 1
      omega
    · have hnow : memory.now < start := hlt
      have := hearly hnow
      omega
  | within counter' hlive' hpos hlimit =>
    have hnowLive := hlive' memory.now (Nat.le_refl _) hnow
    obtain rfl := Option.some.inj (hlive.symm.trans hnowLive)
    -- the hit belongs to the window that outlasts the interval, and is no other window's
    refine .within counter.succ (fun later hlater hlt => ?_) (Nat.succ_pos _) ?_
    · have hopen := (Counters.live?_eq_some_iff.mp (hlive' later hlater hlt)).2
      show (memory.hit key period).live? later key = _
      rw [Memory.live?_hit_of_live memory hlive hpos, Option.filter_some, Counter.isOver_succ,
        hopen]
      rfl
    · show m < limit + min (counter.count + 1) limit
      omega
  | past hpast _ => omega

/-- Any other hit tells one and opens a window. -/
theorem hit_of_not_live (h : Accounted key limit start period n memory)
    (hlive : memory.table.live? memory.now key = none)
    (hnow : memory.now < start + period.nanos) {m : Nat}
    (hm : m = n ∨ (m = n + 1 ∧ start ≤ memory.now)) :
    Accounted key limit start period m { memory with table := memory.hit key period } := by
  have hopened : ∀ later, (memory.hit key period).live? later key =
      (some (Counter.opened memory.now period)).filter fun c => !c.isOver later :=
    fun later => Memory.live?_hit_of_not_live memory hlive
  cases h with
  | before hlimit hcount hearly =>
    by_cases hstart : memory.now < start
    · -- the interval has not begun, so nothing has been counted in it
      have hn := hearly hstart
      refine .before (by omega) (fun counter hcounter => ?_) fun _ => by omega
      have hlive' : (memory.hit key period).live? memory.now key = some counter := hcounter
      rw [hopened] at hlive'
      obtain rfl := Option.some.inj (Option.filter_eq_some_iff.mp hlive').1
      show m < 1
      omega
    · refine .within (.opened memory.now period) (fun later _ hlt => ?_) Nat.one_pos ?_
      · show (memory.hit key period).live? later key = _
        have hopen : (Counter.opened memory.now period).isOver later = false :=
          Counter.isOver_deadline_of_lt 1 (by omega)
        rw [hopened, Option.filter_some, hopen]
        rfl
      · show m < limit + min 1 limit
        omega
  | within counter hlive' _ _ =>
    rw [hlive' memory.now (Nat.le_refl _) hnow] at hlive
    cases hlive
  | past hpast _ => omega

/-- **A hit on the key keeps the account.** -/
theorem hit (h : Accounted key limit start period n memory) :
    Accounted key limit start period
      (n + lowHits key limit start period [⟨memory.now, .hit key period⟩] memory)
      { memory with table := memory.hit key period } := by
  rw [lowHits_hit]
  by_cases hnow : memory.now < start + period.nanos
  · cases hlive : memory.table.live? memory.now key with
    | none =>
      refine h.hit_of_not_live hlive hnow ?_
      split
      · next hlow => exact .inr ⟨rfl, hlow.1⟩
      · exact .inl rfl
    | some counter =>
      refine h.hit_of_live hlive hnow ?_
      rw [Counters.hitOf_of_live hlive]
      split
      · next hlow => exact .inr ⟨rfl, hlow.1, hlow.2.2⟩
      · exact .inl rfl
  · rw [if_neg fun hlow => hnow hlow.2.1]
    exact .past (Nat.le_of_not_lt hnow) h.lt

/-- **An event that does not clear the store keeps the account.** -/
theorem perform (h : Accounted key limit start period n memory) {event : Event}
    (hle : memory.now ≤ event.time) (hclear : event.operation ≠ .clear)
    (hperiod : ∀ other, event.operation = .hit key other → other = period) :
    Accounted key limit start period (n + lowHits key limit start period [event] memory)
      (event.perform memory).2 := by
  obtain ⟨time, operation⟩ := event
  have h := h.later hle
  cases operation with
  | hit k p =>
    have hperform : (Event.mk time (.hit k p)).perform memory = _ :=
      perform_hit time memory.table k p
    by_cases hk : k = key
    · subst hk
      obtain rfl := hperiod p rfl
      rw [hperform]
      exact h.hit
    · have hlow : lowHits key limit start period [⟨time, .hit k p⟩] memory = 0 := by
        simp [lowHits, play, hperform, isLow, Operation.counts, hk]
      rw [hlow, Nat.add_zero, hperform]
      exact h.congr (Nat.le_refl _) fun later _ => Memory.live?_hit_of_ne _ (Ne.symm hk)
  | purge =>
    have hlow : lowHits key limit start period [⟨time, .purge⟩] memory = 0 := by
      simp [lowHits, play, Event.perform, Operation.perform, isLow]
    rw [hlow, Nat.add_zero]
    exact h.congr (Nat.le_refl _) fun later hlater => Counters.live?_purge hlater
  | clear => exact absurd rfl hclear

theorem play (h : Accounted key limit start period n memory) {events : List Event}
    (hordered : events.Pairwise (·.time ≤ ·.time))
    (hlater : ∀ event ∈ events, memory.now ≤ event.time)
    (hclear : ∀ event ∈ events, event.operation ≠ .clear)
    (hperiod : OnePeriod key period events) :
    Accounted key limit start period (n + lowHits key limit start period events memory)
      (Store.play events memory).2 := by
  induction events generalizing n memory with
  | nil => exact h
  | cons event rest ih =>
    obtain ⟨hafter, hordered⟩ := List.pairwise_cons.mp hordered
    rw [List.forall_mem_cons] at hlater hclear
    obtain ⟨hfirst, hrest⟩ := List.forall_mem_cons.mp hperiod
    have hstep := h.perform hlater.1 hclear.1 hfirst
    rw [lowHits_cons, ← Nat.add_assoc]
    refine ih hstep hordered (fun e he => ?_) hclear.2 hrest
    rw [now_perform]
    exact hafter e he

end Accounted

/--
**In an interval as long as the period, fewer hits than twice the limit are told a low count.** This
holds on a new store for a key on which every hit asks for the same period.
-/
theorem lowHits_lt {history : List Event} (hlimit : 0 < limit)
    (hordered : history.Pairwise (·.time ≤ ·.time))
    (hclear : ∀ event ∈ history, event.operation ≠ .clear)
    (hperiod : OnePeriod key period history) (start : Nat) :
    lowHits key limit start period history {} < 2 * limit := by
  have hstart : Accounted key limit start period 0 {} :=
    .before hlimit (fun counter hcounter => by cases hcounter) fun _ => rfl
  have hend := hstart.play hordered (fun _ _ => Nat.zero_le _) hclear hperiod
  rw [Nat.zero_add] at hend
  exact hend.lt

end Admission.Store
