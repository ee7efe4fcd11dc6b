import Admission.Proofs.Decision.Traffic
import Admission.Proofs.Store.IntervalBound
/-!
# The rate of allowed requests

Within an interval as long as the period of a rule, wherever it lies, fewer requests than twice the
limit are allowed of those that the rule counts on one key. A request that is allowed has made a hit
on the key that was told a count up to the limit, so the bound on low counts carries over.

* `Evaluates.lowHits_pos`: an evaluation that allows the request makes such a hit
* `length_allowedTimes_le`: hence there are no more allowed requests than low counts
* `allowed_in_period_lt`: the bound
-/

namespace Admission

open Store

namespace Decision.Evaluates

/-- An evaluation that allows the request has told every rule a count up to its limit. -/
theorem lowHits_pos {client path key : String} {rules : List Rule} {memory after : Memory}
    {hits : List Operation} {rule : Rule} {start : Nat}
    (h : Evaluates client path rules memory .allowed hits after) (hrule : rule ∈ rules)
    (hkey : rule.key.render client path = key) (hstart : start ≤ memory.now)
    (hend : memory.now < start + rule.period.nanos) :
    0 < lowHits key rule.limit.toNat start rule.period (hits.map (Event.mk memory.now)) memory := by
  generalize hallowed : Decision.allowed = decision at h
  induction h with
  | nil memory => cases hrule
  | breach rest hkey' hlimit => cases hallowed
  | @pass first rest memory after key' decision hits hkey' hlimit hrest ih =>
    rw [List.map_cons, lowHits_cons]
    rcases List.mem_cons.mp hrule with rfl | hmem
    · obtain rfl := hkey.symm.trans hkey'
      rw [lowHits_hit, Counters.count_hitOf, if_pos ⟨hstart, hend, hlimit⟩]
      exact Nat.add_pos_left Nat.one_pos _
    · have hperform : (Event.mk memory.now (.hit key' first.period)).perform memory = _ :=
        perform_hit memory.now memory.table key' first.period
      rw [hperform]
      exact Nat.add_pos_right _ (ih hmem hstart hend hallowed)

end Decision.Evaluates

namespace Traffic

/-- Whether a step judges a request that the rule counts on the key. -/
def Step.concerns (rule : Rule) (key : String) (step : Step) : Bool :=
  match step.action with
  | .judge engine policy request =>
    decide (rule ∈ policy.matching request.path request.method) &&
      rule.key.render (engine.client request) request.path == key
  | .purge => false

/-- The instants of the requests that the rule counts on the key and that were allowed. -/
def allowedTimes (rule : Rule) (key : String) (steps : List Step) (table : Counters) : List Nat :=
  ((steps.zip (run steps table).1).filter fun (step, verdict) =>
    step.concerns rule key && verdict == some (.ok .allowed)).map fun (step, _) => step.time

variable {rule : Rule} {key : String} {step : Step} {table : Counters} {start : Nat}

theorem lowHits_events_pos (hconcerns : step.concerns rule key = true)
    (hallowed : (step.perform table).1 = some (.ok .allowed)) (hstart : start ≤ step.time)
    (hend : step.time < start + rule.period.nanos) :
    0 < lowHits key rule.limit.toNat start rule.period (step.events table) ⟨step.time, table⟩ := by
  rcases step.cases_judges table with ⟨_, _, _, _, _, _, haction, hjudges⟩ | haction
  · rw [Step.perform_of_judges haction hjudges] at hallowed
    rw [Step.events_of_judges haction hjudges]
    simp only [Step.concerns, haction, Bool.and_eq_true, decide_eq_true_eq, beq_iff_eq] at hconcerns
    obtain rfl := Except.ok.inj (Option.some.inj hallowed)
    have hevaluates := hjudges.evaluates nofun nofun
    exact hevaluates.lowHits_pos hconcerns.1 hconcerns.2 hstart hend
  · simp [Step.concerns, haction] at hconcerns

theorem allowedTimes_cons (step : Step) (rest : List Step) (table : Counters) :
    allowedTimes rule key (step :: rest) table =
      (if step.concerns rule key = true ∧ (step.perform table).1 = some (.ok .allowed)
        then [step.time] else []) ++ allowedTimes rule key rest (step.perform table).2 := by
  simp only [allowedTimes, run, List.zip_cons_cons, List.filter_cons, Bool.and_eq_true, beq_iff_eq]
  split <;> rfl

/-- No more requests are allowed in an interval than there are low counts. -/
theorem length_allowedTimes_le (steps : List Step) (memory : Memory) :
    ((allowedTimes rule key steps memory.table).filter fun time =>
        start ≤ time ∧ time < start + rule.period.nanos).length ≤
      lowHits key rule.limit.toNat start rule.period (history steps memory.table) memory := by
  induction steps generalizing memory with
  | nil => exact Nat.zero_le _
  | cons step rest ih =>
    have htable : memory.table = (Memory.mk step.time memory.table).table := rfl
    have hafter : (step.perform memory.table).2 =
        (play (step.events memory.table) memory).2.table := by
      rw [(play_congr htable _).2, play_events]
    rw [allowedTimes_cons, history, List.filter_append, List.length_append, lowHits_append, hafter]
    refine Nat.add_le_add ?_ (ih _)
    -- only an allowed request within the interval counts, and it has made a low count
    split
    · next h =>
      by_cases hwithin : start ≤ step.time ∧ step.time < start + rule.period.nanos
      · have hpos := lowHits_events_pos h.1 h.2 hwithin.1 hwithin.2
        rw [lowHits_congr htable]
        exact Nat.le_trans (List.length_filter_le _ _) hpos
      · simp [hwithin]
    · exact Nat.zero_le _

/--
**In an interval as long as the period, fewer requests than twice the limit are allowed.** On a
store that was new at the start, whatever rules and requests there are besides, this holds of the
requests that a rule counts on a key, as long as the key is counted for the period of that rule
only.
-/
theorem allowed_in_period_lt {steps : List Step} (hordered : steps.Pairwise (·.time ≤ ·.time))
    (hperiod : OnePeriod key rule.period (history steps .empty)) (start : Nat) :
    ((allowedTimes rule key steps .empty).filter fun time =>
      start ≤ time ∧ time < start + rule.period.nanos).length < 2 * rule.limit.toNat :=
  Nat.lt_of_le_of_lt (length_allowedTimes_le steps {})
    (lowHits_lt rule.limit_pos (pairwise_history hordered .empty)
      (fun _ hmem => ne_clear_of_mem_history hmem) hperiod start)

/-- Requests about the end of a window of a minute that has opened with the first one. -/
def straddling : List Step :=
  [visit minutePolicy 0 start_lt_clockEnd, visit minutePolicy 59_000 (by decide),
    ⟨59_500_000_000, .purge, by decide⟩, visit minutePolicy 60_000 minute_lt_clockEnd,
    visit minutePolicy 60_500 (by decide), visit minutePolicy 60_600 (by decide)]

/-- With a limit of two, three requests can be allowed within a minute, but not four. -/
theorem allowed_in_period_lt_about_an_end :
    ((allowedTimes twiceAMinute "shared" straddling .empty).filter fun time =>
        1_000_000_000 ≤ time ∧ time < 1_000_000_000 + twiceAMinute.period.nanos).length = 3 ∧
      3 < 2 * twiceAMinute.limit.toNat := by
  have hordered : straddling.Pairwise (·.time ≤ ·.time) := by decide
  have hperiod : OnePeriod "shared" twiceAMinute.period (history straddling .empty) := by
    decide +kernel
  have hthree : ((allowedTimes twiceAMinute "shared" straddling .empty).filter fun time =>
      1_000_000_000 ≤ time ∧ time < 1_000_000_000 + twiceAMinute.period.nanos).length = 3 := by
    decide +kernel
  have hlt := allowed_in_period_lt hordered hperiod 1_000_000_000
  rw [hthree] at hlt
  exact ⟨hthree, hlt⟩

end Traffic

end Admission
