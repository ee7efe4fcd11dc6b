import Admission.Proofs.Decision.Traffic
/-!
# Justified throttling

A rule throttles a request only if its key has been hit as often as the limit says, and more, within
the last period. What happened earlier than that does not matter.

The count that a rule sees is the number of hits in the open window of its key (`openWindow_iff`),
and an open window is not older than its period, as long as the clock can tell the instant.

* `liveCount_le_recentHits`: a live count is covered by the hits of the last period
* `Evaluates.exists_breach`, `exists_breach_of_perform`: the last hit of a throttled request is
  the one that breached
* `throttled_only_after_limit`: the two together
-/

namespace Admission

open Store

namespace Store

/-- The number of hits on a key among events that are less than a period old. -/
def recentHits (key : String) (period : Duration) (now : Nat) (events : List Event) : Nat :=
  events.countP fun event =>
    event.operation.counts key && decide (now < event.time + period.nanos ∧ event.time ≤ now)

variable {key : String} {period : Duration} {now : Nat} {history : List Event}

theorem recentHits_append (before after : List Event) :
    recentHits key period now (before ++ after) =
      recentHits key period now before + recentHits key period now after :=
  List.countP_append

/-- A hit that is made now is recent. -/
theorem recentHits_singleton_self (hperiod : 0 < period.nanos) :
    recentHits key period now [⟨now, .hit key period⟩] = 1 := by
  simp [recentHits, Operation.counts, hperiod]

/-- An open window was opened less than a period ago. -/
theorem OpenWindow.hits_le_recentHits {since : List Event}
    (h : OpenWindow key history now since) (hordered : history.Pairwise (·.time ≤ ·.time))
    (hperiod : OnePeriod key period history) (hpast : ∀ event ∈ history, event.time ≤ now)
    (hclock : now < clockEnd) : hits key since ≤ recentHits key period now history := by
  obtain ⟨before, start, other, rest, rfl, rfl, -, -, hopen⟩ := openWindow_iff.mp h
  obtain rfl : other = period := hperiod ⟨start, .hit key other⟩ (by simp) other rfl
  -- a window whose end the clock cannot tell was opened less than a period ago all the same
  have hstart : now < start + other.nanos := by omega
  have hsince := List.pairwise_cons.mp (List.pairwise_append.mp hordered).2.1
  rw [recentHits_append]
  refine Nat.le_trans (List.countP_mono_left fun event hmem hcounts => ?_) (Nat.le_add_left _ _)
  have hage : start ≤ event.time := by
    rcases List.mem_cons.mp hmem with rfl | hmem
    · exact Nat.le_refl _
    · exact hsince.1 event hmem
  have hnow : event.time ≤ now := hpast event (List.mem_append_right _ hmem)
  rw [hcounts, Bool.true_and, decide_eq_true_eq]
  omega

/-- **A live count is covered by the hits of the last period.** -/
theorem liveCount_le_recentHits (hordered : history.Pairwise (·.time ≤ ·.time))
    (hperiod : OnePeriod key period history) (hpast : ∀ event ∈ history, event.time ≤ now)
    (hclock : now < clockEnd) :
    (tableAfter history).liveCount now key ≤ recentHits key period now history := by
  have hshows := showsWindows_tableAfter hordered key hpast
  unfold Counters.liveCount
  cases hcount : (tableAfter history).count? now key with
  | none => exact Nat.zero_le _
  | some n =>
    obtain ⟨since, hsince, rfl⟩ := (hshows.count?_eq_some_iff n).mp hcount
    exact hsince.hits_le_recentHits hordered hperiod hpast hclock

end Store

/-- The last hit of an evaluation that throttles is the one that breached. -/
theorem Decision.Evaluates.exists_breach {client path key : String} {rules : List Rule}
    {memory after : Memory} {hits : List Operation} {rule : Rule} {count : Nat}
    (h : Evaluates client path rules memory (.throttled rule key count) hits after) :
    ∃ earlier, hits = earlier ++ [.hit key rule.period] ∧ rule.limit.toNat < count ∧
      count = (play (earlier.map (Event.mk memory.now)) memory).2.table.liveCount memory.now key
        + 1 := by
  generalize hthrottled : Decision.throttled rule key count = decision at h
  induction h with
  | nil memory => cases hthrottled
  | breach rest hkey hlimit =>
    cases hthrottled
    exact ⟨[], rfl, hlimit, rfl⟩
  | @pass first rest memory after other decision hits hkey hlimit hrest ih =>
    obtain ⟨earlier, rfl, hover, hcount⟩ := ih hthrottled
    refine ⟨.hit other first.period :: earlier, rfl, hover, ?_⟩
    rw [List.map_cons, play_hit_cons]
    exact hcount

namespace Traffic

variable {steps : List Step} {step : Step} {rule : Rule} {key : String} {count : Nat}
  {table : Counters}

theorem exists_breach_of_perform
    (h : (step.perform table).1 = some (.ok (.throttled rule key count))) :
    ∃ earlier, step.events table = earlier ++ [⟨step.time, .hit key rule.period⟩] ∧
      rule.limit.toNat < count ∧
      count = (play earlier ⟨step.time, table⟩).2.table.liveCount step.time key + 1 := by
  rcases step.cases_judges table with ⟨_, _, _, _, _, _, haction, hjudges⟩ | haction
  · rw [Step.perform_of_judges haction hjudges] at h
    rw [Step.events_of_judges haction hjudges]
    obtain rfl := Except.ok.inj (Option.some.inj h)
    have hevaluates := hjudges.evaluates nofun nofun
    obtain ⟨earlier, rfl, hlimit, hcount⟩ := hevaluates.exists_breach
    exact ⟨earlier.map (Event.mk step.time), List.map_append, hlimit, hcount⟩
  · rw [Step.perform_of_purge haction] at h
    cases h

/-- The history up to a throttled request ends with the hit that breached, and most of the count
that it was told is covered by the hits of the last period before it. -/
theorem exists_breach_of_history (hordered : (steps ++ [step]).Pairwise (·.time ≤ ·.time))
    (hperiod : OnePeriod key rule.period (history (steps ++ [step]) .empty))
    (h : (step.perform (run steps .empty).2).1 = some (.ok (.throttled rule key count))) :
    ∃ earlier, history (steps ++ [step]) .empty =
        earlier ++ [⟨step.time, .hit key rule.period⟩] ∧
      rule.limit.toNat < count ∧ count ≤ recentHits key rule.period step.time earlier + 1 := by
  obtain ⟨earlier, hevents, hlimit, hcount⟩ := exists_breach_of_perform h
  have hhistory : history (steps ++ [step]) .empty =
      history steps .empty ++ earlier ++ [⟨step.time, .hit key rule.period⟩] := by
    rw [history_append, history, history, List.append_nil, hevents, List.append_assoc]
  have htimes := pairwise_history hordered .empty
  rw [hhistory] at htimes hperiod
  obtain ⟨hearlier, -, hlast⟩ := List.pairwise_append.mp htimes
  refine ⟨_, hhistory, hlimit, ?_⟩
  rw [hcount, ← tableAfter_history, ← tableAfter_append]
  exact Nat.succ_le_succ (liveCount_le_recentHits hearlier
    (fun event hmem => hperiod event (List.mem_append_left _ hmem))
    (fun event hmem => hlast event hmem _ (List.mem_singleton_self _)) step.time_lt)

/--
**No request is throttled without cause.** Take a run on a store that was new at the start, and a
key that is counted for the period of a rule only. If the rule throttles a request on that key, it
saw more than its limit, and there were as many hits on the key as the limit says within the last
period before the hit that breached. In particular, as long as the hits of the last period, with
those of the request itself, are no more than the limit, the rule does not throttle, whatever
happened earlier.
-/
theorem throttled_only_after_limit
    (hordered : (steps ++ [step]).Pairwise (·.time ≤ ·.time))
    (hperiod : OnePeriod key rule.period (history (steps ++ [step]) .empty)) :
    (∀ count, (step.perform (run steps .empty).2).1 = some (.ok (.throttled rule key count)) →
      rule.limit.toNat < count ∧
        ∃ earlier, history (steps ++ [step]) .empty =
            earlier ++ [⟨step.time, .hit key rule.period⟩] ∧
          rule.limit.toNat ≤ recentHits key rule.period step.time earlier) ∧
    (recentHits key rule.period step.time (history (steps ++ [step]) .empty) ≤
        rule.limit.toNat →
      ∀ count, (step.perform (run steps .empty).2).1 ≠ some (.ok (.throttled rule key count))) := by
  constructor
  · intro count hthrottled
    obtain ⟨earlier, hhistory, hlimit, hcount⟩ :=
      exists_breach_of_history hordered hperiod hthrottled
    exact ⟨hlimit, earlier, hhistory, by omega⟩
  · intro hfew count hthrottled
    obtain ⟨earlier, hhistory, hlimit, hcount⟩ :=
      exists_breach_of_history hordered hperiod hthrottled
    rw [hhistory, recentHits_append, recentHits_singleton_self rule.period_pos] at hfew
    omega

/-- Requests of which the first one is as old as a period when the last one comes. -/
def crowded : List Step :=
  [visit minutePolicy 0 start_lt_clockEnd, visit minutePolicy 60_000 minute_lt_clockEnd,
    visit minutePolicy 60_000 minute_lt_clockEnd, ⟨90_000_000_000, .purge, by decide⟩]

/-- The third request of a window is throttled at the last moment of the window. -/
theorem throttled_only_after_limit_at_last_moment :
    ((visit minutePolicy 119_999 (by decide)).perform (run crowded .empty).2).1 =
        some (.ok (.throttled twiceAMinute "shared" 3)) ∧
      2 < 3 ∧ ∃ earlier,
        history (crowded ++ [visit minutePolicy 119_999 (by decide)]) .empty =
          earlier ++ [⟨119_999_000_000, .hit "shared" twiceAMinute.period⟩] ∧
        2 ≤ recentHits "shared" twiceAMinute.period 119_999_000_000 earlier := by
  have hordered : (crowded ++ [visit minutePolicy 119_999 (by decide)]).Pairwise
      (·.time ≤ ·.time) := by
    decide
  have hperiod : OnePeriod "shared" twiceAMinute.period
      (history (crowded ++ [visit minutePolicy 119_999 (by decide)]) .empty) := by
    decide +kernel
  have hthrottled : ((visit minutePolicy 119_999 (by decide)).perform (run crowded .empty).2).1 =
      some (.ok (.throttled twiceAMinute "shared" 3)) := by
    decide +kernel
  exact ⟨hthrottled, (throttled_only_after_limit hordered hperiod).1 3 hthrottled⟩

end Traffic

end Admission
