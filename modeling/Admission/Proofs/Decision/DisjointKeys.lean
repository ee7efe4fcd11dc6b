import Admission.Proofs.Decision.Traffic
/-!
# Disjoint keys

Requests whose rules render no key in common do not see each other. If some requests of a run are
chosen, and no key of a chosen request is a key of another one, the others can be left out of the
run without a change in what is decided on the chosen ones.

Two runs are led side by side. What they have in common is not the store but what is stored for the
keys of the chosen requests:

1. `AgreeOn.hit`, `AgreeOn.purge`: both stores go on alike
2. `Evaluates.transport`, `Judges.transport`: a judgement that looks at these keys only goes the
   same way on both
3. `Evaluates.find?_of_ne`, `Judges.find?_of_ne`: a judgement that looks at other keys only leaves
   them alone
4. `chosenVerdicts_keepChosen`: the runs go on alike as far as the chosen requests go
5. `verdicts_of_disjoint_keys`: the verdicts on the chosen requests

Nothing is assumed about the store at the start or about the order of the instants.
-/

namespace Admission

open Store

namespace Counters

/-- Two tables store the same for certain keys. -/
def AgreeOn (owned : String → Prop) (a b : Counters) : Prop :=
  ∀ key, owned key → a.find? key = b.find? key

variable {owned : String → Prop} {a b : Counters} {now : Nat} {key : String}

theorem hitOf_congr (h : a.find? key = b.find? key) : a.hitOf now key = b.hitOf now key := by
  unfold hitOf
  rw [h]

theorem AgreeOn.refl (owned : String → Prop) (a : Counters) : AgreeOn owned a a :=
  fun _ _ => rfl

theorem AgreeOn.hit (h : AgreeOn owned a b) (hkey : owned key) (period : Duration) :
    AgreeOn owned ((Memory.mk now a).hit key period) ((Memory.mk now b).hit key period) := by
  intro other hother
  by_cases ho : other = key
  · subst ho
    have hstored := h other hother
    rw [Memory.find?_hit_self, Memory.find?_hit_self, liveCount_congr hstored,
      hitOf_congr hstored]
  · rw [Memory.find?_hit_of_ne _ ho, Memory.find?_hit_of_ne _ ho]
    exact h other hother

theorem AgreeOn.purge (h : AgreeOn owned a b) (now : Nat) :
    AgreeOn owned (a.purge now) (b.purge now) := by
  intro key hkey
  rw [find?_purge, find?_purge, live?_congr (h key hkey)]

end Counters

open Counters

variable {owned : String → Prop} {a b : Counters} {now : Nat}

namespace Decision.Evaluates

variable {client path : String} {rules : List Rule} {memory after : Memory} {decision : Decision}
  {hits : List Operation}

/-- An evaluation goes the same way where the keys of its rules are counted alike. -/
theorem transport (h : Evaluates client path rules memory decision hits after) {b : Counters}
    (hagree : AgreeOn owned memory.table b)
    (howned : ∀ rule ∈ rules, owned (rule.key.render client path)) :
    ∃ after', Evaluates client path rules ⟨memory.now, b⟩ decision hits after' ∧
      AgreeOn owned after.table after'.table := by
  induction h generalizing b with
  | nil memory => exact ⟨_, .nil _, hagree⟩
  | @breach rule rest memory key hkey hlimit =>
    have hkeyOwned : owned key := hkey ▸ howned rule List.mem_cons_self
    have hcount : memory.table.liveCount memory.now key = b.liveCount memory.now key :=
      liveCount_congr (hagree key hkeyOwned)
    rw [hcount] at hlimit ⊢
    exact ⟨_, .breach rest hkey hlimit, hagree.hit hkeyOwned rule.period⟩
  | @pass rule rest memory after key decision hits hkey hlimit hrest ih =>
    have hkeyOwned : owned key := hkey ▸ howned rule List.mem_cons_self
    have hcount : memory.table.liveCount memory.now key = b.liveCount memory.now key :=
      liveCount_congr (hagree key hkeyOwned)
    obtain ⟨after', hrest', hafter⟩ := ih (hagree.hit hkeyOwned rule.period)
      fun later hmem => howned later (List.mem_cons_of_mem _ hmem)
    rw [hcount] at hlimit
    exact ⟨after', .pass hkey hlimit hrest', hafter⟩

/-- An evaluation leaves every key alone that none of its rules renders. -/
theorem find?_of_ne (h : Evaluates client path rules memory decision hits after) {key : String}
    (hne : ∀ rule ∈ rules, rule.key.render client path ≠ key) :
    after.table.find? key = memory.table.find? key := by
  induction h with
  | nil memory => rfl
  | @breach rule rest memory other hkey hlimit =>
    have ho : key ≠ other := fun he => hne rule List.mem_cons_self (hkey.trans he.symm)
    exact Memory.find?_hit_of_ne memory ho
  | @pass rule rest memory after other decision hits hkey hlimit hrest ih =>
    have ho : key ≠ other := fun he => hne rule List.mem_cons_self (hkey.trans he.symm)
    rw [ih fun later hmem => hne later (List.mem_cons_of_mem _ hmem)]
    exact Memory.find?_hit_of_ne memory ho

end Decision.Evaluates

namespace Engine.Judges

variable {engine : Engine} {policy : Policy} {request : Request} {memory after : Memory}
  {decision : Decision} {hits : List Operation}

theorem transport (h : Judges engine policy request memory decision hits after) {b : Counters}
    (hagree : AgreeOn owned memory.table b)
    (howned : ∀ rule ∈ policy.matching request.path request.method,
      owned (rule.key.render (engine.client request) request.path)) :
    ∃ after', Judges engine policy request ⟨memory.now, b⟩ decision hits after' ∧
      AgreeOn owned after.table after'.table := by
  cases h with
  | safelisted hs => exact ⟨_, .safelisted hs, hagree⟩
  | blocked hs hb => exact ⟨_, .blocked hs hb, hagree⟩
  | unlisted hs hb h =>
    obtain ⟨after', h', hafter⟩ := h.transport hagree howned
    exact ⟨after', .unlisted hs hb h', hafter⟩

theorem find?_of_ne (h : Judges engine policy request memory decision hits after) {key : String}
    (hne : ∀ rule ∈ policy.matching request.path request.method,
      rule.key.render (engine.client request) request.path ≠ key) :
    after.table.find? key = memory.table.find? key := by
  cases h with
  | safelisted hs => rfl
  | blocked hs hb => rfl
  | unlisted hs hb h => exact h.find?_of_ne hne

end Engine.Judges

namespace Traffic

/-! ## One step on two stores -/

/-- The keys that the rules render which apply to the request of a step. -/
def Step.keys (step : Step) : List String :=
  match step.action with
  | .judge engine policy request => Decision.keys (engine.client request) request.path
      (policy.matching request.path request.method)
  | .purge => []

/-- Whether a step is a request. -/
def Step.isRequest (step : Step) : Bool :=
  match step.action with
  | .judge .. => true
  | .purge => false

variable {step : Step}

theorem Step.keys_of_not_isRequest (h : step.isRequest = false) : step.keys = [] := by
  cases haction : step.action with
  | judge => simp [isRequest, haction] at h
  | purge => simp [keys, haction]

/-- A step whose keys are counted alike has one verdict, and they are counted alike after it. -/
theorem Step.perform_transport (hagree : AgreeOn owned a b)
    (howned : ∀ key ∈ step.keys, owned key) :
    (step.perform a).1 = (step.perform b).1 ∧
      AgreeOn owned (step.perform a).2 (step.perform b).2 := by
  rcases step.cases_judges a with ⟨_, _, _, _, _, _, haction, h⟩ | haction
  · obtain ⟨after', h', hafter⟩ := h.transport hagree fun rule hmem => howned _ <| by
      simp only [Step.keys, haction]
      exact List.mem_map.mpr ⟨rule, hmem, rfl⟩
    rw [perform_of_judges haction h, perform_of_judges haction h']
    exact ⟨rfl, hafter⟩
  · rw [perform_of_purge haction, perform_of_purge haction]
    exact ⟨rfl, hagree.purge step.time⟩

/-- A request leaves every key alone that no rule renders for it. -/
theorem Step.find?_perform_of_notMem (hrequest : step.isRequest = true) {key : String}
    (hkey : key ∉ step.keys) : (step.perform a).2.find? key = a.find? key := by
  rcases step.cases_judges a with ⟨_, _, _, _, _, _, haction, h⟩ | haction
  · rw [perform_of_judges haction h]
    refine h.find?_of_ne fun rule hmem he => hkey ?_
    simp only [Step.keys, haction]
    exact List.mem_map.mpr ⟨rule, hmem, he⟩
  · simp [isRequest, haction] at hrequest

/-! ## Runs with chosen requests -/

/-- The verdicts on the chosen steps of a run. -/
def chosenVerdicts (marked : List (Step × Bool)) (table : Counters) : List (Option Verdict) :=
  ((marked.zip (run (marked.map Prod.fst) table).1).filter fun ((_, chosen), _) => chosen).map
    Prod.snd

/-- A run without the requests that are not chosen. -/
def keepChosen (marked : List (Step × Bool)) : List (Step × Bool) :=
  marked.filter fun (step, chosen) => chosen || !step.isRequest

theorem chosenVerdicts_cons (step : Step) (chosen : Bool) (rest : List (Step × Bool))
    (table : Counters) :
    chosenVerdicts ((step, chosen) :: rest) table =
      (if chosen then [(step.perform table).1] else []) ++
        chosenVerdicts rest (step.perform table).2 := by
  cases chosen <;> rfl

theorem keepChosen_cons (step : Step) (chosen : Bool) (rest : List (Step × Bool)) :
    keepChosen ((step, chosen) :: rest) =
      if chosen || !step.isRequest then (step, chosen) :: keepChosen rest else keepChosen rest :=
  List.filter_cons

/-- Two runs that agree on the keys of the chosen requests go on alike, if the other requests have
no such key, and whether these are left out of one of the runs or not. -/
theorem chosenVerdicts_keepChosen {marked : List (Step × Bool)}
    (hchosen : ∀ step, (step, true) ∈ marked → ∀ key ∈ step.keys, owned key)
    (hother : ∀ step, (step, false) ∈ marked → ∀ key ∈ step.keys, ¬ owned key)
    (hagree : AgreeOn owned a b) :
    chosenVerdicts marked a = chosenVerdicts (keepChosen marked) b := by
  induction marked generalizing a b with
  | nil => rfl
  | cons first rest ih =>
    obtain ⟨step, chosen⟩ := first
    have ih' : ∀ {a b}, AgreeOn owned a b →
        chosenVerdicts rest a = chosenVerdicts (keepChosen rest) b :=
      ih (fun s hs => hchosen s (List.mem_cons_of_mem _ hs))
        fun s hs => hother s (List.mem_cons_of_mem _ hs)
    rw [chosenVerdicts_cons, keepChosen_cons]
    cases chosen with
    | true =>
      obtain ⟨hverdict, hafter⟩ := step.perform_transport hagree (hchosen step List.mem_cons_self)
      rw [Bool.true_or, if_pos rfl, if_pos rfl, chosenVerdicts_cons, if_pos rfl, hverdict,
        ih' hafter]
    | false =>
      have hnone := hother step List.mem_cons_self
      rw [if_neg Bool.false_ne_true, List.nil_append, Bool.false_or]
      cases hrequest : step.isRequest with
      | true =>
        -- a request that is left out has changed nothing that is looked at
        have hafter : AgreeOn owned (step.perform a).2 b := by
          intro key hkey
          rw [Step.find?_perform_of_notMem hrequest fun hmem => hnone key hmem hkey]
          exact hagree key hkey
        exact ih' hafter
      | false =>
        have hkeys := Step.keys_of_not_isRequest hrequest
        obtain ⟨-, hafter⟩ := step.perform_transport hagree fun key hmem => by
          rw [hkeys] at hmem
          cases hmem
        rw [Bool.not_false, if_pos rfl, chosenVerdicts_cons, if_neg Bool.false_ne_true,
          List.nil_append]
        exact ih' hafter

/-- The keys of the chosen requests of a run. -/
def IsChosenKey (marked : List (Step × Bool)) (key : String) : Prop :=
  ∃ chosen : Step, (chosen, true) ∈ marked ∧ key ∈ chosen.keys

/--
**Requests with other keys do not interfere.** If no key of a chosen request is a key of a request
that is not chosen, then the chosen requests get the same verdicts, rule, key and count included,
without the others. The store may hold anything at the start.
-/
theorem verdicts_of_disjoint_keys {marked : List (Step × Bool)}
    (hdisjoint : ∀ chosen ∈ marked, ∀ other ∈ marked, chosen.2 = true → other.2 = false →
      ∀ key ∈ chosen.1.keys, key ∉ other.1.keys) (table : Counters) :
    chosenVerdicts marked table = chosenVerdicts (keepChosen marked) table := by
  have hchosen : ∀ step, (step, true) ∈ marked → ∀ key ∈ step.keys, IsChosenKey marked key :=
    fun step hmem key hkey => ⟨step, hmem, hkey⟩
  have hother : ∀ step, (step, false) ∈ marked → ∀ key ∈ step.keys,
      ¬ IsChosenKey marked key := by
    rintro step hmem key hkey ⟨chosen, hchosen, hkey'⟩
    exact hdisjoint (chosen, true) hchosen (step, false) hmem rfl rfl key hkey' hkey
  exact chosenVerdicts_keepChosen hchosen hother (AgreeOn.refl _ table)

/-- One login for each client in a minute. -/
def loginRule : Rule :=
  ⟨none, .any, "POST", ⟨"login:%\x7bip\x7d"⟩, 1, .ofSecs 60, by decide, twiceAMinute.period_pos⟩

/-- A login of a client, at an instant in milliseconds. -/
def login (client : String) (millis : Nat) (h : millis * 1_000_000 < clockEnd) : Step :=
  ⟨millis * 1_000_000, .judge {} { rules := [loginRule] } { method := "POST", remoteAddr := client },
    h⟩

/-- Logins of two clients, those of the first one chosen. -/
def twoClients : List (Step × Bool) :=
  [(login "192.0.2.1:80" 0 start_lt_clockEnd, true),
    (login "192.0.2.2:80" 0 start_lt_clockEnd, false),
    (login "192.0.2.2:80" 900 (by decide), false), (login "192.0.2.1:80" 59_999 (by decide), true),
    (⟨60_000_000_000, .purge, by decide⟩, false),
    (login "192.0.2.1:80" 60_000 minute_lt_clockEnd, true)]

/-- The second login of a minute is throttled, also if nobody else logs in. -/
theorem verdicts_of_disjoint_keys_of_two_clients :
    (∀ chosen ∈ twoClients, ∀ other ∈ twoClients, chosen.2 = true → other.2 = false →
        ∀ key ∈ chosen.1.keys, key ∉ other.1.keys) ∧
      chosenVerdicts (keepChosen twoClients) (Counters.empty.put "login:192.0.2.2" ⟨7, none⟩) =
        [some (.ok .allowed), some (.ok (.throttled loginRule "login:192.0.2.1" 2)),
          some (.ok .allowed)] := by
  have hdisjoint : ∀ chosen ∈ twoClients, ∀ other ∈ twoClients, chosen.2 = true →
      other.2 = false → ∀ key ∈ chosen.1.keys, key ∉ other.1.keys := by
    decide +kernel
  have hverdicts : chosenVerdicts twoClients (Counters.empty.put "login:192.0.2.2" ⟨7, none⟩) =
      [some (.ok .allowed), some (.ok (.throttled loginRule "login:192.0.2.1" 2)),
        some (.ok .allowed)] := by
    decide +kernel
  exact ⟨hdisjoint, (verdicts_of_disjoint_keys hdisjoint _).symm.trans hverdicts⟩

end Traffic

end Admission
