import Admission.CommandLine.Program
import Admission.Proofs.Config.Loaders
import Admission.Proofs.Decision.Repeated
/-!
# Repetitions on the command line

The program judges one request a number of times over a store in memory that starts empty, and
prints a line for each attempt. Which attempts are denied can be told from the rules alone as long
as all of them fall inside the windows of the counters.

* `ofArguments_asking`: every request and every number of times below 2^32 can be asked for
* `newline_notMem_line`: what is printed for an attempt is one line; `decisionLine_eq` is its text
* `WithinWindows`: each attempt finds the windows of all counters open; so it is if no two attempts
  are further apart than a period (`withinWindows_of_periods`)
* `stands_storeBefore`: what the attempts before one have left
* `run_eq_of_memory`, `run_eq_of_shared`: what the program prints over either store

Main statement: `repeated_request`.
-/

namespace Admission.CommandLine

open Store

/-! ## Asking -/

/-- An option with its value in one argument. -/
def option (name value : String) : String := "--" ++ name ++ "=" ++ value

theorem toList_option (name value : String) :
    (option name value).toList = '-' :: '-' :: (name.toList ++ '=' :: value.toList) := by
  have hdashes : "--".toList = ['-', '-'] := rfl
  have hequals : "=".toList = ['='] := rfl
  simp only [option, String.toList_append, hdashes, hequals, List.cons_append, List.nil_append,
    List.append_assoc]

/-- An option is read as its name and its value, whatever the value is. -/
theorem Shape.ofString_option {name : String} (hname : '=' ∉ name.toList) (value : String) :
    Shape.ofString (option name value) = .long name (some value) := by
  have hbefore : ∀ c ∈ name.toList, decide (c ≠ '=') = true := by
    intro c hc
    rw [decide_eq_true_iff]
    rintro rfl
    exact hname hc
  have htake : (name.toList ++ '=' :: value.toList).takeWhile (· ≠ '=') = name.toList := by
    rw [List.takeWhile_append_of_pos hbefore]
    exact List.append_nil _
  have hdrop : (name.toList ++ '=' :: value.toList).dropWhile (· ≠ '=') = '=' :: value.toList := by
    rw [List.dropWhile_append_of_pos hbefore]
    rfl
  rw [Shape.ofString, toList_option]
  generalize hrest : name.toList ++ '=' :: value.toList = rest at htake hdrop
  cases rest with
  | nil => cases hdrop
  | cons first rest =>
    simp only [Shape.ofChars, hdrop, htake, String.ofList_toList]

/-- An option with its value is taken into account, and reading goes on after it. -/
theorem scan_option {σ : Type} {switches : List Switch} {take : σ → Given → Except Stop σ}
    {commands : List String} {state next : σ} {name : String} {value : String}
    (hswitch : (switches.find? fun switch => switch.long == name).map Switch.takesValue = some true)
    (hname : '=' ∉ name.toList) (hcommands : ∀ command ∈ commands, command.toList.head? ≠ some '-')
    (htake : take state (.value name value) = .ok next) (rest : List String) :
    scan switches take commands state none (option name value :: rest) =
      scan switches take commands next none rest := by
  have hshape := Shape.ofString_option hname value
  have hcommand : commands.contains (option name value) = false := by
    rw [List.contains_eq_mem, decide_eq_false_iff_not]
    intro hmem
    refine hcommands _ hmem ?_
    rw [toList_option]
    rfl
  obtain ⟨switch, hfind, htakes⟩ := Option.map_eq_some_iff.mp hswitch
  have hoption : scanOption switches take state (option name value) = .ok (next, none) := by
    simp only [scanOption, hshape, hfind, htakes, htake]
    rfl
  rw [scan, hcommand, hshape, hoption]
  simp

/-- The digits of a number below 2^32 are a number of times. -/
theorem RequestOptions.times?_decimal {times : Nat} (h : times < 0x100000000) :
    times? (String.ofList (Text.decimal times)) = some times := by
  have hroom : times < 0x8000000000000000 := by omega
  rw [times?, String.toList_ofList, Text.signed64?_decimal, if_pos hroom]
  have hrange : 0 ≤ (times : Int) ∧ (times : Int) < 0x100000000 := by omega
  simp only [if_pos hrange, Int.toNat_natCast]

/-- The arguments after the command that ask for a request to be judged a number of times. -/
def requestArguments (request : Request) (times : Nat) : List String :=
  [option "method" request.method, option "path" request.path,
      option "remote-addr" request.remoteAddr] ++
    (request.forwardedFor.map (option "forwarded-for")).toList ++
    [option "repeat" (String.ofList (Text.decimal times))]

theorem ofArguments_requestArguments (request : Request) {times : Nat}
    (htimes : times < 0x100000000) :
    Task.ofArguments "decide" (requestArguments request times) = .ok (.decide request times) := by
  have hcommands : ∀ command ∈ ([] : List String), command.toList.head? ≠ some '-' :=
    fun _ h => nomatch h
  have hrepeat : ∀ options : RequestOptions, options.times = none →
      options.take (.value "repeat" (String.ofList (Text.decimal times))) =
        .ok { options with times := some times } := by
    intro options hnone
    simp [RequestOptions.take, RequestOptions.times?_decimal htimes, hnone, once, Except.map]
  have hscan : scan RequestOptions.switches RequestOptions.take [] {} none
      (requestArguments request times) =
        .ok ({ method := some request.method, path := some request.path,
               remoteAddr := some request.remoteAddr, forwardedFor := request.forwardedFor,
               times := some times }, []) := by
    obtain ⟨method, path, remoteAddr, forwardedFor⟩ := request
    cases forwardedFor with
    | none =>
      simp only [requestArguments, Option.map_none, Option.toList_none, List.append_nil,
        List.cons_append, List.nil_append]
      rw [scan_option (by decide) (by decide) hcommands rfl,
        scan_option (by decide) (by decide) hcommands rfl,
        scan_option (by decide) (by decide) hcommands rfl,
        scan_option (by decide) (by decide) hcommands (hrepeat _ rfl)]
      rfl
    | some value =>
      simp only [requestArguments, Option.map_some, Option.toList_some, List.cons_append,
        List.nil_append]
      rw [scan_option (by decide) (by decide) hcommands rfl,
        scan_option (by decide) (by decide) hcommands rfl,
        scan_option (by decide) (by decide) hcommands rfl,
        scan_option (by decide) (by decide) hcommands rfl,
        scan_option (by decide) (by decide) hcommands (hrepeat _ rfl)]
      rfl
  rw [Task.ofArguments, hscan]
  rfl

/-- The arguments that ask for that under the configuration of a file. -/
def asking (path : String) (request : Request) (times : Nat) : List String :=
  option "config" path :: "decide" :: requestArguments request times

/-- **Every request can be asked for any number of times below 2^32.** -/
theorem ofArguments_asking {path : String} (hpath : path ≠ "") (request : Request) {times : Nat}
    (htimes : times < 0x100000000) :
    Invocation.ofArguments (asking path request times) =
      .ok ⟨{ configPath := some path }, .decide request times⟩ := by
  have hcommands : ∀ command ∈ commands, command.toList.head? ≠ some '-' := by decide
  have hconfig : Settings.take {} (.value "config" path) =
      .ok { configPath := some path } := by
    simp [Settings.take, hpath, once, Except.map]
  have hscan : scan Settings.switches Settings.take commands {} none
      (asking path request times) =
        .ok ({ configPath := some path }, "decide" :: requestArguments request times) := by
    rw [asking, scan_option (by decide) (by decide) hcommands hconfig, scan]
    exact if_pos (by decide)
  rw [Invocation.ofArguments, hscan]
  simp only [ofArguments_requestArguments request htimes]
  rfl

/-! ## Lines -/

theorem newline_notMem_lineText (text : String) : '\n' ∉ (lineText text).toList := by
  rw [lineText, String.toList_ofList]
  intro hmem
  simp only [List.cons_append, List.mem_cons, List.mem_append, List.mem_flatMap,
    List.not_mem_nil, or_false] at hmem
  rcases hmem with hquote | ⟨c, -, hescaped⟩ | hquote
  · exact absurd hquote (by decide)
  · exact newline_notMem_lineEscape c hescaped
  · exact absurd hquote (by decide)

theorem Cell.newline_notMem_written (cell : Cell) : '\n' ∉ cell.written.toList := by
  cases cell with
  | truth value => cases value <;> decide
  | number value =>
    intro hmem
    have hdigits : (Cell.number value).written.toList = Text.decimal value := String.toList_ofList
    rw [hdigits] at hmem
    exact Text.ne_of_mem_decimal hmem (d := '\n') (by decide) rfl
  | text value => exact newline_notMem_lineText value

theorem newline_notMem_append {a b : String} (ha : '\n' ∉ a.toList) (hb : '\n' ∉ b.toList) :
    '\n' ∉ (a ++ b).toList := by
  rw [String.toList_append, List.mem_append, not_or]
  exact ⟨ha, hb⟩

theorem newline_notMem_intercalate {texts : List String} (h : ∀ text ∈ texts, '\n' ∉ text.toList) :
    '\n' ∉ (String.intercalate "," texts).toList := by
  induction texts with
  | nil => decide
  | cons first rest ih =>
    rw [List.forall_mem_cons] at h
    cases rest with
    | nil => simpa using h.1
    | cons second rest =>
      rw [String.intercalate_cons_cons]
      exact newline_notMem_append (newline_notMem_append h.1 (by decide)) (ih h.2)

/-- **What is written as a line is one line.** -/
theorem newline_notMem_line (members : List (String × Cell)) : '\n' ∉ (line members).toList := by
  refine newline_notMem_append (newline_notMem_append (by decide) ?_) (by decide)
  refine newline_notMem_intercalate fun text hmem => ?_
  obtain ⟨⟨name, cell⟩, -, rfl⟩ := List.mem_map.mp hmem
  exact newline_notMem_append (newline_notMem_append (newline_notMem_lineText name) (by decide))
    cell.newline_notMem_written

/-- The line that reports the decision of an attempt. -/
def decisionLine (number : Nat) (decision : Decision) : String :=
  line [("attempt", .number number), ("decision", .text decision.text),
    ("throttled", .truth decision.denies)]

/-- **The text of such a line**: an object whose members tell the number of the attempt, what was
decided, and whether the request was denied. -/
theorem decisionLine_eq (number : Nat) (decision : Decision) :
    decisionLine number decision =
      "\x7b\"attempt\":" ++ toString number ++ ",\"decision\":" ++ lineText decision.text ++
        ",\"throttled\":" ++ (if decision.denies then "true" else "false") ++ "\x7d" := by
  have hattempt : lineText "attempt" = "\"attempt\"" := by decide
  have hdecision : lineText "decision" = "\"decision\"" := by decide
  have hthrottled : lineText "throttled" = "\"throttled\"" := by decide
  have hfront : "\x7b\"attempt\":" = "\x7b" ++ ("\"attempt\"" ++ ":") := by decide
  have hmiddle : ",\"decision\":" = "," ++ ("\"decision\"" ++ ":") := by decide
  have hback : ",\"throttled\":" = "," ++ ("\"throttled\"" ++ ":") := by decide
  simp only [decisionLine, line, List.map_cons, List.map_nil, String.intercalate_cons_cons,
    String.intercalate_singleton, Cell.written, hattempt, hdecision, hthrottled, hfront, hmiddle,
    hback, String.append_assoc]

/-! ## Attempts in a row -/

section

variable (policy : Policy) (engine : Engine) (request : Request) (clock : Nat → Nat)

/-- The store after so many attempts, each at its instant of the clock. -/
def storeBefore (earlier : Nat) : Memory :=
  stateAfter (attemptAt policy engine request) clock {} earlier

theorem storeBefore_succ (earlier : Nat) :
    storeBefore policy engine request clock (earlier + 1) =
      (attemptAt policy engine request (earlier + 1) (clock earlier)
        (storeBefore policy engine request clock earlier)).2 := rfl

/-- Every attempt finds the windows of all counters open. -/
def WithinWindows (times : Nat) : Prop :=
  ∀ earlier < times,
    (storeBefore policy engine request clock earlier).table.AllOpen (clock earlier)

end

variable {policy : Policy} {engine : Engine} {request : Request} {clock : Nat → Nat} {times : Nat}

/-- How an attempt goes: the request is judged over the store at the instant of the attempt. -/
theorem attemptAt_of_judges {number instant : Nat} {memory after : Memory} {decision : Decision}
    {hits : List Operation}
    (h : Engine.Judges engine policy request { memory with now := instant } decision hits after) :
    attemptAt policy engine request number instant memory = (⟨number, .ok decision⟩, after) := by
  rw [attemptAt, h.run_judge]

/-- **Attempts that are no further apart than the periods of the rules fall inside the windows.** -/
theorem withinWindows_of_periods
    (h : ∀ later < times, ∀ earlier < later,
      ∀ rule ∈ policy.matching request.path request.method,
        clock later < clock earlier + rule.period.nanos) :
    WithinWindows policy engine request clock times := by
  intro later hlater
  suffices hopen : ∀ earlier ≤ later,
      (storeBefore policy engine request clock earlier).table.AllOpen (clock later) from
    hopen later (Nat.le_refl later)
  intro earlier hle
  induction earlier with
  | zero => exact Counters.allOpen_empty _
  | succ earlier ih =>
    have hopen := ih (Nat.le_of_succ_le hle)
    obtain ⟨decision, hits, after, hjudges⟩ := Engine.Judges.exists_judges engine policy request
      { storeBefore policy engine request clock earlier with now := clock earlier }
    rw [storeBefore_succ, attemptAt_of_judges hjudges]
    cases hjudges with
    | safelisted hs => exact hopen
    | blocked hs hb => exact hopen
    | unlisted hs hb hevaluates => exact hevaluates.allOpen hopen (h later hlater earlier hle)

/-- **What the attempts before one have left**, when the client is on no list and they all fall
inside the windows. -/
theorem stands_storeBefore (hs : policy.access.isSafelisted (engine.client request) = false)
    (hb : policy.access.isBlocked (engine.client request) = false)
    (hwithin : WithinWindows policy engine request clock times) {earlier : Nat}
    (hle : earlier ≤ times) :
    Decision.Stands (engine.client request) request.path
      (policy.matching request.path request.method) earlier
      (storeBefore policy engine request clock earlier).table := by
  induction earlier with
  | zero => exact .empty _ _ _
  | succ earlier ih =>
    obtain ⟨decision, hits, after, hjudges⟩ := Engine.Judges.exists_judges engine policy request
      { storeBefore policy engine request clock earlier with now := clock earlier }
    rw [storeBefore_succ, attemptAt_of_judges hjudges]
    have hevaluates := hjudges.evaluates_of_unlisted hs hb
    refine (Decision.Stands.next ?_ ?_ hevaluates).2
    · exact ih (Nat.le_of_succ_le hle)
    · exact hwithin earlier hle

/-! ## The program -/

section

variable {arguments : List String} {file : String → Config.Source}
  {environment : List (String × String)} {reach : String → Except String Redis.Connection}
  {settings : Settings} {config : Config}

/-- What the program is asked to do is planned under the configuration, and carried out. -/
theorem run_eq_of_load {task : Task}
    (harguments : Invocation.ofArguments arguments = .ok ⟨settings, task⟩)
    (hload : Config.load (settings.source file) environment = .ok config) :
    run arguments file environment reach clock = .ofPlan clock (task.plan reach config) := by
  simp only [run, harguments, Invocation.plan, hload]

/-- The lines of attempts from the first one on. -/
theorem map_report_attemptsAt {σ : Type} (attempt : Nat → Nat → σ → Attempt × σ) (start : σ) :
    (attemptsAt attempt 0 ((List.range times).map clock) start).map Attempt.report =
      (List.range times).map fun earlier =>
        (attempt (earlier + 1) (clock earlier)
          (stateAfter attempt clock start earlier)).1.report := by
  have hmap := attemptsAt_eq_map attempt clock start 0 times
  rw [← List.range_eq_range'] at hmap
  rw [show start = stateAfter attempt clock start 0 from rfl, hmap, List.map_map]
  rfl

/-- What the program prints when it judges a request over a store in memory. -/
theorem run_eq_of_memory
    (harguments : Invocation.ofArguments arguments = .ok ⟨settings, .decide request times⟩)
    (hload : Config.load (settings.source file) environment = .ok config)
    (hbackend : config.storage.backend = .memory) (hpolicy : config.buildPolicy = .ok policy) :
    run arguments file environment reach clock =
      { lines := (List.range times).map fun earlier =>
          (attemptAt policy config.engine request (earlier + 1) (clock earlier)
            (storeBefore policy config.engine request clock earlier)).1.report } := by
  rw [run_eq_of_load harguments hload]
  simp only [Task.plan, hpolicy, hbackend, Outcome.ofPlan, Plan.lines, map_report_attemptsAt]
  rfl

/-- **Over a shared server** the program ends with the fault of reaching it, or prints a line for
each attempt, in order and with its number, over what the attempts before it have left there. -/
theorem run_eq_of_shared
    (harguments : Invocation.ofArguments arguments = .ok ⟨settings, .decide request times⟩)
    (hload : Config.load (settings.source file) environment = .ok config)
    (hbackend : config.storage.backend = .redis) (hpolicy : config.buildPolicy = .ok policy) :
    run arguments file environment reach clock =
      match connect reach config.storage.redisUrl with
      | .error fault => { exitCode := 1, error := some (.storage fault) }
      | .ok connection =>
        let attempt := sharedAttemptAt connection policy config.engine request
        { lines := (List.range times).map fun earlier =>
            (attempt (earlier + 1) (clock earlier)
              (stateAfter attempt clock connection.found earlier)).1.report } := by
  rw [run_eq_of_load harguments hload]
  cases hconnect : connect reach config.storage.redisUrl with
  | error fault => simp only [Task.plan, hpolicy, hbackend, hconnect, Outcome.ofPlan]
  | ok connection =>
    simp only [Task.plan, hpolicy, hbackend, hconnect, Outcome.ofPlan, Plan.lines,
      map_report_attemptsAt]

end

/-- What holds of all later attempts once it holds of one holds from some attempt on. -/
theorem exists_threshold {denied : Nat → Prop} (hmono : ∀ a b, a ≤ b → denied a → denied b)
    (times : Nat) : ∃ admitted ≤ times, ∀ a < times, denied a ↔ admitted ≤ a := by
  induction times with
  | zero => exact ⟨0, Nat.le_refl 0, fun _ h => nomatch h⟩
  | succ times ih =>
    obtain ⟨admitted, hle, hthreshold⟩ := ih
    by_cases hlast : denied times
    · refine ⟨admitted, Nat.le_succ_of_le hle, fun a ha => ?_⟩
      rcases Nat.lt_succ_iff_lt_or_eq.mp ha with hlt | rfl
      · exact hthreshold a hlt
      · exact iff_of_true hlast hle
    · refine ⟨times + 1, Nat.le_refl _, fun a ha => ?_⟩
      exact iff_of_false (fun h => hlast (hmono a times (Nat.le_of_lt_succ ha) h))
        (Nat.not_le_of_lt ha)

/-- **A request that is repeated on the command line.** Let a configuration with the store in memory
build a policy, and let the arguments ask for a request to be judged so many times. The program then
prints a line for each attempt, in order, and nothing else, whatever servers could be reached. A
line is an object that tells the number of the attempt, what was decided, and whether the request
was denied. A client on a list is told the same at every attempt. For any other client, and as long
as all attempts fall inside the windows of the counters, an attempt is denied exactly if it exceeds
the limit of a rule that applies; so some attempts are let through, and all after them are denied.
-/
theorem repeated_request (clock : Nat → Nat) (reach : String → Except String Redis.Connection)
    {arguments : List String} {file : String → Config.Source}
    {environment : List (String × String)} {settings : Settings} {config : Config}
    (harguments : Invocation.ofArguments arguments = .ok ⟨settings, .decide request times⟩)
    (hload : Config.load (settings.source file) environment = .ok config)
    (hbackend : config.storage.backend = .memory) (hpolicy : config.buildPolicy = .ok policy) :
    List.Forall₂ RuleConfig.Describes config.rules policy.rules ∧
      ∃ decision : Nat → Decision,
        run arguments file environment reach clock =
          { lines := (List.range times).map fun a => decisionLine (a + 1) (decision a) } ∧
        (∀ a, '\n' ∉ (decisionLine (a + 1) (decision a)).toList) ∧
        (∀ a, decisionLine (a + 1) (decision a) =
          "\x7b\"attempt\":" ++ toString (a + 1) ++ ",\"decision\":" ++
            lineText (decision a).text ++ ",\"throttled\":" ++
            (if (decision a).denies then "true" else "false") ++ "\x7d") ∧
        (policy.access.isSafelisted (config.engine.client request) = true →
          ∀ a, decision a = .safelisted) ∧
        (policy.access.isSafelisted (config.engine.client request) = false →
          policy.access.isBlocked (config.engine.client request) = true →
          ∀ a, decision a = .blocked) ∧
        (policy.access.isSafelisted (config.engine.client request) = false →
          policy.access.isBlocked (config.engine.client request) = false →
          WithinWindows policy config.engine request clock times →
          (∀ a < times, (decision a).denies = true ↔
            Decision.Exceeds (config.engine.client request) request.path
              (policy.matching request.path request.method) a) ∧
          ∃ admitted ≤ times, ∀ a < times, (decision a).denies = true ↔ admitted ≤ a) := by
  have hjudged : ∀ a, ∃ decision hits after, Engine.Judges config.engine policy request
      { storeBefore policy config.engine request clock a with now := clock a } decision hits
        after := fun a => Engine.Judges.exists_judges config.engine policy request _
  choose decision hits after hjudges using hjudged
  have hreport : ∀ a, (attemptAt policy config.engine request (a + 1) (clock a)
      (storeBefore policy config.engine request clock a)).1.report =
        decisionLine (a + 1) (decision a) := by
    intro a
    rw [attemptAt_of_judges (hjudges a)]
    rfl
  refine ⟨(Config.describes_and_changed_of_buildPolicy hpolicy).1, decision, ?_,
    fun a => newline_notMem_line _, fun a => decisionLine_eq _ _,
    fun hs a => (hjudges a).eq_safelisted hs, fun hs hb a => (hjudges a).eq_blocked hs hb,
    fun hs hb hwithin => ?_⟩
  · rw [run_eq_of_memory harguments hload hbackend hpolicy]
    simp only [hreport]
  · have hexceeds : ∀ a < times, (decision a).denies = true ↔
        Decision.Exceeds (config.engine.client request) request.path
          (policy.matching request.path request.method) a := by
      intro a ha
      have hstands := stands_storeBefore hs hb hwithin (Nat.le_of_lt ha)
      have hevaluates := (hjudges a).evaluates_of_unlisted hs hb
      refine (Decision.Stands.next ?_ ?_ hevaluates).1
      · exact hstands
      · exact hwithin a ha
    refine ⟨hexceeds, ?_⟩
    obtain ⟨admitted, hle, hthreshold⟩ :=
      exists_threshold (fun a b hab (h : Decision.Exceeds _ _ _ a) => h.mono hab) times
    exact ⟨admitted, hle, fun a ha => (hexceeds a ha).trans (hthreshold a ha)⟩

/-- Two rules on one counter for all clients. -/
def shared : Config :=
  { rules := [{ key := "shared", limit := 4, periodSecs := 60 },
      { key := "shared", limit := 3, periodSecs := 60 }] }

/-- The second of the two rules breaches at the second attempt, and the first one at the third. -/
theorem repeated_request_on_shared_counter :
    ∃ decision : Nat → Decision,
      run (asking "policy.yaml" { remoteAddr := "10.0.0.1:80" } 3)
          (fun _ => .file (shared.document .plain)) [] (fun _ => .error "Connection refused")
          (fun earlier => earlier * 1000) =
        { lines := (List.range 3).map fun a => decisionLine (a + 1) (decision a) } ∧
      (decision 0).denies = false ∧ (decision 1).denies = true ∧ (decision 2).denies = true := by
  let request : Request := { remoteAddr := "10.0.0.1:80" }
  let policy : Policy :=
    { rules := [Engine.sharedRule 4 (by decide), Engine.sharedRule 3 (by decide)] }
  have hload : Config.load (Settings.source { configPath := some "policy.yaml" }
      fun _ => .file (shared.document .plain)) [] = .ok shared := by
    have hloaded : shared.loaded = shared := by decide +kernel
    rw [← hloaded]
    exact Config.load_of_tree (Config.ofString?_document .plain shared) fun _ h => nomatch h
  have hpolicy : shared.buildPolicy = .ok policy := by rfl
  have hs : policy.access.isSafelisted (shared.engine.client request) = false := by decide +kernel
  have hb : policy.access.isBlocked (shared.engine.client request) = false := by decide +kernel
  have hwithin : WithinWindows policy shared.engine request (fun earlier => earlier * 1000) 3 :=
    withinWindows_of_periods (by decide +kernel)
  have harguments := ofArguments_asking (show "policy.yaml" ≠ "" by decide) request
    (show 3 < 0x100000000 by decide)
  obtain ⟨-, decision, hrun, -, -, -, -, hdecided⟩ :=
    repeated_request (fun earlier => earlier * 1000) (fun _ => .error "Connection refused")
      harguments hload rfl hpolicy
  obtain ⟨hexceeds, -⟩ := hdecided hs hb hwithin
  refine ⟨decision, hrun, ?_, ?_, ?_⟩
  · rw [← Bool.not_eq_true, hexceeds 0 (by decide)]
    rintro ⟨place, rule, hplace, hlimit⟩
    rcases place with _ | _ | place
    · obtain rfl := Option.some.inj hplace
      exact absurd hlimit (by decide +kernel)
    · obtain rfl := Option.some.inj hplace
      exact absurd hlimit (by decide +kernel)
    · cases hplace
  · exact (hexceeds 1 (by decide)).mpr ⟨1, Engine.sharedRule 3 (by decide), rfl, by decide +kernel⟩
  · exact (hexceeds 2 (by decide)).mpr ⟨0, Engine.sharedRule 4 (by decide), rfl, by decide +kernel⟩

end Admission.CommandLine
