import Admission.CommandLine.Invocation
import Admission.CommandLine.Report
import Admission.Config.Layers
import Admission.Redis.Client
import Admission.Redis.Endpoint
import Admission.Store.Memory
/-!
# The program

The configuration is loaded and the policy is built before a command runs, so a fault of either
comes before anything is printed. A request is judged once for each instant of a list, over a store
in memory that starts empty or over a shared server. The server has to be reached first; how that
goes is not up to the program, so a way to reach servers by their URLs is given to it.

Main statement: `attemptsAt_eq_map` (there is an attempt for each instant, with its number, and it
is made over what those before it have left).
-/

namespace Admission.CommandLine

open Store

/-! ## Attempts -/

/-- Judges a request at an instant. -/
def attemptAt (policy : Policy) (engine : Engine) (request : Request) (number instant : Nat)
    (memory : Memory) : Attempt × Memory :=
  let run := (engine.judge policy request).run Memory.store { memory with now := instant }
  (⟨number, run.result⟩, run.state)

/-- Judges a request at an instant over a shared server. -/
def sharedAttemptAt (connection : Redis.Connection) (policy : Policy) (engine : Engine)
    (request : Request) (number instant : Nat) (state : connection.State) :
    Attempt × connection.State :=
  let increment := connection.server.increment engine.timeout
  let (outcome, after) :=
    (policy.judge increment (engine.client request) request.path request.method).run
      (connection.meanwhile instant state)
  (⟨number, outcome⟩, after)

/-- Makes an attempt at each instant of a list; the first attempt has the number after `done`. -/
def attemptsAt {σ : Type} (attempt : Nat → Nat → σ → Attempt × σ) :
    Nat → List Nat → σ → List Attempt
  | _, [], _ => []
  | done, instant :: rest, state =>
    let (made, after) := attempt (done + 1) instant state
    made :: attemptsAt attempt (done + 1) rest after

/-- What so many attempts leave, each at its instant of the clock. -/
def stateAfter {σ : Type} (attempt : Nat → Nat → σ → Attempt × σ) (clock : Nat → Nat) (start : σ) :
    Nat → σ
  | 0 => start
  | done + 1 => (attempt (done + 1) (clock done) (stateAfter attempt clock start done)).2

/-- **There is an attempt for each instant, over what those before it have left**, and the attempts
are numbered in a row. -/
theorem attemptsAt_eq_map {σ : Type} (attempt : Nat → Nat → σ → Attempt × σ) (clock : Nat → Nat)
    (start : σ) (done times : Nat) :
    attemptsAt attempt done ((List.range' done times).map clock)
        (stateAfter attempt clock start done) =
      (List.range' done times).map fun earlier =>
        (attempt (earlier + 1) (clock earlier) (stateAfter attempt clock start earlier)).1 := by
  induction times generalizing done with
  | zero => rfl
  | succ times ih =>
    rw [List.range'_succ, List.map_cons, List.map_cons, attemptsAt]
    exact congrArg _ (ih (done + 1))

/-! ## Running -/

/-- What is left to do when the configuration is loaded. -/
inductive Plan where
  | summarize (policy : Policy)
  | attempt (policy : Policy) (engine : Engine) (request : Request) (times : Nat)
  | attemptShared (connection : Redis.Connection) (policy : Policy) (engine : Engine)
    (request : Request) (times : Nat)

section

variable (reach : String → Except String Redis.Connection)

/-- Connects to the shared server at a URL, which is checked before anything is reached. -/
def connect (url : String) : Except StorageFault Redis.Connection :=
  match Redis.Endpoint.ofUrl url with
  | .ok _ => (reach url).mapError .reported
  | .error fault => .error (.reported fault.text)

/-- What a task comes to under a configuration. -/
def Task.plan (task : Task) (config : Config) : Except Error Plan :=
  match config.buildPolicy with
  | .error error => .error error
  | .ok policy =>
    match task with
    | .check => .ok (.summarize policy)
    | .decide request times =>
      match config.storage.backend with
      | .memory => .ok (.attempt policy config.engine request times)
      | .redis =>
        match connect reach config.storage.redisUrl with
        | .ok connection => .ok (.attemptShared connection policy config.engine request times)
        | .error fault => .error (.storage fault)

/-- What an invocation comes to, with the layers of the configuration. -/
def Invocation.plan (invocation : Invocation) (source : Config.Source)
    (environment : List (String × String)) : Except Error Plan :=
  match Config.load source environment with
  | .error error => .error error
  | .ok config => invocation.task.plan reach config

end

/-- The lines that a plan prints when its attempts fall at the instants that a clock gives them. -/
def Plan.lines (plan : Plan) (clock : Nat → Nat) : List String :=
  let instants (times : Nat) := (List.range times).map clock
  match plan with
  | .summarize policy => [summary policy]
  | .attempt policy engine request times =>
    (attemptsAt (attemptAt policy engine request) 0 (instants times) {}).map Attempt.report
  | .attemptShared connection policy engine request times =>
    (attemptsAt (sharedAttemptAt connection policy engine request) 0 (instants times)
      connection.found).map Attempt.report

/-- The name and the version of the program. -/
def versionLine : String := "gatekeeper 0.1.0"

/-- What the program tells about its use. -/
def helpLines : List String :=
  ["Usage: gatekeeper [-c|--config FILE] [--log-json] check",
   "       gatekeeper [-c|--config FILE] [--log-json] decide --remote-addr ADDRESS",
   "                  [--method METHOD] [--path PATH] [--forwarded-for VALUE] [--repeat NUMBER]",
   "       gatekeeper --version"]

/-- How the program ends. -/
structure Outcome where
  exitCode : Nat := 0
  lines : List String := []
  error : Option Error := none

/-- Where the options of the program tell it to look for its configuration. -/
def Settings.source (settings : Settings) (file : String → Config.Source) : Config.Source :=
  match settings.configPath with
  | some path => file path
  | none => .nowhere

/-- How the program ends with what an invocation comes to. -/
def Outcome.ofPlan (clock : Nat → Nat) : Except Error Plan → Outcome
  | .error error => { exitCode := 1, error := some error }
  | .ok plan => { lines := plan.lines clock }

/-- Runs the program. Files are given by their paths and shared servers by their URLs, and attempts
fall at the instants of a clock. -/
def run (arguments : List String) (file : String → Config.Source)
    (environment : List (String × String)) (reach : String → Except String Redis.Connection)
    (clock : Nat → Nat) : Outcome :=
  match Invocation.ofArguments arguments with
  | .error .version => { lines := [versionLine] }
  | .error .help => { lines := helpLines }
  | .error (.usage _) => { exitCode := 2 }
  | .ok invocation =>
    .ofPlan clock (invocation.plan reach (invocation.settings.source file) environment)

end Admission.CommandLine
