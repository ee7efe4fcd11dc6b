import Admission.CommandLine.Arguments
import Admission.Request
import Admission.Text.Numeral
/-!
# Invocations

What the arguments of the program ask for: a summary of the configured policy, or the judgement of
a request a number of times. Options of the program stand before the command and those of a command
after it; none may be given twice.
-/

namespace Admission.CommandLine

/-- What a command is to do. -/
inductive Task where
  /-- Check the configuration and sum it up. -/
  | check
  /-- Judge a request a number of times. -/
  | decide (request : Request) (times : Nat)
  deriving DecidableEq, Repr

/-- The options of the program. -/
structure Settings where
  configPath : Option String := none
  jsonLogs : Bool := false
  deriving DecidableEq, Repr

/-- What is asked of the program. -/
structure Invocation where
  settings : Settings := {}
  task : Task
  deriving DecidableEq, Repr

/-- The value of an option that may be given once. -/
def once {α : Type} (name : String) (current : Option α) (value : α) : Except Stop (Option α) :=
  match current with
  | some _ => .error (.usage (.repeated name))
  | none => .ok (some value)

/-- Asking for help is an option of the program and of each command. -/
def helpSwitch : Switch := { long := "help", short := some 'h' }

/-! ## Options of the program -/

namespace Settings

/-- The options of the program. -/
def switches : List Switch :=
  [{ long := "config", short := some 'c', takesValue := true }, { long := "log-json" }, helpSwitch,
    { long := "version", short := some 'V' }]

/-- Takes an option into account. -/
def take (settings : Settings) : Given → Except Stop Settings
  | .value "config" path =>
    if path = "" then .error (.usage (.valueMissing "config"))
    else (once "config" settings.configPath path).map fun configPath => { settings with configPath }
  | .flag "log-json" =>
    if settings.jsonLogs then .error (.usage (.repeated "log-json"))
    else .ok { settings with jsonLogs := true }
  | .flag "version" => .error .version
  | .flag _ => .error .help
  | .value name _ => .error (.usage (.unexpected name))

end Settings

/-! ## Options of the commands -/

/-- The options of the judgement of a request, as far as they were given. -/
structure RequestOptions where
  method : Option String := none
  path : Option String := none
  remoteAddr : Option String := none
  forwardedFor : Option String := none
  times : Option Nat := none
  deriving DecidableEq, Repr

namespace RequestOptions

/-- The options of the judgement of a request. -/
def switches : List Switch :=
  [{ long := "method", takesValue := true }, { long := "path", takesValue := true },
    { long := "remote-addr", takesValue := true }, { long := "forwarded-for", takesValue := true },
    { long := "repeat", takesValue := true }, helpSwitch]

/-- The number of times in the value of an option: below 2^32. -/
def times? (text : String) : Option Nat :=
  match Text.signed64? 10 text.toList with
  | some value => if 0 ≤ value ∧ value < 0x100000000 then some value.toNat else none
  | none => none

/-- Takes an option into account. -/
def take (options : RequestOptions) : Given → Except Stop RequestOptions
  | .value "method" text =>
    (once "method" options.method text).map fun method => { options with method }
  | .value "path" text => (once "path" options.path text).map fun path => { options with path }
  | .value "remote-addr" text =>
    (once "remote-addr" options.remoteAddr text).map fun remoteAddr => { options with remoteAddr }
  | .value "forwarded-for" text =>
    (once "forwarded-for" options.forwardedFor text).map fun forwardedFor =>
      { options with forwardedFor }
  | .value "repeat" text =>
    match times? text with
    | some value => (once "repeat" options.times value).map fun times => { options with times }
    | none => .error (.usage (.valueInvalid "repeat" text))
  | .value name _ => .error (.usage (.unexpected name))
  | .flag _ => .error .help

/-- The judgement that the options describe; the address of the peer has to be there. -/
def task (options : RequestOptions) : Except Stop Task :=
  match options.remoteAddr with
  | none => .error (.usage (.optionMissing "remote-addr"))
  | some remoteAddr =>
    let request : Request := {
      method := options.method.getD "GET"
      path := options.path.getD "/"
      remoteAddr
      forwardedFor := options.forwardedFor }
    .ok (.decide request (options.times.getD 1))

end RequestOptions

/-! ## The whole -/

/-- The names of the commands. -/
def commands : List String := ["check", "decide", "help"]

/-- Reads the arguments of a command. -/
def Task.ofArguments (command : String) (arguments : List String) : Except Stop Task :=
  match command with
  | "check" =>
    match scan [helpSwitch] (fun _ _ => .error .help) [] () none arguments with
    | .error stop => .error stop
    | .ok _ => .ok .check
  | "decide" =>
    match scan RequestOptions.switches RequestOptions.take [] {} none arguments with
    | .error stop => .error stop
    | .ok (options, _) => options.task
  | _ =>
    match arguments with
    | [] => .error .help
    | [name] => .error (if commands.contains name then .help else .usage (.unexpected name))
    | name :: _ => .error (.usage (.unexpected name))

/-- Reads the arguments of the program. -/
def Invocation.ofArguments (arguments : List String) : Except Stop Invocation :=
  match scan Settings.switches Settings.take commands {} none arguments with
  | .error stop => .error stop
  | .ok (_, []) => .error (.usage .commandMissing)
  | .ok (settings, command :: arguments) =>
    (Task.ofArguments command arguments).map fun task => { settings, task }

end Admission.CommandLine
