import Admission.CommandLine.Program
/-!
# The command line

The outer layer of the program: it reads the arguments, the environment and the configuration file,
takes the time, and prints. What is printed is decided by `Admission.CommandLine`.
-/

namespace Admission.CommandLine

/-- The first layer of the configuration from the file at a path. -/
def readSource (path : String) : IO Config.Source := do
  try
    let bytes ← IO.FS.readBinFile path
    match String.fromUTF8? bytes with
    | some text => return .file text
    | none => return .unreadable
  catch _ => return .unreadable

/-- The entries of an environment: names and values, each entry ended by a zero byte. -/
def environmentOf (text : String) : List (String × String) :=
  (text.splitOn "\x00").filterMap fun entry =>
    match entry.splitOn "=" with
    | name :: value :: rest => some (name, String.intercalate "=" (value :: rest))
    | _ => none

/-- The variables of the environment. -/
def readEnvironment : IO (List (String × String)) := do
  try
    let bytes ← IO.FS.readBinFile "/proc/self/environ"
    return environmentOf ((String.fromUTF8? bytes).getD "")
  catch _ => return []

/-- Makes attempts as time goes by. -/
def printAttempts {σ : Type} (attempt : Nat → Nat → σ → Attempt × σ) (start : Nat) :
    Nat → Nat → σ → IO Unit
  | _, 0, _ => pure ()
  | done, left + 1, state => do
    let now ← IO.monoNanosNow
    let (made, after) := attempt (done + 1) (now - start) state
    IO.println made.report
    printAttempts attempt start (done + 1) left after

/-- Carries a plan out. -/
def Plan.perform (plan : Plan) : IO Unit := do
  match plan with
  | .summarize policy => IO.println (summary policy)
  | .attempt policy engine request times =>
    printAttempts (attemptAt policy engine request) (← IO.monoNanosNow) 0 times {}
  | .attemptShared connection policy engine request times =>
    printAttempts (sharedAttemptAt connection policy engine request) (← IO.monoNanosNow) 0 times
      connection.found

/-- No shared server is reached: this layer opens no connections. -/
def reachNothing (_ : String) : Except String Redis.Connection :=
  .error "Connection refused (os error 111)"

/-- Runs the program with its arguments and tells its exit code. -/
def start (arguments : List String) : IO UInt32 := do
  match Invocation.ofArguments arguments with
  | .error .version =>
    IO.println versionLine
    return 0
  | .error .help =>
    helpLines.forM fun line => IO.println line
    return 0
  | .error (.usage fault) =>
    IO.eprintln ("error: " ++ fault.text)
    return 2
  | .ok invocation =>
    let source ← match invocation.settings.configPath with
      | some path => readSource path
      | none => pure .nowhere
    match invocation.plan reachNothing source (← readEnvironment) with
    | .error error =>
      IO.eprintln ("Error: " ++ error.message)
      return 1
    | .ok plan =>
      plan.perform
      return 0

end Admission.CommandLine

/-- The entry of the program. -/
def main (arguments : List String) : IO UInt32 := Admission.CommandLine.start arguments
