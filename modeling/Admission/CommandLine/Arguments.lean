/-!
# Arguments

The grammar of a command line: options with and without values, and commands. An option has a long
name after two dashes and may have a letter after one dash; letters may stand together. The value of
an option stands after `=`, or right after its letter, or in the next argument unless that begins
with a dash. Two dashes alone end the options, and nothing may follow them.

`scan` reads arguments up to the first command and gives each option to a function that takes it
into account, so that an option which stops everything acts where it stands. The recursion is on
the arguments, and within an argument on its letters.
-/

namespace Admission.CommandLine

/-! ## Outcomes -/

/-- What is wrong with arguments. -/
inductive UsageFault where
  | unexpected (argument : String)
  | valueMissing (option : String)
  | valueInvalid (option : String) (value : String)
  | repeated (option : String)
  | optionMissing (option : String)
  | commandMissing
  deriving DecidableEq, Repr

/-- The wording of a fault of arguments. -/
def UsageFault.text : UsageFault → String
  | unexpected argument => "unexpected argument '" ++ argument ++ "'"
  | valueMissing option => "a value is required for '--" ++ option ++ "'"
  | valueInvalid option value => "invalid value '" ++ value ++ "' for '--" ++ option ++ "'"
  | repeated option => "the argument '--" ++ option ++ "' cannot be used multiple times"
  | optionMissing option => "the argument '--" ++ option ++ "' was not provided"
  | commandMissing => "a command is required"

/-- Why the reading of arguments stopped. -/
inductive Stop where
  | usage (fault : UsageFault)
  | version
  | help
  deriving DecidableEq, Repr

/-! ## Options -/

/-- An option that can be given. -/
structure Switch where
  long : String
  short : Option Char := none
  takesValue : Bool := false

/-- An option that was given. -/
inductive Given where
  | flag (name : String)
  | value (name : String) (text : String)
  deriving DecidableEq, Repr

/-- The shapes that an argument can have. -/
inductive Shape where
  /-- Two dashes alone. -/
  | dashes
  /-- Two dashes, a name and perhaps `=` and a value. -/
  | long (name : String) (value : Option String)
  /-- A dash and letters. -/
  | short (letters : List Char)
  /-- Anything else. -/
  | word
  deriving DecidableEq, Repr

/-- The shape of an argument. -/
def Shape.ofChars : List Char → Shape
  | ['-'] => word
  | ['-', '-'] => dashes
  | '-' :: '-' :: text =>
    let name := String.ofList (text.takeWhile (· ≠ '='))
    match text.dropWhile (· ≠ '=') with
    | [] => long name none
    | _ :: value => long name (some (String.ofList value))
  | '-' :: letters => short letters
  | _ => word

/-- The shape of an argument. -/
def Shape.ofString (argument : String) : Shape := ofChars argument.toList

/-! ## Reading -/

section

variable {σ : Type} (switches : List Switch) (take : σ → Given → Except Stop σ)

/-- Reads letters that stand together. The result tells the option that still awaits its value. -/
def scanLetters : σ → List Char → Except Stop (σ × Option String)
  | state, [] => .ok (state, none)
  | state, letter :: letters =>
    match switches.find? fun switch => switch.short == some letter with
    | none => .error (.usage (.unexpected (String.ofList ['-', letter])))
    | some switch =>
      if switch.takesValue then
        match letters with
        | [] => .ok (state, some switch.long)
        | '=' :: value =>
          (take state (.value switch.long (String.ofList value))).map fun state => (state, none)
        | value =>
          (take state (.value switch.long (String.ofList value))).map fun state => (state, none)
      else
        match take state (.flag switch.long) with
        | .error stop => .error stop
        | .ok state => scanLetters state letters

/-- Reads one argument. The result tells the option that still awaits its value. -/
def scanOption (state : σ) (argument : String) : Except Stop (σ × Option String) :=
  match Shape.ofString argument with
  | .short letters => scanLetters switches take state letters
  | .long name value =>
    match switches.find? fun switch => switch.long == name with
    | none => .error (.usage (.unexpected argument))
    | some switch =>
      match switch.takesValue, value with
      | true, some value => (take state (.value name value)).map fun state => (state, none)
      | true, none => .ok (state, some name)
      | false, some _ => .error (.usage (.unexpected argument))
      | false, none => (take state (.flag name)).map fun state => (state, none)
  | _ => .error (.usage (.unexpected argument))

/-- Reads arguments up to the first command, which begins the arguments that are left. An option may
await its value in the first argument. -/
def scan (commands : List String) :
    σ → Option String → List String → Except Stop (σ × List String)
  | state, none, [] => .ok (state, [])
  | _, some option, [] => .error (.usage (.valueMissing option))
  | state, some option, argument :: rest =>
    if Shape.ofString argument = .word then
      match take state (.value option argument) with
      | .error stop => .error stop
      | .ok state => scan commands state none rest
    else .error (.usage (.valueMissing option))
  | state, none, argument :: rest =>
    if commands.contains argument then .ok (state, argument :: rest)
    -- two dashes end the options, and no words are taken after them
    else if Shape.ofString argument = .dashes ∧ rest = [] then .ok (state, [])
    else
      match scanOption switches take state argument with
      | .error stop => .error stop
      | .ok (state, awaiting) => scan commands state awaiting rest

end

end Admission.CommandLine
