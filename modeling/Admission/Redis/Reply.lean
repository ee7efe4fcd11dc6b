import Admission.Text.Blank
import Admission.Text.Fields
import Admission.Text.Numeral
import Admission.Text.Quoted
/-!
# Replies of a shared server

What a server answers to a command: nothing, a number, a text, a list of replies, or a failure. A
reply is sent as a mark and a line; a bulk text is preceded by its size in bytes, and a list by the
number of its replies.

`Reply.ofString?` reads what was sent, and `Reply.number` is the one place where a reply becomes a
count. Reading recurs on the depth of the lists, for which the length of the text is enough.
-/

namespace Admission.Redis

/-! ## Failures -/

/-- The failures that a server names by codes of its own. -/
inductive FailureKind where
  | response
  | execAbort
  | busyLoading
  | noScript
  | moved
  | ask
  | tryAgain
  | clusterDown
  | crossSlot
  | masterDown
  | readOnly
  | notBusy
  deriving DecidableEq, Repr

namespace FailureKind

/-- The code that a server sends. -/
def code : FailureKind → String
  | response => "ERR"
  | execAbort => "EXECABORT"
  | busyLoading => "LOADING"
  | noScript => "NOSCRIPT"
  | moved => "MOVED"
  | ask => "ASK"
  | tryAgain => "TRYAGAIN"
  | clusterDown => "CLUSTERDOWN"
  | crossSlot => "CROSSSLOT"
  | masterDown => "MASTERDOWN"
  | readOnly => "READONLY"
  | notBusy => "NOTBUSY"

/-- The name by which a failure is reported. -/
def name : FailureKind → String
  | response => "ResponseError"
  | execAbort => "ExecAbortError"
  | busyLoading => "BusyLoadingError"
  | noScript => "NoScriptError"
  | moved => "Moved"
  | ask => "Ask"
  | tryAgain => "TryAgain"
  | clusterDown => "ClusterDown"
  | crossSlot => "CrossSlot"
  | masterDown => "MasterDown"
  | readOnly => "ReadOnly"
  | notBusy => "NotBusy"

/-- All failures that have codes. -/
def all : List FailureKind :=
  [response, execAbort, busyLoading, noScript, moved, ask, tryAgain, clusterDown, crossSlot,
    masterDown, readOnly, notBusy]

/-- The failure with a code. -/
def ofCode? (code : String) : Option FailureKind := all.find? fun kind => kind.code == code

end FailureKind

/-- A failure as a server reports it. -/
inductive Failure where
  | known (kind : FailureKind) (detail : Option String)
  | other (code : String) (detail : Option String)
  deriving DecidableEq, Repr

namespace Failure

/-- The failure in the line of a reply: a code and, after a space, the detail. -/
def ofLine (line : List Char) : Failure :=
  let code := String.ofList (line.takeWhile (· ≠ ' '))
  let detail := match line.dropWhile (· ≠ ' ') with
    | [] => none
    | _ :: rest => some (String.ofList rest)
  match FailureKind.ofCode? code with
  | some kind => known kind detail
  | none => other code detail

/-- The wording of a failure. -/
def text : Failure → String
  | known kind (some detail) =>
    "An error was signalled by the server - " ++ kind.name ++ ": " ++ detail
  | known kind none => "An error was signalled by the server- " ++ kind.name
  | other code (some detail) => code ++ ": " ++ detail
  | other code none => code ++ ": Unknown extension error encountered"

end Failure

/-! ## Replies -/

/-- A reply to a command. -/
inductive Reply where
  | nil
  | okay
  | integer (value : Int)
  | simple (text : String)
  | bulk (text : String)
  | list (items : List Reply)
  | failure (failure : Failure)

namespace Reply

mutual

/-- A reply as it is shown in errors. -/
def shown : Reply → String
  | nil => "nil"
  | okay => "ok"
  | integer value => "int(" ++ toString value ++ ")"
  | simple text => "simple-string(" ++ Text.quoted text ++ ")"
  | bulk text => "bulk-string('" ++ Text.quoted text ++ "')"
  | list items => "array([" ++ String.intercalate ", " (shownAll items) ++ "])"
  | failure f => "Server error: " ++ f.text

/-- The replies of a list as they are shown in errors. -/
def shownAll : List Reply → List String
  | [] => []
  | item :: rest => item.shown :: shownAll rest

end

mutual

/-- The first failure in a reply. -/
def failure? : Reply → Option Failure
  | failure f => some f
  | list items => failureAmong? items
  | _ => none

/-- The first failure in the replies of a list. -/
def failureAmong? : List Reply → Option Failure
  | [] => none
  | item :: rest => item.failure?.or (failureAmong? rest)

end

/-! ## Reading -/

/-- The line at the front of a text and what comes after its end. -/
def splitLine : List Char → Option (List Char × List Char)
  | [] => none
  | '\r' :: '\n' :: rest => some ([], rest)
  | c :: rest => (splitLine rest).map fun (line, after) => (c :: line, after)

/-- The number in a line. -/
def lineNumber? (line : List Char) : Option Int :=
  Text.signed64? 10 (Text.trim line)

/-- The characters at the front of a text that take up a number of bytes, and the rest. -/
def splitBytes : Nat → List Char → Option (List Char × List Char)
  | 0, text => some ([], text)
  | _ + 1, [] => none
  | size + 1, c :: rest =>
    if c.utf8Size ≤ size + 1 then
      (splitBytes (size + 1 - c.utf8Size) rest).map fun (front, after) => (c :: front, after)
    else none

/-- So many replies in a row, read one after another. -/
def readMany (read : List Char → Option (Reply × List Char)) :
    Nat → List Char → Option (List Reply × List Char)
  | 0, text => some ([], text)
  | count + 1, text => do
    let (item, text) ← read text
    let (items, text) ← readMany read count text
    some (item :: items, text)

/-- Reads a reply in which lists are nested no deeper than `depth`. -/
def read : Nat → List Char → Option (Reply × List Char)
  | 0, _ => none
  | depth + 1, text =>
    match text with
    | [] => none
    | mark :: text => do
      let (line, text) ← splitLine text
      match mark with
      | '+' => some (if line = ['O', 'K'] then okay else simple (String.ofList line), text)
      | '-' => some (failure (.ofLine line), text)
      | ':' => (lineNumber? line).map fun value => (integer value, text)
      | '_' => some (nil, text)
      | '$' =>
        let size ← lineNumber? line
        if size < 0 then some (nil, text)
        else do
          let (content, text) ← splitBytes size.toNat text
          let text ← Text.after? ['\r', '\n'] text
          some (bulk (String.ofList content), text)
      | '*' =>
        let count ← lineNumber? line
        if count < 0 then some (nil, text)
        else if text.length < count.toNat then none
        else (readMany (read depth) count.toNat text).map fun (items, text) => (list items, text)
      | _ => none

/-- The reply that a text sends. -/
def ofString? (text : String) : Option Reply :=
  match read (text.length + 1) text.toList with
  | some (reply, []) => some reply
  | _ => none

end Reply

/-! ## Counts -/

/-- Why a reply is no count. -/
inductive Fault where
  /-- The server reported a failure. -/
  | signalled (failure : Failure)
  /-- The reply is a text that is no number. -/
  | noNumber (reply : Reply)
  /-- The reply is of a kind that holds no number. -/
  | notNumeric (reply : Reply)

/-- The wording of a fault. -/
def Fault.text : Fault → String
  | signalled failure => failure.text
  | noNumber reply =>
    "Response was of incompatible type - TypeError: \"Could not convert from string.\" " ++
      "(response was " ++ reply.shown ++ ")"
  | notNumeric reply =>
    "Response was of incompatible type - TypeError: " ++
      "\"Response type not convertible to numeric.\" (response was " ++ reply.shown ++ ")"

/-- The number in a reply, in a text as `ofText?` reads it. -/
def Reply.number (ofText? : List Char → Option Int) (reply : Reply) : Except Fault Int :=
  match reply.failure? with
  | some reported => .error (.signalled reported)
  | none =>
    let inText (text : String) :=
      match ofText? text.toList with
      | some value => .ok value
      | none => .error (.noNumber reply)
    match reply with
    | .integer value => .ok value
    | .simple text => inText text
    | .bulk text => inText text
    | _ => .error (.notNumeric reply)

/-- The count in a reply: a number of 64 bits without sign, onto which negative numbers wrap. -/
def Reply.count (reply : Reply) : Except Fault Nat :=
  (reply.number fun text => (Text.word64? text).map fun word => (word.toNat : Int)).map
    fun value => (value % 0x10000000000000000).toNat

end Admission.Redis
