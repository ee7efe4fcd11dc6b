import Admission.Redis.Client
/-!
# A server in memory

A server as far as counting hits needs one: a table of texts, the knowledge of the script, and the
commands that were received. Counters are texts that hold a signed number of 64 bits; keys that are
not there count as zero. Expiries are acknowledged and never take place, so a table shows what is
sent, not how time goes. Some commands may have replies fixed beforehand, which are given instead
of carrying the command out.
-/

namespace Admission.Redis

/-- The state of a server in memory. -/
structure Table where
  values : List (String × String) := []
  knowsScript : Bool := false
  /-- The replies that are given to all commands of a name. -/
  fixed : List (String × Reply) := []
  /-- The commands that were received. -/
  received : List (List String) := []

namespace Table

/-- The text of a key. -/
def get? (table : Table) (key : String) : Option String := table.values.lookup key

/-- Stores a text at a key. -/
def put (key value : String) (table : Table) : Table :=
  { table with values := (key, value) :: table.values.filter fun entry => entry.1 != key }

/-- A failure with the code that is used for most of them. -/
def refusal (detail : String) : Reply := .failure (.known .response (some detail))

/-- Adds one to the counter of a key. -/
def increment (key : String) (table : Table) : Reply × Table :=
  match Text.signed64? 10 ((table.get? key).getD "0").toList with
  | none => (refusal "value is not an integer or out of range", table)
  | some value =>
    if value + 1 < 0x8000000000000000 then
      (.integer (value + 1), table.put key (toString (value + 1)))
    else (refusal "increment or decrement would overflow", table)

/-- The failure of a server that does not know a script. -/
def noScript : Reply :=
  .failure (.known .noScript (some "No matching script. Please use EVAL."))

/-- Carries a command out. -/
def perform (words : List String) (table : Table) : Reply × Table :=
  match words with
  | ["INCR", key] => table.increment key
  | "EVALSHA" :: _ :: _ :: key :: _ => table.increment key
  | "PEXPIRE" :: key :: _ => (.integer (if (table.get? key).isSome then 1 else 0), table)
  | ["SCRIPT", "LOAD", _] => (.bulk scriptDigest, { table with knowsScript := true })
  | _ => (refusal "unknown command", table)

/-- Answers a command and records it. The knowledge of the script comes before fixed replies. -/
def answer (words : List String) (table : Table) : Reply × Table :=
  let table := { table with received := table.received ++ [words] }
  let name := words.headD ""
  if name = "EVALSHA" ∧ !table.knowsScript then (noScript, table)
  else match table.fixed.lookup name with
    | some reply => (reply, table)
    | none => table.perform words

/-- The server whose states are tables. -/
def server : Server Table := { answer }

end Table

end Admission.Redis
