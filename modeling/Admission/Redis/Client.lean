import Admission.Duration
import Admission.Error
import Admission.Redis.Reply
/-!
# A counter store on a shared server

A server keeps the counters of several processes. It answers commands, each of which is a list of
words. Counting a hit is one command: a script on the server adds one to the counter and, if that
opened its window, lets it expire. A server that does not know the script is taught it, and asked
once more.

`countHit` works over any way of sending commands, so one conversation serves a caller that waits
for every reply (`Server.hit`) and one whose time is limited (`Server.hitWithin`). Everything is
said about an arbitrary server (`Server`), and the commands that are sent can be seen in its state.
Periods are sent in whole milliseconds; `one_le_expiryMillis` says that a counter never expires at
once.
-/

namespace Admission.Redis

/-- A server whose states are the values of a type. -/
structure Server (σ : Type) where
  answer : List String → σ → Reply × σ
  /-- The milliseconds that the reply to a command takes. -/
  delay : List String → σ → Nat := fun _ _ => 0

/-! ## Words -/

/-- A period in the milliseconds that are sent, from one up to what a word of 64 bits holds. -/
def expiryMillis (period : Duration) : Nat := max 1 (min 0xFFFFFFFFFFFFFFFF period.millis)

theorem one_le_expiryMillis (period : Duration) : 1 ≤ expiryMillis period := by
  unfold expiryMillis
  omega

theorem expiryMillis_of_le {period : Duration} (one : 1 ≤ period.millis)
    (word : period.millis < 0x10000000000000000) : expiryMillis period = period.millis := by
  unfold expiryMillis
  omega

/-- The script that counts a hit. -/
def script : String :=
  "\nlocal current = redis.call('INCR', KEYS[1])\n" ++
    "if current == 1 then\n    redis.call('PEXPIRE', KEYS[1], ARGV[1])\nend\nreturn current\n"

/-- The digest by which a server knows the script. -/
def scriptDigest : String := "cf9c7dd58c4ddb28a5de9c8360cfdaf2a9e9f670"

/-- The command that adds one to the counter of a key. -/
def incrWords (key : String) : List String := ["INCR", key]

/-- The command that lets a key expire after a period. -/
def expireWords (key : String) (period : Duration) : List String :=
  ["PEXPIRE", key, toString (expiryMillis period)]

/-- The command that counts a hit. -/
def hitWords (key : String) (period : Duration) : List String :=
  ["EVALSHA", scriptDigest, "1", key, toString (expiryMillis period)]

/-- The command that teaches a server the script. -/
def loadWords : List String := ["SCRIPT", "LOAD", script]

/-! ## Calls -/

/-- A fault of a reply as a fault of the store. -/
def Fault.storage (fault : Fault) : StorageFault := .reported fault.text

/-- Whether a reply says that the server does not know the script. -/
def lacksScript (reply : Reply) : Bool :=
  match reply.failure? with
  | some (.known .noScript _) => true
  | _ => false

/-- Counts a hit, teaching the server the script if it does not know it. -/
def countHit {m : Type → Type} [Monad m] (ask : List String → m Reply) (key : String)
    (period : Duration) : m (Except StorageFault Nat) := do
  let reply ← ask (hitWords key period)
  if lacksScript reply then
    -- taught once; a second refusal is a fault like any other
    let loaded ← ask loadWords
    match loaded.failure? with
    | some reported => pure (.error (Fault.signalled reported).storage)
    | none =>
      let reply ← ask (hitWords key period)
      pure (reply.count.mapError Fault.storage)
  else pure (reply.count.mapError Fault.storage)

namespace Server

variable {σ : Type}

/-- Adds one to the counter of a key and tells the new count. -/
def incr (server : Server σ) (key : String) (state : σ) : Except StorageFault Nat × σ :=
  let (reply, state) := server.answer (incrWords key) state
  (reply.count.mapError Fault.storage, state)

/-- Lets a key expire after a period. -/
def expire (server : Server σ) (key : String) (period : Duration) (state : σ) :
    Except StorageFault Unit × σ :=
  let (reply, state) := server.answer (expireWords key period) state
  (((reply.number (Text.signed64? 10)).map fun _ => ()).mapError Fault.storage, state)

/-- Counts a hit, however long the replies take. -/
def hit (server : Server σ) (key : String) (period : Duration) :
    StateM σ (Except StorageFault Nat) :=
  countHit (m := StateM σ) server.answer key period

/-! ## Limits -/

/-- Sends a command for whose reply so many milliseconds are left. A reply that takes longer is
given up, but the server has carried the command out. -/
def askWithin (server : Server σ) (words : List String) : OptionT (StateM (σ × Nat)) Reply :=
  fun (state, left) =>
    let (reply, after) := server.answer words state
    let delay := server.delay words state
    if left < delay then (none, after, 0) else (some reply, after, left - delay)

/-- Counts a hit within so many milliseconds, for all replies together. -/
def hitWithin (server : Server σ) (limit : Nat) (late : StorageFault) (key : String)
    (period : Duration) : StateM σ (Except StorageFault Nat) := fun state =>
  let (told, after, _) := (countHit server.askWithin key period).run (state, limit)
  (told.getD (.error late), after)

/-- Counts a hit within the time that a caller is willing to wait. -/
def increment (server : Server σ) (timeout : Option Duration) (key : String) (period : Duration) :
    StateM σ (Except StorageFault Nat) :=
  match timeout with
  | none => server.hit key period
  | some limit => server.hitWithin limit.ceilMillis (.timedOut limit) key period

end Server

/-! ## Connections -/

/-- A server that was reached. -/
structure Connection where
  State : Type
  server : Server State
  /-- The state in which the server is found. -/
  found : State
  /-- What becomes of a state until an instant, as keys expire and other processes count. -/
  meanwhile : Nat → State → State

end Admission.Redis
