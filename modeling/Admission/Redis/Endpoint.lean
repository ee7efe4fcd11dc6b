import Admission.Address.Text
import Admission.Text.Fields
import Admission.Text.Numeral
/-!
# Where a shared server is

A server is named by a URL: a scheme, a host with an optional port, and as its path the number of a
database; or a scheme for sockets and the path of one. The URL is checked before anything is sent,
and `Endpoint.ofUrl` says which of the faults it has.

Every loop is a fold or a structural recursion on the characters.
-/

namespace Admission.Redis

/-- Where a server listens. -/
inductive Endpoint where
  | remote (name : String) (port : Nat) (database : Int)
  | socket (path : String) (database : Int)
  deriving DecidableEq, Repr

/-- What is wrong with the URL of a server. -/
inductive EndpointFault where
  | malformed
  | hostMissing
  | pathMissing
  | encryptionMissing
  | databaseInvalid
  deriving DecidableEq, Repr

/-- The wording of a fault of a URL. -/
def EndpointFault.text (fault : EndpointFault) : String :=
  let description := match fault with
    | malformed => "Redis URL did not parse"
    | hostMissing => "Missing hostname"
    | pathMissing => "Missing path"
    | encryptionMissing => "can't connect with TLS, the feature is not enabled"
    | databaseInvalid => "Invalid database number"
  description ++ "- InvalidClientConfig"

namespace Endpoint

/-! ## Parts of a URL -/

/-- Characters that are ignored at the ends of a URL. -/
def isEdge (c : Char) : Bool := c.toNat ≤ 0x20

/-- Characters that are ignored everywhere in a URL. -/
def isIgnored (c : Char) : Bool := c == '\t' || c == '\n' || c == '\r'

/-- The characters of a URL that count. -/
def tidy (text : List Char) : List Char :=
  ((text.dropWhile isEdge).reverse.dropWhile isEdge).reverse.filter (!isIgnored ·)

/-- An ASCII letter. -/
def isLetter (c : Char) : Bool := ('a' ≤ c && c ≤ 'z') || ('A' ≤ c && c ≤ 'Z')

/-- A character of a scheme after its first letter. -/
def isSchemeChar (c : Char) : Bool :=
  isLetter c || Text.isDigit c || c == '+' || c == '-' || c == '.'

/-- The scheme of a URL and what comes after its colon. -/
def splitScheme (text : List Char) : Option (List Char × List Char) :=
  match text.takeWhile isSchemeChar, text.dropWhile isSchemeChar with
  | first :: name, ':' :: rest =>
    if isLetter first then some ((first :: name).map Char.toLower, rest) else none
  | _, _ => none

/-- The characters that end the authority of a URL. -/
def endsAuthority (c : Char) : Bool := c == '/' || c == '?' || c == '#'

/-- The credentials and the host of an authority: what stands before and after the last `@`. -/
def splitCredentials (text : List Char) : Option (List Char) × List Char :=
  if text.contains '@' then
    let host := (text.reverse.takeWhile (· ≠ '@')).reverse
    (some (text.take (text.length - host.length - 1)), host)
  else (none, text)

/-- The characters of a host name; brackets are judged by their place. -/
def isHostChar (c : Char) : Bool :=
  !([' ', '#', '/', ':', '<', '>', '?', '@', '[', '\\', ']', '^', '|'].contains c) && c.toNat ≠ 0

/-- The host at the front of an authority: up to the first colon outside brackets. -/
def splitHost : Bool → List Char → List Char × List Char
  | _, [] => ([], [])
  | bracketed, c :: rest =>
    if c = ':' ∧ bracketed = false then ([], c :: rest)
    else
      let within := if c = '[' then true else if c = ']' then false else bracketed
      let (host, after) := splitHost within rest
      (c :: host, after)

/-- Whether a text is a host: a name, or an address of 128 bits in brackets. -/
def isHost (text : List Char) : Bool :=
  match text with
  | '[' :: rest =>
    match rest.reverse with
    | ']' :: inner => match Address.ofString? (String.ofList inner.reverse) with
      | some (.v6 _) => true
      | _ => false
    | _ => false
  | _ => text.all isHostChar

/-- The port where a server listens if none is given. -/
def usualPort : Nat := 6379

/-- The port after a host. -/
def port? (text : List Char) : Option Nat :=
  match text with
  | [] => some usualPort
  | ':' :: digits =>
    if digits = [] then some usualPort
    else match Text.natural? 10 digits with
      | some port => if port < 0x10000 then some port else none
      | none => none
  | _ => none

/-- The host and the port in an authority; `some none` if there is no host. Without a host there
must be no port and no credentials, and if more of the URL follows no `@` either. -/
def authority? (last : Bool) (text : List Char) : Option (Option (String × Nat)) :=
  let (credentials, text) := splitCredentials text
  let (host, rest) := splitHost false text
  if !isHost host then none
  else if host = [] then
    -- credentials without a host
    let bare := match credentials with
      | none => true
      | some [] => last
      | some given => given == [':']
    if bare && rest == [] then some none else none
  else (port? rest).map fun port => some (String.ofList host, port)

/-- The path without what comes after it. -/
def pathOf (text : List Char) : List Char :=
  text.takeWhile fun c => c ≠ '?' && c ≠ '#'

/-- The query without what comes before and after it. -/
def queryOf (text : List Char) : List Char :=
  ((text.takeWhile (· ≠ '#')).dropWhile (· ≠ '?')).drop 1

/-- Leaves out the segments of a path that mean the place itself or go back. -/
def settle (segments : List (List Char)) : List (List Char) :=
  segments.foldl (fun kept segment =>
    if segment = ['.'] then kept
    else if segment = ['.', '.'] then kept.dropLast
    else kept ++ [segment]) []

/-- A text without the slashes at its ends. -/
def withoutSlashes (text : List Char) : List Char :=
  ((text.dropWhile (· = '/')).reverse.dropWhile (· = '/')).reverse

/-! ## The whole -/

/-- The database that a path names; the first one if it names none. -/
def databaseOfPath? (path : List Char) : Option Int :=
  let segments := settle (Text.fields '/' path)
  let text := withoutSlashes (Text.unfields '/' segments)
  if text = [] then some 0 else Text.signed64? 10 text

/-- The database that a query names. -/
def databaseOfQuery? (query : List Char) : Option Int :=
  let given := (Text.fields '&' query).filterMap (Text.after? ['d', 'b', '='])
  match given.getLast? with
  | some text => Text.signed64? 10 text
  | none => some 0

/-- The schemes of hosts, and whether they ask for encryption. -/
def hostSchemes : List (String × Bool) :=
  [("redis", false), ("rediss", true), ("valkey", false), ("valkeys", true)]

/-- The schemes of sockets. -/
def socketSchemes : List String := ["unix", "redis+unix", "valkey+unix"]

/-- The authority, if there is one, and what comes after it. -/
def splitAuthority (text : List Char) : Option (Option (String × Nat) × List Char) :=
  match Text.after? ['/', '/'] text with
  | some text =>
    let rest := text.dropWhile (!endsAuthority ·)
    (authority? rest.isEmpty (text.takeWhile (!endsAuthority ·))).map fun host => (host, rest)
  | none => some (none, text)

/-- The endpoint on a host. -/
def onHost (encrypted : Bool) (host : Option (String × Nat)) (rest : List Char) :
    Except EndpointFault Endpoint :=
  match host with
  | none => .error .hostMissing
  | some (name, port) =>
    if encrypted then .error .encryptionMissing
    else match databaseOfPath? (pathOf rest) with
      | some database => .ok (.remote name port database)
      | none => .error .databaseInvalid

/-- The endpoint at a socket. -/
def atSocket (host : Option (String × Nat)) (rest : List Char) : Except EndpointFault Endpoint :=
  let path := pathOf rest
  if (host.all fun h => h.1 == "localhost") && path.head? == some '/' then
    match databaseOfQuery? (queryOf rest) with
    | some database => .ok (.socket (String.ofList path) database)
    | none => .error .databaseInvalid
  else .error .pathMissing

/-- The endpoint that a URL names. -/
def ofUrl (url : String) : Except EndpointFault Endpoint :=
  match splitScheme (tidy url.toList) with
  | none => .error .malformed
  | some (scheme, rest) =>
    let scheme := String.ofList scheme
    match splitAuthority rest with
    | none => .error .malformed
    | some (host, rest) =>
      match hostSchemes.lookup scheme with
      | some encrypted => onHost encrypted host rest
      | none => if socketSchemes.contains scheme then atSocket host rest else .error .malformed

end Endpoint

end Admission.Redis
