import Admission.Http.Uri
import Admission.Request
/-!
# Requests from HTTP messages

Method, target and headers of a message, given as bytes where the message has bytes, become the
request that is judged. A method and a header name are tokens, names of headers are compared
without regard to case, and a header value holds no control characters but tabs. The first
forwarded-for header counts; it is ignored unless it is plain ASCII text.
-/

namespace Admission.Http

/-- A message as far as admission looks at it. -/
structure Message where
  method : List UInt8
  target : String
  headers : List (String × List UInt8)

/-- The bytes of a token: ASCII letters and digits and some marks. -/
def isTokenByte (b : UInt8) : Bool :=
  let c := Char.ofNat b.toNat
  isAlphanumeric c || "!#$%&'*+-.^_|~\x60".toList.contains c

/-- Whether bytes are a token. -/
def isToken (bytes : List UInt8) : Bool := !bytes.isEmpty && bytes.all isTokenByte

/-- The bytes of a header value. -/
def isValueByte (b : UInt8) : Bool := (0x20 ≤ b && b ≠ 0x7F) || b == 0x09

/-- The bytes of a header value that is plain text. -/
def isTextByte (b : UInt8) : Bool := (0x20 ≤ b && b < 0x7F) || b == 0x09

/-- ASCII bytes as text. -/
def asciiText (bytes : List UInt8) : String :=
  String.ofList (bytes.map fun b => Char.ofNat b.toNat)

/-- An ASCII letter in lower case. -/
def lowerAscii (c : Char) : Char :=
  if 'A' ≤ c ∧ c ≤ 'Z' then Char.ofNat (c.toNat + 32) else c

/-- The name of the forwarded-for header. -/
def forwardedForName : String := "x-forwarded-for"

/-- Whether a header name is that of the forwarded-for header. -/
def isForwardedFor (name : String) : Bool :=
  String.ofList (name.toList.map lowerAscii) == forwardedForName

/-- The longest header name. -/
def longestName : Nat := 65535

/-- Whether a header is well formed. -/
def isHeader (header : String × List UInt8) : Bool :=
  let name := header.1.toUTF8.toList
  isToken name && name.length ≤ longestName && header.2.all isValueByte

/-- The forwarded-for value of headers. -/
def forwardedFor? (headers : List (String × List UInt8)) : Option String :=
  match headers.find? fun header => isForwardedFor header.1 with
  | some (_, value) => if value.all isTextByte then some (asciiText value) else none
  | none => none

/-- The request that a message of a peer makes; `none` if the message is malformed. -/
def Message.request? (message : Message) (remoteAddr : String) : Option Request :=
  match path? message.target with
  | some path =>
    if isToken message.method && message.headers.all isHeader then
      some {
        method := asciiText message.method
        path := path
        remoteAddr := remoteAddr
        forwardedFor := forwardedFor? message.headers }
    else none
  | none => none

end Admission.Http
