/-!
# Counter key templates

A template is a text in which `%{ip}` stands for the client address and `%{path}` for the request
path. It is read once, from left to right, into pieces; what is put in for a piece is never read
again, and any other `%{` is plain text.
-/

namespace Admission

/-- A template of counter keys. -/
structure KeyTemplate where
  text : String
  deriving DecidableEq, Repr

namespace KeyTemplate

/-- A piece of a template. -/
inductive Piece where
  | literal (c : Char)
  | client
  | path
  deriving DecidableEq, Repr

/-- Reads a template into its pieces. -/
def pieces : List Char → List Piece
  | '%' :: '{' :: 'i' :: 'p' :: '}' :: rest => .client :: pieces rest
  | '%' :: '{' :: 'p' :: 'a' :: 't' :: 'h' :: '}' :: rest => .path :: pieces rest
  | c :: rest => .literal c :: pieces rest
  | [] => []

/-- What a piece turns into for a client and a path. -/
def Piece.fill (client path : List Char) : Piece → List Char
  | .literal c => [c]
  | .client => client
  | .path => path

/-- A template filled in for a client and a path, as characters. -/
def renderChars (client path template : List Char) : List Char :=
  (pieces template).flatMap (Piece.fill client path)

/-- The counter key of a template for a client and a request path. -/
def render (template : KeyTemplate) (client path : String) : String :=
  String.ofList (renderChars client.toList path.toList template.text.toList)

end KeyTemplate

end Admission
