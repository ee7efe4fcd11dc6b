/-!
# Document trees

A document is a tree of scalars, sequences and mappings. A scalar keeps its text and whether it was
written plain or between quotes; what it means is up to who reads it. A mapping keeps its entries in
the order in which they were written, repeated keys included.
-/

namespace Admission.Yaml

/-- How a scalar was written. -/
inductive Style where
  | plain
  | quoted
  deriving DecidableEq, Repr

/-- A document tree. -/
inductive Node where
  | scalar (text : String) (style : Style)
  | sequence (items : List Node)
  | mapping (entries : List (Node × Node))
  deriving Repr

namespace Node

/-- The scalar that stands where nothing is written. -/
def nothing : Node := scalar "" .plain

/-- The text of a scalar. -/
def text? : Node → Option String
  | scalar text _ => some text
  | _ => none

end Node

end Admission.Yaml
