import Admission.Text.Fields
/-!
# Request paths

A path resolves to whether it starts at the root and to a list of segments: empty segments and `.`
are dropped, `..` takes back the segment before it. At the root there is nothing to take back; a
path that does not start at the root keeps the `..` it cannot resolve at its front.

`Path.clean` writes the resolved path. The segments kept so far form a stack, last one on top, and
`Path.push` is one step of the fold; a rule about all paths is an induction over that fold.
-/

namespace Admission.Path

/-- The segment that stays where it is. -/
def here : List Char := ['.']

/-- The segment that goes one level up. -/
def up : List Char := ['.', '.']

/-- A resolved path. -/
structure Resolved where
  rooted : Bool
  segments : List (List Char)
  deriving DecidableEq, Repr

/-- Resolves one more segment against the stack of the segments kept so far. -/
def push (rooted : Bool) (stack : List (List Char)) (segment : List Char) : List (List Char) :=
  if segment = [] ∨ segment = here then stack
  else if segment = up then
    match stack with
    | [] => if rooted then [] else [up]
    | top :: below => if top ≠ up then below else if rooted then stack else up :: stack
  else segment :: stack

/-- Resolves a path. -/
def resolve (path : List Char) : Resolved :=
  let rooted := path.head? = some '/'
  ⟨rooted, ((Text.fields '/' path).foldl (push rooted) []).reverse⟩

/-- Writes a resolved path; one with no root and no segment is the segment that stays. -/
def Resolved.chars (path : Resolved) : List Char :=
  if path.rooted then '/' :: Text.unfields '/' path.segments
  else if path.segments = [] then here
  else Text.unfields '/' path.segments

/-- The resolved form of a path, as characters. -/
def cleanChars (path : List Char) : List Char := (resolve path).chars

/-- The resolved form of a path. -/
def clean (path : String) : String := String.ofList (cleanChars path.toList)

@[simp]
theorem toList_clean (path : String) : (clean path).toList = cleanChars path.toList := by
  simp [clean]

/-! ## One step -/

@[simp]
theorem push_nil (rooted : Bool) (stack : List (List Char)) : push rooted stack [] = stack := by
  simp [push]

@[simp]
theorem push_here (rooted : Bool) (stack : List (List Char)) : push rooted stack here = stack := by
  simp [push]

/-- A segment that is neither empty nor one of the two special ones is kept. -/
theorem push_name (rooted : Bool) (stack : List (List Char)) {segment : List Char}
    (h : segment ≠ []) (hh : segment ≠ here) (hu : segment ≠ up) :
    push rooted stack segment = segment :: stack := by
  simp [push, h, hh, hu]

/-- **A step up takes back the segment before it.** -/
theorem push_up_name (rooted : Bool) (stack : List (List Char)) {top : List Char} (h : top ≠ up) :
    push rooted (top :: stack) up = stack := by
  simp [push, up, here] at h ⊢
  simp [h]

end Admission.Path
