import Admission.Path.Basic
/-!
# Path patterns

A pattern of a throttle rule is matched against the resolved form of a request path. The empty
pattern matches every path. A pattern with a `*` anywhere matches what lies under its stem; the
stem is the pattern without a final `/*`, and it is compared as it is written, never resolved. Any
other pattern matches the paths with its own resolved form.
-/

namespace Admission

/-- A compiled path pattern. -/
inductive PathPattern where
  /-- Matches every path. -/
  | any
  /-- Matches the paths under a stem, which ends in `/`. -/
  | under (stem : String)
  /-- Matches the paths with a resolved form. -/
  | exact (path : String)
  deriving DecidableEq, Repr

namespace PathPattern

/-- The ending that is cut off the stem. -/
def ending : List Char := ['/', '*']

/-- A pattern without a final `/*`. -/
def stemChars (pattern : List Char) : List Char :=
  if ending.isSuffixOf pattern then pattern.take (pattern.length - ending.length) else pattern

/-- Compiles a pattern. -/
def ofString (pattern : String) : PathPattern :=
  let chars := pattern.toList
  if chars = [] then .any
  else if '*' ∈ chars then .under (String.ofList (stemChars chars ++ ['/']))
  else .exact (Path.clean pattern)

/-- Whether a request path satisfies the pattern. -/
def accepts (pattern : PathPattern) (path : String) : Bool :=
  match pattern with
  | any => true
  | under stem => stem.toList.isPrefixOf (Path.cleanChars path.toList ++ ['/'])
  | exact wanted => Path.clean path == wanted

/-- The pattern as it is shown. -/
def text : PathPattern → String
  | any => "<any>"
  | under stem => stem ++ "*"
  | exact path => path

/-- The stem or the path of a pattern. -/
def stored? : PathPattern → Option String
  | any => none
  | under stem => some stem
  | exact path => some path

theorem accepts_under_iff {stem path : String} :
    (under stem).accepts path = true ↔ stem.toList <+: Path.cleanChars path.toList ++ ['/'] := by
  simp [accepts]

/-- **A pattern sees a path only through its resolved form.** -/
theorem accepts_congr (pattern : PathPattern) {p q : String} (h : Path.clean p = Path.clean q) :
    pattern.accepts p = pattern.accepts q := by
  cases pattern with
  | any => rfl
  | under stem =>
    have := congrArg String.toList h
    rw [Path.toList_clean, Path.toList_clean] at this
    simp [accepts, this]
  | exact wanted => simp [accepts, h]

end PathPattern

end Admission
