import Admission.Text.Fields
/-!
# Request targets

The target of a request line, read only as far as its path is concerned. A target is a path with a
query and a fragment after it, or `*`, or an authority alone, or a scheme, an authority and a path.
An authority alone has the empty path; after a scheme and an authority the empty path is `/`.

Every loop is a fold or a structural recursion on the characters.
-/

namespace Admission.Http

/-! ## Characters -/

/-- ASCII letters and digits. -/
def isAlphanumeric (c : Char) : Bool :=
  ('a' ≤ c && c ≤ 'z') || ('A' ≤ c && c ≤ 'Z') || ('0' ≤ c && c ≤ '9')

/-- The characters of a scheme. -/
def isSchemeChar (c : Char) : Bool := isAlphanumeric c || c == '+' || c == '-' || c == '.'

/-- The characters of an authority; a `%` is judged by its place. -/
def isAuthorityChar (c : Char) : Bool :=
  isAlphanumeric c || "!#$&'()*+,-./:;=?@[]_~".toList.contains c

/-- The characters of a path; all but ASCII is left as it is. -/
def isPathChar (c : Char) : Bool :=
  0x21 ≤ c.toNat && c.toNat ≠ 0x7F && !(['<', '>', '\x60'].contains c)

/-- The characters of a query. -/
def isQueryChar (c : Char) : Bool :=
  0x21 ≤ c.toNat && c.toNat ≠ 0x7F && !(['"', '<', '>'].contains c)

/-! ## Path and query -/

/-- What stands before the fragment. -/
def withoutFragment (text : List Char) : List Char := text.takeWhile (· ≠ '#')

/-- The path of a text that holds a path, a query and a fragment; `none` if a character is out of
place. -/
def pathOf? (text : List Char) : Option (List Char) :=
  let text := withoutFragment text
  let path := text.takeWhile (· ≠ '?')
  let query := (text.dropWhile (· ≠ '?')).drop 1
  if path.all isPathChar && query.all isQueryChar then some path else none

/-! ## Authority -/

/-- What has been seen of an authority. -/
structure Authority where
  /-- Colons since the last `@` or `]`. -/
  colons : Nat := 0
  opened : Bool := false
  closed : Bool := false
  /-- Whether there is a `%` since the last `@` or `]`. -/
  percent : Bool := false
  /-- Whether the last character was `@`. -/
  afterAt : Bool := false

/-- Reads one character of an authority. -/
def Authority.step (seen : Authority) (c : Char) : Option Authority :=
  let seen := { seen with afterAt := false }
  if c = ':' then if seen.colons < 8 then some { seen with colons := seen.colons + 1 } else none
  else if c = '[' then
    if seen.percent || seen.opened then none else some { seen with opened := true }
  else if c = ']' then
    if !seen.opened || seen.closed then none
    else some { seen with closed := true, colons := 0, percent := false }
  else if c = '@' then some { seen with colons := 0, percent := false, afterAt := true }
  else if c = '%' then some { seen with percent := true }
  else if isAuthorityChar c then some seen
  else none

/-- Whether a text is an authority; the empty text is one. -/
def isAuthority (text : List Char) : Bool :=
  match text.foldlM Authority.step {} with
  | some seen => seen.opened == seen.closed && seen.colons ≤ 1 && !seen.percent && !seen.afterAt
  | none => false

/-- The authority at the front of a text and what comes after it. -/
def splitAuthority (text : List Char) : List Char × List Char :=
  let ends (c : Char) := c == '/' || c == '?' || c == '#'
  (text.takeWhile (!ends ·), text.dropWhile (!ends ·))

/-! ## Targets -/

/-- The mark between a scheme and an authority. -/
def schemeEnd : List Char := [':', '/', '/']

/-- What comes after the scheme of a text, if it has one; `some none` if the scheme is too long. -/
def afterScheme? (text : List Char) : Option (Option (List Char)) :=
  let name := text.takeWhile isSchemeChar
  match Text.after? schemeEnd (text.drop name.length) with
  | some rest => some (if name.length ≤ 64 then some rest else none)
  | none => none

/-- The path of a text that begins with an authority. -/
def pathAfterAuthority? (text : List Char) : Option (List Char) :=
  let (authority, rest) := splitAuthority text
  if authority ≠ [] ∧ isAuthority authority then
    (pathOf? rest).map fun path => if path = [] then ['/'] else path
  else none

/-- The most bytes that a target may have. -/
def longestTarget : Nat := 65534

/-- The path of a request target; `none` if it is no target. -/
def path? (target : String) : Option String :=
  let text := target.toList
  if longestTarget < target.utf8ByteSize then none
  else if text = ['*'] then some "*"
  else if text.head? = some '/' then (pathOf? text).map String.ofList
  else match afterScheme? text with
    | some (some rest) => (pathAfterAuthority? rest).map String.ofList
    | some none => none
    | none => if text ≠ [] ∧ (splitAuthority text).2 = [] ∧ isAuthority text then some "" else none

end Admission.Http
