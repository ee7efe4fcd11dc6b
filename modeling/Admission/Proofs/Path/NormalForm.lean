import Admission.Path.Basic
/-!
# Normal form of paths

Which texts the resolved form of a path can be, said without resolving: the root, the segment that
stays, or names after each other, which may follow a slash or a run of steps up but not both.
Resolving a path leads to such a text, and changes no text that is one already.

The stack of the segments kept so far holds names on top of steps up. The argument is about it.

1. `IsStack.push`, `isNormal_resolve`: every step of the fold keeps that shape
2. `IsStack.foldl_reverse`: a stack of that shape is rebuilt from its own segments
3. `resolve_chars`: so what is written for a path in normal form is read back as it was
4. `isCanonical_iff`: the canonical texts are what is written for such paths
5. `clean_normal_form`: what follows for every path
-/

namespace Admission.Path

/-- A segment that names something: it is not empty, neither special, and holds no slash. -/
structure IsName (segment : List Char) : Prop where
  ne_nil : segment ≠ []
  ne_here : segment ≠ here
  ne_up : segment ≠ up
  slash_not_mem : '/' ∉ segment

/-- The canonical paths: names written with slashes between them, at the root or after a number of
steps up, and the two paths without any segment. -/
inductive IsCanonical : List Char → Prop where
  | root : IsCanonical ['/']
  | here : IsCanonical here
  | rooted {names : List (List Char)} (ne_nil : names ≠ [])
      (areNames : ∀ name ∈ names, IsName name) : IsCanonical ('/' :: ['/'].intercalate names)
  | relative (climbs : Nat) {names : List (List Char)}
      (ne_nil : List.replicate climbs up ++ names ≠ []) (areNames : ∀ name ∈ names, IsName name) :
      IsCanonical (['/'].intercalate (List.replicate climbs up ++ names))

/-! ## The stack of the segments kept so far -/

/-- A stack with the last segment on top holds names above steps up, and at the root no step up. -/
def IsStack (rooted : Bool) (stack : List (List Char)) : Prop :=
  ∃ names climbs, stack = names ++ List.replicate climbs up ∧ (∀ name ∈ names, IsName name) ∧
    (rooted = true → climbs = 0)

variable {rooted : Bool} {stack names : List (List Char)} {segment path : List Char}

theorem isStack_nil : IsStack rooted [] := ⟨[], 0, rfl, by simp, fun _ => rfl⟩

theorem push_up_climbs (rooted : Bool) (climbs : Nat) :
    push rooted (List.replicate climbs up) up =
      if rooted then List.replicate climbs up else List.replicate (climbs + 1) up := by
  cases climbs with
  | zero => cases rooted <;> rfl
  | succ climbs => simp [push, List.replicate_succ, show up ≠ [] ∧ up ≠ here by decide]

/-- **A step keeps the shape of the stack.** -/
theorem IsStack.push (h : IsStack rooted stack) (hslash : '/' ∉ segment) :
    IsStack rooted (push rooted stack segment) := by
  obtain ⟨names, climbs, rfl, hnames, hroot⟩ := h
  by_cases hnil : segment = []
  · rw [hnil, push_nil]
    exact ⟨names, climbs, rfl, hnames, hroot⟩
  by_cases hhere : segment = Path.here
  · rw [hhere, push_here]
    exact ⟨names, climbs, rfl, hnames, hroot⟩
  by_cases hup : segment = up
  · -- a step up takes a name back if there is one, and else only steps up are below it
    subst hup
    cases names with
    | nil =>
      rw [List.nil_append, push_up_climbs]
      cases rooted with
      | true => exact ⟨[], climbs, rfl, by simp, hroot⟩
      | false => exact ⟨[], climbs + 1, rfl, by simp, by simp⟩
    | cons top below =>
      obtain ⟨htop, hbelow⟩ := List.forall_mem_cons.mp hnames
      rw [List.cons_append, push_up_name rooted _ htop.ne_up]
      exact ⟨below, climbs, rfl, hbelow, hroot⟩
  · rw [push_name rooted _ hnil hhere hup]
    exact ⟨segment :: names, climbs, rfl,
      List.forall_mem_cons.mpr ⟨⟨hnil, hhere, hup, hslash⟩, hnames⟩, hroot⟩

theorem IsStack.foldl (h : IsStack rooted stack) {segments : List (List Char)}
    (hslash : ∀ segment ∈ segments, '/' ∉ segment) :
    IsStack rooted (segments.foldl (Path.push rooted) stack) := by
  induction segments generalizing stack with
  | nil => exact h
  | cons segment rest ih =>
    obtain ⟨hfirst, hrest⟩ := List.forall_mem_cons.mp hslash
    exact ih (h.push hfirst) hrest

/-- A resolved path in normal form: its segments make such a stack. -/
def Resolved.IsNormal (resolved : Resolved) : Prop :=
  IsStack resolved.rooted resolved.segments.reverse

/-- Written down, such a path has names after steps up. -/
theorem Resolved.isNormal_iff {segments : List (List Char)} :
    IsNormal ⟨rooted, segments⟩ ↔ ∃ climbs names, segments = List.replicate climbs up ++ names ∧
      (∀ name ∈ names, IsName name) ∧ (rooted = true → climbs = 0) := by
  constructor
  · rintro ⟨names, climbs, hstack, hnames, hroot⟩
    refine ⟨climbs, names.reverse, ?_, fun name hname => ?_, hroot⟩
    · rw [← List.reverse_reverse segments, hstack, List.reverse_append, List.reverse_replicate]
    · exact hnames name (List.mem_reverse.mp hname)
  · rintro ⟨climbs, names, rfl, hnames, hroot⟩
    refine ⟨names.reverse, climbs, by simp, fun name hname => ?_, hroot⟩
    exact hnames name (List.mem_reverse.mp hname)

/-- **Resolving a path leads to a normal form.** -/
theorem isNormal_resolve (path : List Char) : (resolve path).IsNormal := by
  simp only [resolve, Resolved.IsNormal, List.reverse_reverse]
  exact isStack_nil.foldl fun segment hsegment => Text.not_mem_of_mem_fields hsegment

/-! ## Reading a stack again -/

theorem foldl_push_names (hnames : ∀ name ∈ names, IsName name) (stack : List (List Char)) :
    names.foldl (push rooted) stack = names.reverse ++ stack := by
  induction names generalizing stack with
  | nil => rfl
  | cons name rest ih =>
    obtain ⟨hname, hrest⟩ := List.forall_mem_cons.mp hnames
    rw [List.foldl_cons, push_name rooted stack hname.ne_nil hname.ne_here hname.ne_up, ih hrest]
    simp

theorem foldl_push_climbs (climbs below : Nat) :
    (List.replicate climbs up).foldl (push false) (List.replicate below up) =
      List.replicate (climbs + below) up := by
  induction climbs generalizing below with
  | zero => simp
  | succ climbs ih =>
    rw [List.replicate_succ, List.foldl_cons, push_up_climbs, if_neg (by decide), ih]
    congr 1
    omega

/-- **A stack is rebuilt from its own segments**, first one first. -/
theorem IsStack.foldl_reverse (h : IsStack rooted stack) :
    stack.reverse.foldl (Path.push rooted) [] = stack := by
  obtain ⟨names, climbs, rfl, hnames, hroot⟩ := h
  have hclimbs : (List.replicate climbs up).foldl (Path.push rooted) [] =
      List.replicate climbs up := by
    cases rooted with
    | true => rw [hroot rfl]; rfl
    | false => exact foldl_push_climbs climbs 0
  have hreverse : ∀ name ∈ names.reverse, IsName name := fun name hname =>
    hnames name (List.mem_reverse.mp hname)
  rw [List.reverse_append, List.reverse_replicate, List.foldl_append, hclimbs,
    foldl_push_names hreverse, List.reverse_reverse]

/-! ## Writing a path and reading it back -/

/-- Steps up and names hold a character each, and no slash. -/
theorem ne_nil_of_mem_climbs_append {climbs : Nat} (hnames : ∀ name ∈ names, IsName name)
    (hmem : segment ∈ List.replicate climbs up ++ names) : segment ≠ [] ∧ '/' ∉ segment := by
  rcases List.mem_append.mp hmem with hup | hname
  · rw [List.eq_of_mem_replicate hup]
    decide
  · exact ⟨(hnames segment hname).ne_nil, (hnames segment hname).slash_not_mem⟩

namespace Resolved

variable {resolved : Resolved}

theorem IsNormal.ne_nil_of_mem (h : resolved.IsNormal) (hmem : segment ∈ resolved.segments) :
    segment ≠ [] ∧ '/' ∉ segment := by
  obtain ⟨rooted, segments⟩ := resolved
  obtain ⟨climbs, names, rfl, hnames, -⟩ := isNormal_iff.mp h
  exact ne_nil_of_mem_climbs_append hnames hmem

/-- What is written starts with a slash if and only if the path does. -/
theorem IsNormal.head?_chars (h : resolved.IsNormal) :
    resolved.chars.head? = some '/' ↔ resolved.rooted = true := by
  obtain ⟨rooted, segments⟩ := resolved
  cases rooted with
  | true => simp [chars]
  | false =>
    cases segments with
    | nil => simp [chars, Path.here]
    | cons first rest =>
      obtain ⟨hne, hslash⟩ := h.ne_nil_of_mem List.mem_cons_self
      obtain ⟨c, tail, rfl⟩ := List.exists_cons_of_ne_nil hne
      have hc : c ≠ '/' := fun hc => hslash (by simp [hc])
      cases rest with
      | nil => simp [chars, Text.unfields, hc]
      | cons second more => simp [chars, Text.unfields, hc]

/-- The fields of what is written lead to the same stack as the segments. -/
theorem IsNormal.foldl_fields_chars (h : resolved.IsNormal) :
    (Text.fields '/' resolved.chars).foldl (push resolved.rooted) [] =
      resolved.segments.foldl (push resolved.rooted) [] := by
  obtain ⟨rooted, segments⟩ := resolved
  have hslash : ∀ segment ∈ segments, '/' ∉ segment := fun segment hsegment =>
    (h.ne_nil_of_mem hsegment).2
  by_cases hsegments : segments = []
  · subst hsegments
    cases rooted <;> rfl
  · have hfields := Text.fields_unfields hsegments hslash
    cases rooted with
    | true => simp [chars, Text.fields, hfields]
    | false => simp [chars, hsegments, hfields]

end Resolved

/-- **What is written for a path in normal form is read back as it was.** -/
theorem resolve_chars {resolved : Resolved} (h : resolved.IsNormal) :
    resolve resolved.chars = resolved := by
  have hrooted : decide (resolved.chars.head? = some '/') = resolved.rooted := by
    simp [h.head?_chars]
  have hstack := IsStack.foldl_reverse h
  rw [List.reverse_reverse] at hstack
  simp only [resolve]
  rw [hrooted, h.foldl_fields_chars, hstack, List.reverse_reverse]

@[simp]
theorem resolve_cleanChars (path : List Char) : resolve (cleanChars path) = resolve path :=
  resolve_chars (isNormal_resolve path)

/-! ## The canonical paths -/

/-- **The canonical paths are what is written for the paths in normal form.** -/
theorem isCanonical_iff : IsCanonical path ↔ ∃ resolved : Resolved,
    resolved.IsNormal ∧ resolved.chars = path := by
  constructor
  · intro h
    cases h with
    | root => exact ⟨⟨true, []⟩, isStack_nil, rfl⟩
    | here => exact ⟨⟨false, []⟩, isStack_nil, rfl⟩
    | @rooted names hne hnames =>
      refine ⟨⟨true, names⟩, Resolved.isNormal_iff.mpr ⟨0, names, rfl, hnames, fun _ => rfl⟩, ?_⟩
      simp [Resolved.chars, Text.unfields_eq_intercalate]
    | @relative climbs names hne hnames =>
      refine ⟨⟨false, _⟩, Resolved.isNormal_iff.mpr ⟨climbs, names, rfl, hnames, by simp⟩, ?_⟩
      simp [Resolved.chars, hne, Text.unfields_eq_intercalate]
  · rintro ⟨⟨rooted, segments⟩, hnormal, rfl⟩
    obtain ⟨climbs, names, rfl, hnames, hroot⟩ := Resolved.isNormal_iff.mp hnormal
    cases rooted with
    | true =>
      obtain rfl : climbs = 0 := hroot rfl
      simp only [Resolved.chars, if_true, List.replicate_zero, List.nil_append,
        Text.unfields_eq_intercalate]
      by_cases hnil : names = []
      · subst hnil
        exact .root
      · exact .rooted hnil hnames
    | false =>
      simp only [Resolved.chars, Bool.false_eq_true, if_false, Text.unfields_eq_intercalate]
      by_cases hnil : List.replicate climbs up ++ names = []
      · rw [if_pos hnil]
        exact .here
      · rw [if_neg hnil]
        exact .relative climbs hnil hnames

theorem isCanonical_cleanChars (path : List Char) : IsCanonical (cleanChars path) :=
  isCanonical_iff.mpr ⟨resolve path, isNormal_resolve path, rfl⟩

theorem isCanonical_clean (path : String) : IsCanonical (clean path).toList := by
  rw [toList_clean]
  exact isCanonical_cleanChars path.toList

/-- **Exactly the canonical paths are their own resolved form.** -/
theorem cleanChars_eq_self_iff : cleanChars path = path ↔ IsCanonical path := by
  constructor
  · intro h
    rw [← h]
    exact isCanonical_cleanChars path
  · intro h
    obtain ⟨resolved, hnormal, rfl⟩ := isCanonical_iff.mp h
    rw [cleanChars, resolve_chars hnormal]

instance : DecidablePred IsCanonical := fun path =>
  decidable_of_iff (cleanChars path = path) cleanChars_eq_self_iff

/-- Only away from the root a path may begin with steps up. -/
example : IsCanonical "../../a".toList ∧ ¬ IsCanonical "/../a".toList := by decide

theorem clean_eq_self_iff {path : String} : clean path = path ↔ IsCanonical path.toList := by
  rw [← String.toList_inj, toList_clean]
  exact cleanChars_eq_self_iff

theorem head?_cleanChars (path : List Char) :
    (cleanChars path).head? = some '/' ↔ path.head? = some '/' := by
  rw [cleanChars, (isNormal_resolve path).head?_chars]
  simp [resolve]

/-! ## What canonical paths look like -/

/-- The segments of a canonical path: one slash has an empty segment on both sides, a slash with
names after it has one in front, and otherwise no segment is empty. -/
theorem IsCanonical.splitOn_cases (h : IsCanonical path) :
    path = ['/'] ∨
      (∃ names, names ≠ [] ∧ (∀ name ∈ names, IsName name) ∧ path.splitOn '/' = [] :: names) ∨
      ∀ segment ∈ path.splitOn '/', segment ≠ [] := by
  cases h with
  | root => exact .inl rfl
  | here => exact .inr (.inr (by decide))
  | @rooted names hne hnames =>
    have hslash : ∀ name ∈ names, '/' ∉ name := fun name hname => (hnames name hname).slash_not_mem
    refine .inr (.inl ⟨names, hne, hnames, ?_⟩)
    rw [Text.splitOn_cons_sep, List.splitOn_intercalate '/' hslash hne]
  | @relative climbs names hne hnames =>
    have hslash : ∀ segment ∈ List.replicate climbs up ++ names, '/' ∉ segment :=
      fun segment hsegment => (ne_nil_of_mem_climbs_append hnames hsegment).2
    refine .inr (.inr fun segment hsegment => ?_)
    rw [List.splitOn_intercalate '/' hslash hne] at hsegment
    exact (ne_nil_of_mem_climbs_append hnames hsegment).1

/-- A canonical path with a slash in front is the root or a list of names. -/
theorem IsCanonical.splitOn_of_head? (h : IsCanonical path) (hhead : path.head? = some '/') :
    path = ['/'] ∨
      ∃ names, names ≠ [] ∧ (∀ name ∈ names, IsName name) ∧ path.splitOn '/' = [] :: names := by
  rcases h.splitOn_cases with hroot | hnames | hsegments
  · exact .inl hroot
  · exact .inr hnames
  · obtain ⟨rest, rfl⟩ := List.head?_eq_some_iff.mp hhead
    rw [Text.splitOn_cons_sep] at hsegments
    exact absurd rfl (hsegments [] List.mem_cons_self)

/-- Nothing above the root is named. -/
theorem IsCanonical.up_not_mem_splitOn (h : IsCanonical path) (hhead : path.head? = some '/') :
    up ∉ path.splitOn '/' := by
  rcases h.splitOn_of_head? hhead with rfl | ⟨names, -, hnames, hsplit⟩
  · decide
  · rw [hsplit, List.mem_cons, not_or]
    exact ⟨by decide, fun hup => (hnames up hup).ne_up rfl⟩

theorem IsCanonical.eq_root_of_getLast? (h : IsCanonical path) (hlast : path.getLast? = some '/') :
    path = ['/'] := by
  obtain ⟨front, rfl⟩ := List.getLast?_eq_some_iff.mp hlast
  have hend : (front ++ ['/']).splitOn '/' = front.splitOn '/' ++ [[]] :=
    List.splitOn_append_cons_self front []
  rcases h.splitOn_cases with hroot | ⟨names, hne, hnames, hsplit⟩ | hsegments
  · exact hroot
  · -- the empty segment after the last slash would be one of the names
    have hmem : [] ∈ names := by
      have hlastName := congrArg List.getLast? (hsplit.symm.trans hend)
      obtain ⟨name, hname⟩ := Option.ne_none_iff_exists'.mp (mt List.getLast?_eq_none_iff.mp hne)
      rw [List.getLast?_cons, hname, List.getLast?_concat] at hlastName
      cases hlastName
      exact List.mem_of_getLast? hname
    exact absurd rfl (hnames [] hmem).ne_nil
  · exact absurd rfl (hsegments [] (by simp [hend]))

theorem IsCanonical.ne_nil (h : IsCanonical path) : path ≠ [] := by
  rintro rfl
  revert h
  decide

/--
**Resolving computes a normal form.** For every path, the resolved form

* is canonical, and starts at the root if and only if the path does;
* is the path itself if and only if the path is canonical, so that resolving twice changes nothing;
* is not empty, ends in a slash only as the root itself, and never climbs above the root.
-/
theorem clean_normal_form (path : String) :
    IsCanonical (clean path).toList ∧
    ((clean path).toList.head? = some '/' ↔ path.toList.head? = some '/') ∧
    (clean path = path ↔ IsCanonical path.toList) ∧
    clean (clean path) = clean path ∧
    clean path ≠ "" ∧
    ((clean path).toList.getLast? = some '/' → clean path = "/") ∧
    (path.toList.head? = some '/' → up ∉ (clean path).toList.splitOn '/') := by
  have hcanonical := isCanonical_clean path
  have hhead : (clean path).toList.head? = some '/' ↔ path.toList.head? = some '/' := by
    rw [toList_clean]
    exact head?_cleanChars path.toList
  refine ⟨hcanonical, hhead, ?_, ?_, ?_, ?_, ?_⟩
  · exact clean_eq_self_iff
  · exact clean_eq_self_iff.mpr hcanonical
  · intro hempty
    exact hcanonical.ne_nil (by rw [hempty]; rfl)
  · intro hlast
    exact String.toList_inj.mp (hcanonical.eq_root_of_getLast? hlast)
  · intro hroot
    exact hcanonical.up_not_mem_splitOn (hhead.mpr hroot)

/-- A path that tries to climb above the root, and one that ends there. -/
theorem clean_normal_form_of_climbing :
    (clean "/a/../../b//./c/" = "/b/c" ∧ IsCanonical "/b/c".toList ∧
      up ∉ "/b/c".toList.splitOn '/') ∧
    ((clean "/a/..").toList.getLast? = some '/' ∧ clean "/a/.." = "/") := by
  have hclean : clean "/a/../../b//./c/" = "/b/c" := by decide
  have hend : (clean "/a/..").toList.getLast? = some '/' := by decide
  obtain ⟨hcanonical, -, -, -, -, -, hclimb⟩ := clean_normal_form "/a/../../b//./c/"
  obtain ⟨-, -, -, -, -, hlast, -⟩ := clean_normal_form "/a/.."
  rw [hclean] at hcanonical hclimb
  exact ⟨⟨hclean, hcanonical, hclimb (by decide)⟩, hend, hlast hend⟩

end Admission.Path
