import Admission.Proofs.Store.Commands
/-!
# Purging

Can a purge be seen? A counter whose window is over reads as absent, and the next increment starts
it again, so that it should not matter whether it is still stored. An expiry is the one command that
does not look whether the window is over: it sets a new end for a stored counter in any case, and so
brings a counter back that a purge would have dropped.

Two runs of the same commands are led side by side, one with the purges and one without them.

1. `Counters.Trims`: the table of the one lacks at most counters whose window is over
2. `Trims.left`, `Trims.told_eq`: a command that revives no counter keeps this, and tells the same
3. `Trims.answersBy_eq`: hence the runs answer alike as long as no counter is revived
4. `purging_unseen_iff`: purges are unseen exactly if no expiry revives a counter

In step 4 the purges and the readings around the changes of a history are arbitrary. A reading right
after an expiry that revives a counter shows the difference.
-/

namespace Admission

namespace Counters

/-! ## Tables that lack what is over -/

/-- A table lacks at most such counters of another one whose window is over. -/
def Trims (trimmed full : Counters) (now : Nat) : Prop :=
  ∀ key, trimmed.find? key = full.find? key ∨
    (trimmed.find? key = none ∧ full.live? now key = none)

variable {trimmed full : Counters} {now next : Nat} {key : String}

theorem trims_refl (table : Counters) (now : Nat) : Trims table table now :=
  fun _ => .inl rfl

namespace Trims

theorem later (h : Trims trimmed full now) (hle : now ≤ next) : Trims trimmed full next := by
  intro key
  refine (h key).imp_right fun ⟨hlacks, hover⟩ => ⟨hlacks, ?_⟩
  rw [live?_of_le hle, hover]
  rfl

theorem live?_eq (h : Trims trimmed full now) (key : String) :
    trimmed.live? now key = full.live? now key := by
  rcases h key with hsame | ⟨hlacks, hover⟩
  · exact live?_congr hsame
  · rw [hover, live?, hlacks]
    rfl

theorem count?_eq (h : Trims trimmed full now) (key : String) :
    trimmed.count? now key = full.count? now key := by
  rw [count?, count?, h.live?_eq]

theorem liveCount_eq (h : Trims trimmed full now) (key : String) :
    trimmed.liveCount now key = full.liveCount now key := by
  rw [liveCount, liveCount, h.count?_eq]

/-- An increment looks at what is seen of its key only. -/
theorem hitOf_eq (h : Trims trimmed full now) (key : String) :
    trimmed.hitOf now key = full.hitOf now key := by
  have hlive := h.live?_eq key
  cases hfull : full.live? now key with
  | none => rw [hitOf_of_not_live hfull, hitOf_of_not_live (hlive.trans hfull)]
  | some counter => rw [hitOf_of_live hfull, hitOf_of_live (hlive.trans hfull)]

/-- Only what is stored for one key has to be looked at if the rest stays as it is. -/
theorem of_key {trimmed' full' : Counters} (h : Trims trimmed full now) (key : String)
    (hkey : trimmed'.find? key = full'.find? key)
    (htrimmed : ∀ other ≠ key, trimmed'.find? other = trimmed.find? other)
    (hfull : ∀ other ≠ key, full'.find? other = full.find? other) : Trims trimmed' full' now := by
  intro other
  by_cases ho : other = key
  · exact .inl (ho ▸ hkey)
  · rw [htrimmed other ho, hfull other ho, live?_congr (hfull other ho)]
    exact h other

theorem incr (h : Trims trimmed full now) (key : String) :
    Trims (trimmed.incr now key).2 (full.incr now key).2 now := by
  refine h.of_key key ?_ (fun other ho => by simp [ho]) fun other ho => by simp [ho]
  simp [h.hitOf_eq]

theorem hit (h : Trims trimmed full now) (key : String) (period : Duration) :
    Trims ((Store.Memory.mk now trimmed).hit key period) ((Store.Memory.mk now full).hit key period)
      now := by
  refine h.of_key key ?_ (fun _ ho => Store.Memory.find?_hit_of_ne _ ho)
    fun _ ho => Store.Memory.find?_hit_of_ne _ ho
  rw [Store.Memory.find?_hit_self, Store.Memory.find?_hit_self, h.liveCount_eq, h.hitOf_eq]

/-- An expiry does the same to both tables if the window of its counter is not over. -/
theorem expire (h : Trims trimmed full now) (period : Duration)
    (hopen : (full.find? key).any (·.isOver now) = false) :
    Trims (trimmed.expire now key period) (full.expire now key period) now := by
  refine h.of_key key ?_ (fun other ho => by simp [ho]) fun other ho => by simp [ho]
  rw [find?_expire, find?_expire, if_pos rfl, if_pos rfl]
  rcases h key with hsame | ⟨hlacks, hover⟩
  · rw [hsame]
  · cases hfull : full.find? key with
    | none => rw [hlacks]
    | some counter =>
      rw [hfull, Option.any_some] at hopen
      rw [live?_eq_some_iff.mpr ⟨hfull, hopen⟩] at hover
      cases hover

/-- A purge of the one table takes only what is over. -/
theorem purge (h : Trims trimmed full now) : Trims (trimmed.purge now) full now := by
  intro key
  rw [find?_purge, h.live?_eq]
  cases hfull : full.live? now key with
  | none => exact .inr ⟨rfl, rfl⟩
  | some counter => exact .inl (live?_eq_some_iff.mp hfull).1.symm

end Trims

end Counters

namespace Store

open Counters

/-! ## Purges and changes of a history -/

/-- Whether the number of dropped counters is told. -/
def Told.isDropped : Told → Bool
  | dropped _ => true
  | _ => false

/-- What the commands of a history tell, but for the numbers that purges tell. -/
def answersBy (history : List Issued) (table : Counters) : List Told :=
  (toldBy history table).filter fun told => !told.isDropped

/-- The commands of a history other than purges. -/
def withoutPurges (history : List Issued) : List Issued :=
  history.filter fun issued => issued.command ≠ .purge

/-- Whether a command counts, sets an end or clears the store. -/
def Command.changes : Command → Bool
  | count _ => false
  | purge => false
  | _ => true

/-- The commands of a history other than purges and readings. -/
def changesOf (history : List Issued) : List Issued :=
  history.filter fun issued => issued.command.changes

/-- Whether a command sets an end for a stored counter whose window is over. -/
def Issued.revives (issued : Issued) (table : Counters) : Bool :=
  match issued.command with
  | .expire key _ => (table.find? key).any (·.isOver issued.time)
  | _ => false

/-- No command of a history sets an end for a stored counter whose window is over. -/
def RevivesNone (history : List Issued) (table : Counters) : Prop :=
  ∀ before issued after, history = before ++ issued :: after →
    issued.revives (leftBy before table) = false

variable {history rest : List Issued} {issued : Issued} {table : Counters}

theorem revivesNone_nil (table : Counters) : RevivesNone [] table := by
  intro before issued after h
  simp at h

theorem revivesNone_cons :
    RevivesNone (issued :: rest) table ↔
      issued.revives table = false ∧ RevivesNone rest (issued.left table) := by
  constructor
  · intro h
    refine ⟨h [] issued rest rfl, fun before next after hrest => ?_⟩
    exact h (issued :: before) next after (by rw [hrest, List.cons_append])
  · rintro ⟨hfirst, hrest⟩ before next after h
    cases before with
    | nil =>
      obtain ⟨rfl, -⟩ := List.cons_eq_cons.mp h
      exact hfirst
    | cons first before =>
      obtain ⟨rfl, htail⟩ := List.cons_eq_cons.mp h
      exact hrest before next after htail

instance : (history : List Issued) → (table : Counters) → Decidable (RevivesNone history table)
  | [], table => isTrue (revivesNone_nil table)
  | issued :: rest, table =>
    have : Decidable (RevivesNone rest (issued.left table)) :=
      instDecidableRevivesNone rest (issued.left table)
    decidable_of_iff _ revivesNone_cons.symm

theorem isDropped_told (issued : Issued) (table : Counters) :
    (issued.told table).isDropped = decide (issued.command = .purge) := by
  obtain ⟨time, command⟩ := issued
  cases command with
  | hit key period =>
    rw [told_hit]
    rfl
  | incr key => rfl
  | expire key period => rfl
  | count key => rfl
  | purge => rfl
  | clear => rfl

theorem changesOf_withoutPurges (history : List Issued) :
    changesOf (withoutPurges history) = changesOf history := by
  rw [changesOf, withoutPurges, List.filter_filter]
  refine List.filter_congr fun issued _ => ?_
  cases hcommand : issued.command <;> rfl

theorem answersBy_append (before after : List Issued) (table : Counters) :
    answersBy (before ++ after) table =
      answersBy before table ++ answersBy after (leftBy before table) := by
  rw [answersBy, toldBy_append, List.filter_append]
  rfl

theorem answersBy_cons_of_ne (h : issued.command ≠ .purge) :
    answersBy (issued :: rest) table =
      issued.told table :: answersBy rest (issued.left table) := by
  simp [answersBy, toldBy, isDropped_told, h]

theorem answersBy_purge_cons (time : Nat) :
    answersBy (⟨time, .purge⟩ :: rest) table = answersBy rest (table.purge time) := by
  simp [answersBy, toldBy, Told.isDropped]

/-- A command that is neither a change nor a purge is a reading, and leaves the table. -/
theorem left_eq_of_not_changes (h : issued.command.changes = false)
    (hpurge : issued.command ≠ .purge) : issued.left table = table := by
  obtain ⟨time, command⟩ := issued
  cases command with
  | count key => rfl
  | purge => exact absurd rfl hpurge
  | incr key => cases h
  | expire key period => cases h
  | hit key period => cases h
  | clear => cases h

end Store

/-! ## Two runs side by side -/

namespace Counters.Trims

open Store

variable {trimmed full : Counters} {now : Nat} {issued : Issued} {history : List Issued}

/-- **No command but a purge tells whether a counter that is over is stored.** -/
theorem told_eq (h : Trims trimmed full issued.time) (hpurge : issued.command ≠ .purge) :
    issued.told trimmed = issued.told full := by
  obtain ⟨time, command⟩ := issued
  cases command with
  | incr key => rw [told_incr, told_incr, h.hitOf_eq]
  | expire key period => rfl
  | hit key period => rw [told_hit, told_hit, h.hitOf_eq]
  | count key => rw [told_count, told_count, h.count?_eq]
  | purge => exact absurd rfl hpurge
  | clear => rfl

/-- **A command that revives no counter leaves both tables alike.** -/
theorem left (h : Trims trimmed full issued.time) (hpurge : issued.command ≠ .purge)
    (hrevives : issued.revives full = false) :
    Trims (issued.left trimmed) (issued.left full) issued.time := by
  obtain ⟨time, command⟩ := issued
  cases command with
  | incr key => exact h.incr key
  | expire key period => exact h.expire period hrevives
  | hit key period =>
    rw [left_hit, left_hit]
    exact h.hit key period
  | count key => exact h
  | purge => exact absurd rfl hpurge
  | clear => exact trims_refl _ _

/-- **A run with purges answers as the run without them** if that revives no counter. -/
theorem answersBy_eq (h : Trims trimmed full now) (hordered : Ordered history)
    (hlater : ∀ issued ∈ history, now ≤ issued.time)
    (hnone : RevivesNone (changesOf history) full) :
    answersBy history trimmed = answersBy (withoutPurges history) full := by
  induction history generalizing now trimmed full with
  | nil => rfl
  | cons issued rest ih =>
    obtain ⟨hafter, hrest⟩ := List.pairwise_cons.mp hordered
    have h := h.later (List.forall_mem_cons.mp hlater).1
    by_cases hpurge : issued.command = .purge
    · -- the purge takes place in the one run only
      obtain ⟨time, command⟩ := issued
      obtain rfl : command = .purge := hpurge
      rw [answersBy_purge_cons]
      exact ih h.purge hrest hafter hnone
    · have hwithout : withoutPurges (issued :: rest) = issued :: withoutPurges rest := by
        simp [withoutPurges, hpurge]
      rw [hwithout, answersBy_cons_of_ne hpurge, answersBy_cons_of_ne hpurge, h.told_eq hpurge]
      congr 1
      by_cases hchanges : issued.command.changes = true
      · have hchange : changesOf (issued :: rest) = issued :: changesOf rest := by
          simp [changesOf, hchanges]
        rw [hchange, revivesNone_cons] at hnone
        exact ih (h.left hpurge hnone.1) hrest hafter hnone.2
      · have hreading := Bool.eq_false_iff.mpr hchanges
        have hskip : changesOf (issued :: rest) = changesOf rest := by
          simp [changesOf, hchanges]
        rw [hskip] at hnone
        rw [left_eq_of_not_changes hreading hpurge, left_eq_of_not_changes hreading hpurge]
        exact ih h hrest hafter hnone

end Counters.Trims

/-! ## When a purge is seen -/

namespace Store

open Counters

variable {history : List Issued}

theorem answersBy_eq_of_withoutPurges_eq {first second : List Issued} (hfirst : Ordered first)
    (hsecond : Ordered second) (hsame : withoutPurges first = withoutPurges second)
    (hnone : RevivesNone (changesOf first) .empty) :
    answersBy first .empty = answersBy second .empty := by
  have hchanges : changesOf second = changesOf first := by
    rw [← changesOf_withoutPurges, ← hsame, changesOf_withoutPurges]
  calc answersBy first .empty
      = answersBy (withoutPurges first) .empty :=
        (trims_refl _ 0).answersBy_eq hfirst (fun _ _ => Nat.zero_le _) hnone
    _ = answersBy (withoutPurges second) .empty := by rw [hsame]
    _ = answersBy second .empty :=
        ((trims_refl _ 0).answersBy_eq hsecond (fun _ _ => Nat.zero_le _)
          (hchanges ▸ hnone)).symm

/-- An expiry that revives a counter makes its count seen at once. -/
theorem count?_expire_of_isOver {table : Counters} {time : Nat} {key : String} {period : Duration}
    {counter : Counter} (hf : table.find? key = some counter) (hperiod : 0 < period.nanos) :
    (table.expire time key period).count? time key = some counter.count := by
  have hopen : (Counter.mk counter.count (deadline time period)).isOver time = false :=
    Counter.isOver_deadline_of_lt counter.count (by omega)
  have hend : (table.expire time key period).find? key =
      some ⟨counter.count, deadline time period⟩ := by
    rw [find?_expire, if_pos rfl, hf]
    rfl
  rw [count?, live?_eq_some_iff.mpr ⟨hend, hopen⟩]
  rfl

/-- After a purge the same expiry finds no counter. -/
theorem count?_expire_purge_of_isOver {table : Counters} {time : Nat} {key : String}
    {period : Duration} {counter : Counter} (hf : table.find? key = some counter)
    (hover : counter.isOver time = true) :
    ((table.purge time).expire time key period).count? time key = none := by
  have hlacks : ((table.purge time).expire time key period).find? key = none := by
    rw [find?_expire, if_pos rfl, find?_purge, live?, hf, Option.filter_some, hover]
    rfl
  rw [count?, live?, hlacks]
  rfl

/-- **An expiry that revives a counter shows whether a purge came before it.** -/
theorem answersBy_ne_of_revives {before : List Issued} {time : Nat} {key : String}
    {period : Duration} (hperiod : 0 < period.nanos)
    (hrevives : (Issued.mk time (.expire key period)).revives (leftBy before .empty) = true)
    (after : List Issued) :
    answersBy (before ++ ⟨time, .expire key period⟩ :: ⟨time, .count key⟩ :: after) .empty ≠
      answersBy
        (before ++ ⟨time, .purge⟩ :: ⟨time, .expire key period⟩ :: ⟨time, .count key⟩ :: after)
        .empty := by
  obtain ⟨counter, hf, hover⟩ := (Option.any_eq_true _ _).mp hrevives
  have hexpire : (Issued.mk time (.expire key period)).command ≠ .purge := by simp
  have hcount : (Issued.mk time (.count key)).command ≠ .purge := by simp
  intro h
  rw [answersBy_append, answersBy_append, answersBy_purge_cons] at h
  have htail := List.append_cancel_left h
  simp only [answersBy_cons_of_ne hexpire, answersBy_cons_of_ne hcount, left_expire, told_count,
    count?_expire_of_isOver hf hperiod, count?_expire_purge_of_isOver hf hover] at htail
  simp at htail

/-- A command may be issued once more, or another one with it, right before or after it. -/
theorem Ordered.insert {before after : List Issued} {issued : Issued}
    (h : Ordered (before ++ issued :: after)) (other : Issued) (htime : other.time = issued.time) :
    Ordered (before ++ other :: issued :: after) ∧ Ordered (before ++ issued :: other :: after) := by
  simp only [Ordered, List.pairwise_append, List.pairwise_cons, List.forall_mem_cons] at h ⊢
  grind

/--
**When purges are unseen.** Take the changes of a history, put purges and readings between them in
any way, and then put other purges: all commands but the purges tell the same both times, whatever
was put where. This holds exactly if no change of the history is an expiry that finds a counter
whose window is over.
-/
theorem purging_unseen_iff (hordered : Ordered history)
    (hperiods : ∀ issued ∈ history, issued.command.HasPeriod) :
    (∀ first second, Ordered first → Ordered second →
      changesOf first = changesOf history → withoutPurges first = withoutPurges second →
        answersBy first .empty = answersBy second .empty) ↔
      RevivesNone (changesOf history) .empty := by
  constructor
  · intro hunseen before issued after hsplit
    rw [← Bool.not_eq_true]
    intro hrevives
    obtain ⟨time, command⟩ := issued
    cases command with
    | expire key period =>
      have hmem : ⟨time, .expire key period⟩ ∈ changesOf history := by simp [hsplit]
      have hperiod : 0 < period.nanos := hperiods _ (List.mem_filter.mp hmem).1
      have hchanges : Ordered (before ++ ⟨time, .expire key period⟩ :: after) :=
        hsplit ▸ hordered.sublist List.filter_sublist
      -- a reading right after the expiry, once without and once with a purge right before it
      have hfirst := (hchanges.insert ⟨time, .count key⟩ rfl).2
      have hsecond := (hfirst.insert ⟨time, .purge⟩ rfl).1
      refine answersBy_ne_of_revives hperiod hrevives after (hunseen _ _ hfirst hsecond ?_ ?_)
      · have hagain : changesOf (changesOf history) = changesOf history := by
          simp [changesOf, List.filter_filter]
        rw [← hagain, hsplit]
        simp [changesOf, Command.changes]
      · simp [withoutPurges]
    | incr key => cases hrevives
    | hit key period => cases hrevives
    | count key => cases hrevives
    | purge => cases hrevives
    | clear => cases hrevives
  · intro hnone first second hfirst hsecond hchanges hsame
    exact answersBy_eq_of_withoutPurges_eq hfirst hsecond hsame (hchanges ▸ hnone)

/-- The third command starts the counter again at the very end of its window, before the fourth one
sets a new end. -/
def restarted : List Issued :=
  [⟨0, .hit "a" (.ofSecs 1)⟩, ⟨500_000_000, .hit "a" (.ofSecs 1)⟩, ⟨1_000_000_000, .incr "a"⟩,
    ⟨1_000_000_000, .expire "a" (.ofSecs 1)⟩, ⟨3_000_000_000, .hit "a" (.ofSecs 1)⟩]

/-- The same commands with a purge at each end of a window. -/
def restartedWithPurges : List Issued :=
  [⟨0, .hit "a" (.ofSecs 1)⟩, ⟨500_000_000, .hit "a" (.ofSecs 1)⟩, ⟨1_000_000_000, .purge⟩,
    ⟨1_000_000_000, .incr "a"⟩, ⟨1_000_000_000, .expire "a" (.ofSecs 1)⟩, ⟨2_000_000_000, .purge⟩,
    ⟨3_000_000_000, .hit "a" (.ofSecs 1)⟩]

/-- An expiry right after the increment that starts a counter again lets no purge be seen. -/
theorem purging_unseen_iff_of_restarted :
    Ordered restarted ∧ (∀ issued ∈ restarted, issued.command.HasPeriod) ∧
      answersBy restarted .empty = answersBy restartedWithPurges .empty ∧
      answersBy restarted .empty =
        [.counted (.ok 1), .counted (.ok 2), .counted (.ok 1), .done, .counted (.ok 1)] := by
  have hordered : Ordered restarted := by decide
  have hperiods : ∀ issued ∈ restarted, issued.command.HasPeriod := by
    simp [restarted, Command.HasPeriod, Duration.ofSecs]
  have hnone : RevivesNone (changesOf restarted) .empty := by decide +kernel
  refine ⟨hordered, hperiods, ?_, by decide +kernel⟩
  exact (purging_unseen_iff hordered hperiods).mpr hnone restarted restartedWithPurges hordered
    (by decide) rfl (by decide)

/-- **Not every purge is unseen**: an expiry revives a counter whose window is over, unless a purge
has dropped it. -/
theorem not_purging_unseen :
    ¬ ∀ first second : List Issued, Ordered first → Ordered second →
      (∀ issued ∈ first, issued.command.HasPeriod) → withoutPurges first = withoutPurges second →
        answersBy first .empty = answersBy second .empty := by
  intro h
  have hsame := h
    [⟨0, .incr "a"⟩, ⟨0, .expire "a" (.ofSecs 1)⟩, ⟨2_000_000_000, .expire "a" (.ofSecs 60)⟩,
      ⟨2_000_000_000, .incr "a"⟩]
    [⟨0, .incr "a"⟩, ⟨0, .expire "a" (.ofSecs 1)⟩, ⟨2_000_000_000, .purge⟩,
      ⟨2_000_000_000, .expire "a" (.ofSecs 60)⟩, ⟨2_000_000_000, .incr "a"⟩]
    (by decide) (by decide) (by simp [Command.HasPeriod, Duration.ofSecs]) (by decide)
  revert hsame
  decide +kernel

/-! ## Histories without single expiries -/

/-- A hit sets the end of the window that its own increment has opened, so it revives nothing. -/
theorem revivesNone_of_no_expiry
    (h : ∀ issued ∈ history, ∀ key period, issued.command ≠ .expire key period)
    (table : Counters) : RevivesNone history table := by
  intro before issued after hsplit
  have hissued := h issued (by simp [hsplit])
  unfold Issued.revives
  split
  · next hexpire => exact absurd hexpire (hissued _ _)
  · rfl

/-- **Where ends are set by hits only, no purge is ever seen.** -/
theorem purging_unseen_of_no_expiry {first second : List Issued} (hfirst : Ordered first)
    (hsecond : Ordered second) (hsame : withoutPurges first = withoutPurges second)
    (h : ∀ issued ∈ first, ∀ key period, issued.command ≠ .expire key period) :
    answersBy first .empty = answersBy second .empty :=
  answersBy_eq_of_withoutPurges_eq hfirst hsecond hsame <|
    revivesNone_of_no_expiry (fun issued hissued => h issued (List.mem_filter.mp hissued).1) _

end Store

end Admission
