import Admission.Client.Host
import Admission.Proofs.Address.Roundtrip
/-!
# The grammar of transport addresses

Finding the host of a transport address looks for the first `]:` of a text that starts with a
bracket, and counts the colons of any other one. Here the same is said by a grammar with two forms,
in which nothing is searched for.

1. `cut_of_not_infix`, `not_infix_of_cut`: the mark after a bracketed host is the first one exactly
   if the host holds none
2. `HostPort.hostChars_eq`, `exists_hostPort_or`: the host of a text of the grammar is found, and
   for no other text is there anything but the empty text
3. `HostPort.unique`: a text has one host and one port at most
4. `not_hostPort_chars`: an address without a port is not in the grammar
5. `host_eq_of_grammar`: what follows for texts and for addresses
-/

namespace Admission

namespace Text

variable {x y : Char} {mark text before after : List Char}

/-- **The first of two characters in a row** comes right after a text that does not hold them. -/
theorem cut_of_not_infix (hne : x ≠ y) (h : ¬ [x, y] <:+: before) :
    cut [x, y] (before ++ [x, y] ++ after) = some (before, after) := by
  induction before with
  | nil => simp [cut]
  | cons c rest ih =>
    have hprefix : ¬ [x, y].isPrefixOf (c :: rest ++ [x, y] ++ after) := by
      intro hfirst
      obtain ⟨tail, htail⟩ := List.isPrefixOf_iff_prefix.mp hfirst
      obtain ⟨rfl, hrest⟩ := List.cons.inj htail
      cases rest with
      | nil => exact hne (List.cons.inj hrest).1.symm
      | cons d more =>
        obtain ⟨rfl, -⟩ := List.cons.inj hrest
        exact h ⟨[], more, rfl⟩
    have hrest : ¬ [x, y] <:+: rest := fun hin => h (hin.trans (List.suffix_cons c rest).isInfix)
    rw [List.cons_append, List.cons_append] at hprefix ⊢
    rw [cut, if_neg hprefix, ih hrest, Option.map_some]

/-- **Before the first occurrence of a mark there is none.** -/
theorem not_infix_of_cut (hmark : mark ≠ []) (h : cut mark text = some (before, after)) :
    ¬ mark <:+: before := by
  induction text generalizing before with
  | nil => simp [cut, hmark] at h
  | cons c rest ih =>
    rw [cut] at h
    split at h
    · obtain ⟨rfl, -⟩ := Prod.mk.inj (Option.some.inj h)
      rwa [List.infix_nil]
    · next hprefix =>
      obtain ⟨⟨front, back⟩, hrest, heq⟩ := Option.map_eq_some_iff.mp h
      obtain ⟨rfl, rfl⟩ := Prod.mk.inj heq
      rw [List.infix_cons_iff]
      rintro (hfirst | hlater)
      · rw [cut_eq_some hrest, List.append_assoc] at hprefix
        exact hprefix (List.isPrefixOf_iff_prefix.mpr
          (hfirst.trans (List.prefix_append (c :: front) (mark ++ back))))
      · exact ih hrest hlater

end Text

namespace Client

variable {text host port host' port' : List Char}

/-! ## The grammar -/

/-- A transport address with its host and its port. -/
inductive HostPort : List Char → List Char → List Char → Prop where
  /-- `host:port`, with no other colon and without a bracket in front. -/
  | plain {host port : List Char} (hhost : ':' ∉ host) (hfront : host.head? ≠ some '[')
      (hport : ':' ∉ port) : HostPort (host ++ ':' :: port) host port
  /-- `[host]:port`, with no other `]:` before the port and no colon in it. -/
  | bracketed {host port : List Char} (hhost : ¬ bracketEnd <:+: host) (hport : ':' ∉ port) :
      HostPort ('[' :: (host ++ bracketEnd ++ port)) host port

/-- **The host of a text of the grammar is found.** -/
theorem HostPort.hostChars_eq (h : HostPort text host port) : hostChars text = host := by
  cases h with
  | plain hhost hfront hport => exact hostChars_plain hhost hfront hport
  | bracketed hhost hport =>
    exact hostChars_bracketed (Text.cut_of_not_infix (by decide) hhost) hport

/-- **Nothing but the empty text is found in any other text.** -/
theorem exists_hostPort_or (text : List Char) :
    (∃ host port, HostPort text host port) ∨ hostChars text = [] := by
  unfold hostChars
  split
  · next rest =>
    cases hcut : Text.cut bracketEnd rest with
    | none => exact .inr rfl
    | some parts =>
      obtain ⟨host, port⟩ := parts
      by_cases hport : ':' ∈ port
      · exact .inr (if_pos hport)
      · have hhost := Text.not_infix_of_cut (by decide) hcut
        rw [Text.cut_eq_some hcut]
        exact .inl ⟨host, port, .bracketed hhost hport⟩
  · next hfront =>
    split
    · next host port hfields =>
      have htext : host ++ ':' :: port = text := by
        rw [← Text.unfields_fields ':' text, hfields]
        rfl
      have hnone : ∀ field ∈ [host, port], ':' ∉ field := fun field hfield =>
        Text.not_mem_of_mem_fields (hfields ▸ hfield)
      refine .inl ⟨host, port, htext ▸ .plain (hnone _ (by simp)) ?_ (hnone _ (by simp))⟩
      intro hbracket
      obtain ⟨rest, rfl⟩ := List.head?_eq_some_iff.mp hbracket
      exact hfront _ htext.symm
    · exact .inr rfl

/-- **A text has one host and one port at most.** -/
theorem HostPort.unique (h : HostPort text host port) (h' : HostPort text host' port') :
    host = host' ∧ port = port' := by
  obtain rfl : host = host' := h.hostChars_eq.symm.trans h'.hostChars_eq
  refine ⟨rfl, ?_⟩
  cases h with
  | plain hhost hfront hport =>
    generalize htext : host ++ ':' :: port = text at h'
    cases h' with
    | plain => exact (List.cons.inj (List.append_cancel_left htext)).2
    | bracketed =>
      -- only a host that starts with a bracket makes such a text
      cases host with
      | nil => cases htext
      | cons c rest => exact absurd (congrArg some (List.cons.inj htext).1) hfront
  | bracketed hhost hport =>
    generalize htext : '[' :: (host ++ bracketEnd ++ port) = text at h'
    cases h' with
    | plain hhost' hfront' =>
      cases host with
      | nil => cases htext
      | cons c rest => exact absurd (congrArg some (List.cons.inj htext).1.symm) hfront'
    | bracketed => exact List.append_cancel_left (List.cons.inj htext).2

/-- A text of the grammar that does not start with a bracket has one colon. -/
theorem HostPort.count_colon (h : HostPort text host port) (hfront : text.head? ≠ some '[') :
    text.count ':' = 1 := by
  cases h with
  | plain hhost _ hport =>
    rw [List.count_append, List.count_cons_self, List.count_eq_zero.mpr hhost,
      List.count_eq_zero.mpr hport]
  | bracketed => exact absurd rfl hfront

end Client

/-! ## Addresses -/

namespace Address

open Admission.Client Admission.Text

/-- An address with a port as text; an IPv6 address stands in brackets. -/
def withPort (a : Address) (port : UInt16) : String :=
  String.ofList (match a with
    | v4 bits => octetsText bits ++ ':' :: decimal port.toNat
    | v6 bits => '[' :: (v6Text bits ++ bracketEnd ++ decimal port.toNat))

/-- The text of an address holds no brackets. -/
theorem brackets_not_mem_chars (a : Address) : '[' ∉ a.chars ∧ ']' ∉ a.chars := by
  have hread : read? alone a.chars = some a := read?_chars (by decide) a
  exact ⟨not_mem_of_read? hread (by decide) (by decide) (by decide),
    not_mem_of_read? hread (by decide) (by decide) (by decide)⟩

theorem head?_chars_ne (a : Address) : a.chars.head? ≠ some '[' := fun hfront =>
  (brackets_not_mem_chars a).1 (List.mem_of_head? hfront)

theorem colon_not_mem_octetsText (bits : BitVec 32) : ':' ∉ octetsText bits := by
  have hread : octets? alone (octetsText bits) = some (octets bits) := octets?_octetsText bits
  exact not_mem_of_octets? hread (by decide) (by decide)

/-- The text of an IPv6 address has more than one colon. -/
theorem one_lt_count_colon (bits : BitVec 128) : 1 < (v6Text bits).count ':' := by
  rcases cases_v6Text bits with ⟨inner, -, htext⟩ | ⟨start, length, -, htext⟩ | htext
  · simp [htext]
  · simp only [htext, List.count_append]
    have hgap : List.count ':' [':', ':'] = 2 := by decide
    omega
  · obtain ⟨a, b, c, rest, hgroups⟩ : ∃ a b c rest, groups bits = a :: b :: c :: rest :=
      ⟨_, _, _, _, rfl⟩
    simp only [htext, hgroups, groupsText, List.map_cons, unfields, List.count_append,
      List.count_cons_self]
    omega

/-- **An address without a port is not in the grammar.** -/
theorem not_hostPort_chars (a : Address) (host port : List Char) :
    ¬ HostPort a.chars host port := by
  intro h
  have hcount := h.count_colon (head?_chars_ne a)
  cases a with
  | v4 bits =>
    rw [chars, List.count_eq_zero.mpr (colon_not_mem_octetsText bits)] at hcount
    cases hcount
  | v6 bits => exact Nat.ne_of_gt (one_lt_count_colon bits) hcount

/-- **An address with a port is in the grammar, and the address is its host.** -/
theorem hostPort_withPort (a : Address) (port : UInt16) :
    HostPort (a.withPort port).toList a.chars (decimal port.toNat) := by
  have hport : ':' ∉ decimal port.toNat := fun hmem => ne_of_mem_decimal hmem (by decide) rfl
  unfold withPort
  rw [String.toList_ofList]
  cases a with
  | v4 bits => exact .plain (colon_not_mem_octetsText bits) (head?_chars_ne (v4 bits)) hport
  | v6 bits =>
    refine .bracketed (fun hin => (brackets_not_mem_chars (v6 bits)).2 ?_) hport
    exact hin.subset (by decide)

end Address

namespace Client

/--
**The host of a transport address is that of its grammar.** A text of the grammar has one host and
one port only, and its host is found; for any other text the empty text is found. So the host of an
IPv4 or IPv6 address with a port is the text of the address, and that of an address without a port
is the empty text.
-/
theorem host_eq_of_grammar :
    (∀ address : String,
      (∀ h p, HostPort address.toList h p → host address = String.ofList h ∧
        ∀ h' p', HostPort address.toList h' p' → h = h' ∧ p = p') ∧
      ((¬ ∃ h p, HostPort address.toList h p) → host address = "")) ∧
    ∀ (a : Address) (port : UInt16), host (a.withPort port) = a.text ∧ host a.text = "" := by
  have hfound : ∀ {address : String} {h p}, HostPort address.toList h p →
      host address = String.ofList h := fun hparts => congrArg String.ofList hparts.hostChars_eq
  have hempty : ∀ {address : String}, (¬ ∃ h p, HostPort address.toList h p) →
      host address = "" := fun hnone =>
    congrArg String.ofList ((exists_hostPort_or _).resolve_left hnone)
  refine ⟨fun address => ⟨fun h p hparts => ⟨hfound hparts, fun h' p' => hparts.unique⟩, hempty⟩,
    fun a port => ⟨hfound (a.hostPort_withPort port), hempty ?_⟩⟩
  rintro ⟨h, p, hparts⟩
  rw [Address.text, String.toList_ofList] at hparts
  exact a.not_hostPort_chars h p hparts

/-- A bracketed host with a colon in front and brackets at its end, a text with two marks after
which a port might come, and an IPv6 address with its port. -/
theorem host_eq_of_grammar_of_stray_marks :
    host "[:a]]]:80" = ":a]]" ∧ host "[a]:b]:80" = "" ∧ host "[::1]:8080" = "::1" := by
  obtain ⟨htexts, haddresses⟩ := host_eq_of_grammar
  refine ⟨?_, ?_, ?_⟩
  · have htext : "[:a]]]:80".toList =
        '[' :: ([':', 'a', ']', ']'] ++ bracketEnd ++ ['8', '0']) := by
      decide
    have hparts : HostPort "[:a]]]:80".toList [':', 'a', ']', ']'] ['8', '0'] := by
      rw [htext]
      exact .bracketed (by decide) (by decide)
    exact ((htexts _).1 _ _ hparts).1
  · refine (htexts _).2 ?_
    rintro ⟨h, p, hparts⟩
    have hnone : h = [] := hparts.hostChars_eq.symm.trans (by decide)
    generalize htext : "[a]:b]:80".toList = text at hparts
    cases hparts with
    | plain => simp [hnone] at htext
    | bracketed => simp [hnone, bracketEnd] at htext
  · have htext : Address.withPort (.v6 1#128) 8080 = "[::1]:8080" := by decide +kernel
    have hhost := (haddresses (.v6 1#128) 8080).1
    rw [htext] at hhost
    exact hhost.trans (by decide +kernel)

end Client

end Admission
