import Regraft.Proofs.Text.Cut
import Regraft.Proofs.Text.Solid

/-!
# Regraft.Proofs.Text.Layout -- texts laid out with spaces, tabs and line ends

The white space of ordinary source code is spaces, tabs, line feeds and carriage returns that
belong to a line feed (`plainBlanks`).  The property goes to every end of a text and to every start
that does not part a carriage return from its line feed, and it goes through sequences.  Where lines
are counted only the carriage returns matter (`WholeLineEnds`).  White space of this kind (`Spacing`)
is whole lines and the indentation of what follows (`Spacing.exists_lines`).
-/

namespace Regraft.Text

set_option autoImplicit false

/-- Whether every carriage return belongs to a line feed. -/
def WholeLineEnds (t : Text) : Prop :=
  ∀ rest, '\r' :: rest <:+ t → rest.head? = some '\n'

theorem WholeLineEnds.right {s t : Text} (h : WholeLineEnds (s ++ t)) : WholeLineEnds t :=
  fun rest tail => h rest (tail.trans (List.suffix_append s t))

/-- Whether the white space of a text is spaces, tabs, line feeds and carriage returns right before
a line feed. -/
def plainBlanks : Text → Bool
  | [] => true
  | c :: t =>
      (!isBlank c || isIndent c || c == '\n' || (c == '\r' && t.head? == some '\n')) &&
        plainBlanks t

theorem plainBlanks_right {s t : Text} (h : plainBlanks (s ++ t) = true) :
    plainBlanks t = true := by
  induction s with
  | nil => exact h
  | cons c s ih =>
      rw [List.cons_append, plainBlanks, Bool.and_eq_true] at h
      exact ih h.2

theorem plainBlanks_drop {t : Text} (h : plainBlanks t = true) (n : Nat) :
    plainBlanks (t.drop n) = true := by
  rw [← List.take_append_drop n t] at h
  exact plainBlanks_right h

theorem WholeLineEnds.of_plainBlanks {t : Text} (h : plainBlanks t = true) : WholeLineEnds t := by
  rintro rest ⟨front, rfl⟩
  have here := plainBlanks_right h
  rw [plainBlanks, Bool.and_eq_true] at here
  have blank : isBlank '\r' = true := by decide
  have indent : isIndent '\r' = false := by decide
  simpa [blank, indent] using here.1

/-- The start of a text, as far as it does not end between a carriage return and its line feed. -/
theorem plainBlanks_left {s t : Text} (h : plainBlanks (s ++ t) = true)
    (whole : s.getLast? = some '\r' → t.head? ≠ some '\n') : plainBlanks s = true := by
  induction s with
  | nil => rfl
  | cons c s ih =>
      rw [List.cons_append, plainBlanks, Bool.and_eq_true] at h
      cases s with
      | nil =>
          simp only [plainBlanks, List.head?_nil, Bool.and_true]
          have here := h.1
          rw [List.nil_append] at here
          by_cases cr : c = '\r'
          · subst cr
            have other := whole rfl
            simp [other] at here
            revert here
            decide
          · simpa [cr] using here
      | cons d s =>
          rw [plainBlanks, Bool.and_eq_true]
          exact ⟨h.1, ih h.2 (by simpa using whole)⟩

theorem plainBlanks_append {s t : Text} (hs : plainBlanks s = true) (ht : plainBlanks t = true) :
    plainBlanks (s ++ t) = true := by
  induction s with
  | nil => exact ht
  | cons c s ih =>
      rw [plainBlanks, Bool.and_eq_true] at hs
      rw [List.cons_append, plainBlanks, Bool.and_eq_true]
      refine ⟨?_, ih hs.2⟩
      cases s with
      | nil =>
          have here := hs.1
          simp only [List.head?_nil] at here
          simp only [Bool.or_eq_true] at here ⊢
          exact Or.inl (by simpa using here)
      | cons d s => exact hs.1

/-- What stands before a line is laid out like the whole. -/
theorem plainBlanks_of_atLineStart {s t : Text} (h : plainBlanks (s ++ t) = true)
    (start : AtLineStart s) : plainBlanks s = true := by
  refine plainBlanks_left h fun last => ?_
  rcases start with rfl | feed
  · simp at last
  · rw [last] at feed
    simp at feed

/-- What stands before a character that is no white space is laid out like the whole. -/
theorem plainBlanks_of_inked {s t : Text} {c : Char} (h : plainBlanks (s ++ c :: t) = true)
    (inked : isBlank c = false) : plainBlanks s = true := by
  refine plainBlanks_left h fun _ next => ?_
  simp only [List.head?_cons, Option.some.injEq] at next
  rw [next] at inked
  revert inked
  decide

theorem plainBlanks_of_all_isIndent {t : Text} (h : ∀ c ∈ t, isIndent c = true) :
    plainBlanks t = true := by
  induction t with
  | nil => rfl
  | cons c t ih =>
      rw [plainBlanks, h c List.mem_cons_self]
      simp [ih fun d m => h d (List.mem_cons_of_mem _ m)]

/-- A line without its end, if blank, is spaces and tabs. -/
theorem all_isIndent_of_plain {t : Text} {next : Char} {more : Text}
    (plain : plainBlanks (t ++ next :: more) = true) (blank : isBlankText t = true)
    (noFeed : '\n' ∉ t) (other : next ≠ '\n') : ∀ c ∈ t, isIndent c = true := by
  induction t with
  | nil => simp
  | cons c t ih =>
      rw [List.cons_append, plainBlanks, Bool.and_eq_true] at plain
      simp only [isBlankText_cons, Bool.and_eq_true] at blank
      simp only [List.mem_cons, not_or] at noFeed
      have later := ih plain.2 blank.2 noFeed.2
      have here : isIndent c = true := by
        have := plain.1
        simp only [Bool.or_eq_true, Bool.and_eq_true, beq_iff_eq, blank.1, Bool.not_true,
          Bool.false_eq_true, false_or] at this
        rcases this with (ind | feed) | ⟨-, next_⟩
        · exact ind
        · exact absurd feed.symm noFeed.1
        · cases t with
          | nil => exact absurd (by simpa using next_) other
          | cons d t =>
              obtain rfl : d = '\n' := by simpa using next_
              exact absurd List.mem_cons_self noFeed.2
      intro d m
      rcases List.mem_cons.1 m with rfl | m
      · exact here
      · exact later d m

/-! ## White space -/

/-- What starts with ink does not begin in white space. -/
theorem unsplit_of_blank {kind : Text → Prop} {g : Text} (blank : isBlankText g = true)
    (inked : ∀ t, kind t → ∀ c, t.head? = some c → isBlank c = false) : Unsplit kind g :=
  .of_head fun t isKind c head => not_mem_of_isBlankText blank (inked t isKind c head)

/-- White space that is spaces, tabs and line ends. -/
structure Spacing (g : Text) : Prop where
  blank : isBlankText g = true
  plain : plainBlanks g = true

namespace Spacing

variable {g rest : Text}

theorem append (hg : Spacing g) (hr : Spacing rest) : Spacing (g ++ rest) :=
  ⟨by rw [isBlankText_append, hg.blank, hr.blank]; rfl, plainBlanks_append hg.plain hr.plain⟩

theorem right (h : Spacing (g ++ rest)) : Spacing rest := by
  have blank := h.blank
  rw [isBlankText_append, Bool.and_eq_true] at blank
  exact ⟨blank.2, plainBlanks_right h.plain⟩

theorem drop (h : Spacing g) (n : Nat) : Spacing (g.drop n) := by
  rw [← List.take_append_drop n g] at h
  exact h.right

/-- The lines that white space starts with are white space. -/
theorem lines (h : Spacing (g ++ rest)) (start : AtLineStart g) : Spacing g := by
  have blank := h.blank
  rw [isBlankText_append, Bool.and_eq_true] at blank
  exact ⟨blank.1, plainBlanks_of_atLineStart h.plain start⟩

/-- White space is whole lines and indentation. -/
theorem exists_lines (h : Spacing g) :
    ∃ lines ind, g = lines ++ ind ∧ AtLineStart lines ∧ Spacing lines ∧
      ∀ c ∈ ind, isIndent c = true := by
  obtain ⟨inLine, start⟩ := splitLastLine_spec g
  have parts := splitLastLine_append g
  rw [← parts] at h
  refine ⟨_, _, parts.symm, start, h.lines start, ?_⟩
  have plain : plainBlanks ((splitLastLine g).2 ++ ';' :: []) = true :=
    plainBlanks_append h.right.plain (by decide)
  exact all_isIndent_of_plain plain h.right.blank inLine (by decide)

end Spacing

end Regraft.Text
