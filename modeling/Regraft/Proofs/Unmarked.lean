import Regraft.Proofs.Crlf.Strip
import Regraft.Proofs.Marker

/-!
# Regraft.Proofs.Unmarked -- where marker stripping ends

`Strips` has the loops of the stripping as rules: cuts at the first opening marker as long as there is
one (`Clears`), then comment lines, in rounds until a round changes nothing.  The rules take the rest
of a marker's line as they find it; `dropMarker` goes on where that is nothing, so that `strip` always
comes to an end.  Unless an opening marker starts with a carriage return of its own this never happens
(`dropMarker_of_opensWhole`): the rules lead from every body to one text, and that is the stripped body
(`strips_iff`).  It has no opening marker and no comment line, and a body without them is what it
was (`strip_total`).
-/

namespace Regraft.MarkerPair

set_option autoImplicit false

open Text Reader

variable {m : MarkerPair}

/-! ## The loops as rules -/

/-- Whether a carriage return that the opening marker starts with has its line feed with it. -/
def OpensWhole (m : MarkerPair) : Prop :=
  ∀ rest, m.opening = '\r' :: rest → rest.head? = some '\n'

/-- One cut at the first opening marker: up to the first closing marker behind it, or, where there is
none, the rest of its line and what stands before it there, if that is blank. -/
inductive CutsTo (m : MarkerPair) : Text → Text → Prop where
  | paired {body before after inner rest : Text} :
      cutAt? m.opening body = some (before, after) → cutAt? m.closing after = some (inner, rest) →
      CutsTo m body (before ++ rest)
  | unpaired {body before after : Text} :
      cutAt? m.opening body = some (before, after) → cutAt? m.closing after = none →
      CutsTo m body (dropBlankTail before ++ afterLine (m.opening ++ after))

/-- Cuts as long as there is an opening marker. -/
inductive Clears (m : MarkerPair) : Text → Text → Prop where
  | clear {body : Text} : ¬ m.opening <:+: body → Clears m body body
  | cut {body left out : Text} : CutsTo m body left → Clears m left out → Clears m body out

/-- Rounds of cuts and comment lines, up to one that changes nothing. -/
inductive Strips (m : MarkerPair) : Text → Text → Prop where
  | still {body cleared : Text} :
      Clears m body cleared → m.removeLeadLines cleared = body → Strips m body body
  | round {body cleared out : Text} :
      Clears m body cleared → m.removeLeadLines cleared ≠ body →
      Strips m (m.removeLeadLines cleared) out → Strips m body out

/-- The rest of a line and its end are something, unless a carriage return of its own comes first. -/
theorem afterLine_length {t : Text} (some_ : t ≠ [])
    (whole : ∀ rest, t = '\r' :: rest → rest.head? = some '\n') :
    (afterLine t).length < t.length := by
  fun_cases afterLine t with
  | case1 => exact absurd rfl some_
  | case2 t => simp
  | case3 t =>
      simp only [List.length_cons]
      omega
  | case4 t noFeed =>
      have head := whole t rfl
      obtain ⟨rest, rfl⟩ := List.head?_eq_some_iff.1 head
      exact absurd rfl (noFeed rest)
  | case5 c t =>
      have := (afterLine_suffix t).length_le
      simp only [List.length_cons]
      omega

theorem dropMarker_of_opensWhole (whole : m.OpensWhole) (after : Text) :
    m.dropMarker after = afterLine (m.opening ++ after) := by
  have shorter : (afterLine (m.opening ++ after)).length < (m.opening ++ after).length := by
    refine afterLine_length (by simp [m.opening_ne_nil]) fun rest e => ?_
    cases opening : m.opening with
    | nil => exact absurd opening m.opening_ne_nil
    | cons c opening' =>
        rw [opening, List.cons_append] at e
        obtain ⟨rfl, rfl⟩ := List.cons.inj e
        obtain ⟨more, rfl⟩ := List.head?_eq_some_iff.1 (whole opening' opening)
        rfl
  simp only [dropMarker, if_pos shorter]

theorem cutsTo_iff (whole : m.OpensWhole) {body left : Text} :
    m.CutsTo body left ↔ ∃ c, m.cut? body = some c ∧ c.left = left := by
  constructor
  · rintro (⟨opened, closed⟩ | ⟨opened, open_⟩)
    · exact ⟨_, by rw [cut?, opened]; simp only [closed]; rfl, rfl⟩
    · refine ⟨_, by rw [cut?, opened]; simp only [open_]; rfl, ?_⟩
      rw [Cut.left, dropMarker_of_opensWhole whole]
  · rintro ⟨c, cut, rfl⟩
    rw [cut?] at cut
    split at cut
    · cases cut
    · rename_i before after opened
      split at cut
      · rename_i inner rest closed
        obtain rfl := Option.some.inj cut
        exact .paired opened closed
      · rename_i open_
        obtain rfl := Option.some.inj cut
        rw [Cut.left, dropMarker_of_opensWhole whole]
        exact .unpaired opened open_

/-- Cuts lead to one text, at which no opening marker is left. -/
theorem clears_iff (whole : m.OpensWhole) {body out : Text} :
    m.Clears body out ↔ out = m.removeRegions body := by
  constructor
  · intro run
    induction run with
    | clear none_ => exact (removeRegions_of_no_opening none_).symm
    | cut step run ih =>
        obtain ⟨c, cut, rfl⟩ := (cutsTo_iff whole).1 step
        rw [ih, removeRegions_of_cut cut]
  · rintro rfl
    fun_induction removeRegions m body with
    | case1 body uncut =>
        refine .clear fun stands => ?_
        rw [cut?] at uncut
        split at uncut
        · rename_i none_
          exact cutAt?_eq_none.1 none_ stands
        · split at uncut <;> cases uncut
    | case2 body c cut ih => exact .cut ((cutsTo_iff whole).2 ⟨c, cut, rfl⟩) ih

theorem strip_of_changed {body : Text} (changed : m.stripOnce body ≠ body) :
    m.strip body = m.strip (m.stripOnce body) := by
  conv => lhs; rw [strip, dif_neg changed]

/-- The rounds lead from every body to one text, the stripped body. -/
theorem strips_iff (whole : m.OpensWhole) {body out : Text} :
    m.Strips body out ↔ out = m.strip body := by
  constructor
  · intro run
    induction run with
    | still cleared same =>
        rw [(clears_iff whole).1 cleared] at same
        exact (strip_of_stripOnce same).symm
    | round cleared changed run ih =>
        rw [(clears_iff whole).1 cleared] at changed ih
        rw [ih, strip_of_changed changed]
        rfl
  · rintro rfl
    fun_induction strip m body with
    | case1 body still => exact .still ((clears_iff whole).2 rfl) still
    | case2 body changed ih => exact .round ((clears_iff whole).2 rfl) changed ih

/-! ## What is left -/

/-- Whether a text has a comment line of the lead: at the start of a line spaces and tabs, the lead, and
characters of that line up to its end or the end of the text. -/
def HasLeadLine (lead t : Text) : Prop :=
  ∃ above ind more e below, AtLineStart above ∧ (∀ c ∈ ind, isIndent c = true) ∧
    (∀ c ∈ more, c ≠ '\r' ∧ c ≠ '\n') ∧ (IsLineEnd e ∨ e = [] ∧ below = []) ∧
    t = above ++ (ind ++ lead ++ more ++ e ++ below)

/-- Neither an opening marker nor a comment line is in a text. -/
structure Unmarked (m : MarkerPair) (t : Text) : Prop where
  opening : ¬ m.opening <:+: t
  lead : m.lead ≠ [] → ¬ HasLeadLine m.lead t

/-- Comment lines are what is read as such somewhere. -/
theorem silent_leadLine_iff {lead t : Text} (some_ : lead ≠ []) :
    SilentBefore (leadLine lead) none t [] ↔ ¬ HasLeadLine lead t := by
  constructor
  · rintro silent ⟨above, ind, more, e, below, start, hi, hm, ends, rfl⟩
    have long : ind ++ lead ++ more ++ e ++ below ≠ [] := by simp [some_]
    obtain ⟨c, back, parts⟩ := List.exists_cons_of_ne_nil long
    have nothing := silent above c back (by rw [parts])
    rw [List.append_nil, Option.or_none, ← parts] at nothing
    have read : ((), below) ∈ leadLine lead above.getLast?
        (ind ++ lead ++ more ++ e ++ below) := by
      refine mem_leadLine.2 ⟨?_, ind, more, e, hi, hm, ends, rfl⟩
      rcases start with rfl | feed
      · exact Or.inl rfl
      · exact Or.inr feed
    rw [nothing] at read
    cases read
  · intro none_ front c back e
    rw [List.append_nil, Option.or_none]
    refine List.eq_nil_iff_forall_not_mem.2 fun p read => none_ ?_
    obtain ⟨⟨⟩, rest⟩ := p
    obtain ⟨start, ind, more, end_, hi, hm, ends, parts⟩ := mem_leadLine.1 read
    refine ⟨front, ind, more, end_, rest, ?_, hi, hm, ends, by rw [e, parts]⟩
    rcases start with none' | feed
    · exact Or.inl (List.getLast?_eq_none_iff.1 none')
    · exact Or.inr feed

theorem unmarked_of_stripOnce {body : Text} (fixed : m.stripOnce body = body) : m.Unmarked body where
  opening := not_opening_of_stripOnce fixed
  lead := fun some_ => (silent_leadLine_iff some_).1 (silent_of_stripOnce fixed some_)

theorem strip_of_isUnmarked {body : Text} (h : m.Unmarked body) : m.strip body = body :=
  strip_of_unmarked h.opening fun some_ =>
    occurrences_of_silent ((silent_leadLine_iff some_).2 (h.lead some_))

theorem stripOnce_of_strip {body : Text} (same : m.strip body = body) : m.stripOnce body = body := by
  have := m.stripOnce_strip body
  rwa [same] at this

/-- Stripping comes to an end on every body, at one text: characters are taken out of the body and none
are put in, no opening marker and no comment line is left, and a body is left alone exactly if it has
neither. -/
theorem strip_total (whole : m.OpensWhole) (body : Text) :
    (∀ out, m.Strips body out ↔ out = m.strip body) ∧ (m.strip body).Sublist body ∧
      m.Unmarked (m.strip body) ∧ (m.strip body = body ↔ m.Unmarked body) ∧
      m.strip (m.strip body) = m.strip body := by
  refine ⟨fun out => strips_iff whole, m.strip_sublist body,
    unmarked_of_stripOnce (m.stripOnce_strip body), ?_, m.strip_strip body⟩
  constructor
  · intro same
    exact unmarked_of_stripOnce (stripOnce_of_strip same)
  · exact strip_of_isUnmarked

/-- Markers over the end of a line: the opening one starts with it. -/
def bracketPair : MarkerPair where
  opening := "\r\n[".toList
  closing := [']']
  lead := ['#']
  opening_ne_nil := by decide
  closing_ne_nil := by decide

/-- A body in which taking out the comment line brings an opening marker about. -/
def bracketBody : Text :=
  "y\r\n#c\n[z] w".toList

theorem strip_total_bracket :
    bracketPair.OpensWhole ∧ bracketPair.strip bracketBody = "y w".toList ∧
      (∀ out, bracketPair.Strips bracketBody out ↔ out = bracketPair.strip bracketBody) ∧
      (bracketPair.strip bracketBody).Sublist bracketBody ∧
      bracketPair.Unmarked (bracketPair.strip bracketBody) ∧
      (bracketPair.strip bracketBody = bracketBody ↔ bracketPair.Unmarked bracketBody) ∧
      bracketPair.strip (bracketPair.strip bracketBody) = bracketPair.strip bracketBody := by
  have whole : bracketPair.OpensWhole := by
    intro rest e
    obtain ⟨-, rfl⟩ := List.cons.inj (show '\r' :: ['\n', '['] = '\r' :: rest from e)
    rfl
  exact ⟨whole, by decide +kernel, strip_total whole bracketBody⟩

end Regraft.MarkerPair
