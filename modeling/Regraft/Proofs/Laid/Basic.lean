import Regraft.Proofs.Entity.Shape
import Regraft.Proofs.Scaffold
import Regraft.Proofs.Unmarked

/-!
# Regraft.Proofs.Laid.Basic -- bodies laid out in parts

A body is laid out in parts when it is hand-written code, entity statements, forwarding calls, marked
regions and comment lines of the lead, with white space between them (`Laid`).  Parts may share a line,
but for comment lines.  Code stands by itself: no pass finds anything in it, and nothing that a pass
looks for begins in it and ends behind it (`Code`, `Clear`).

Each pass takes one kind of part out of such a body and leaves it laid out in the others, so the list of
kinds gets shorter from pass to pass.
-/

namespace Regraft

set_option autoImplicit false

open Text Reader

/-! ## Words of the markers -/

namespace Text

/-- A word that neither stands in a text nor begins in it and ends behind it. -/
structure Absent (word t : Text) : Prop where
  inside : ¬ word <:+: t
  unsplit : Unsplit (· = word) t

theorem Absent.append {word s t : Text} (some_ : word ≠ []) (hs : Absent word s) (ht : Absent word t) :
    Absent word (s ++ t) where
  inside := by
    rw [hs.unsplit.infix_right some_ hs.inside]
    exact ht.inside
  unsplit := hs.unsplit.append ht.unsplit

/-- Text without the first character of a word. -/
theorem absent_of_not_mem {word t : Text} {c : Char} (head : word.head? = some c) (apart : c ∉ t) :
    Absent word t where
  inside := fun inside => apart (inside.subset (List.mem_of_mem_head? head))
  unsplit := .of_head fun u e d head' => by
    rw [e, head] at head'
    exact Option.some.inj head' ▸ apart

theorem absent_of_blank {word g : Text} (some_ : word ≠ [])
    (inked : ∀ c, word.head? = some c → isBlank c = false) (blank : isBlankText g = true) :
    Absent word g := by
  obtain ⟨c, more, rfl⟩ := List.exists_cons_of_ne_nil some_
  exact absent_of_not_mem rfl (not_mem_of_isBlankText blank (inked c rfl))

end Text

namespace MarkerPair

variable {m : MarkerPair}

/-- Markers that start with ink, with a lead that lies in one line. -/
structure Visible (m : MarkerPair) : Prop where
  opening : ∀ c, m.opening.head? = some c → isBlank c = false
  lead_ne_nil : m.lead ≠ []
  lead : ∀ c, m.lead.head? = some c → isBlank c = false
  lead_noFeed : '\n' ∉ m.lead

theorem visible_standard : standard.Visible := by
  have opening : standard.opening.head? = some '/' := rfl
  have lead : standard.lead.head? = some '/' := rfl
  refine ⟨fun c head => ?_, by decide, fun c head => ?_, by decide⟩
  · obtain rfl := Option.some.inj (opening.symm.trans head)
    decide
  · obtain rfl := Option.some.inj (lead.symm.trans head)
    decide

theorem Visible.isLead (visible : m.Visible) : IsLead m.lead where
  ne_nil := visible.lead_ne_nil
  head := fun c head => isIndent_of_inked (visible.lead c head)
  noFeed := visible.lead_noFeed

/-- Text in which no pass over markers finds anything, whatever stands around it. -/
structure Clear (m : MarkerPair) (t : Text) : Prop where
  opening : Absent m.opening t
  lead : ¬ Leads m.lead t
  lead_unsplit : Unsplit (· = m.lead) t

theorem Clear.append {s t : Text} (some_ : m.lead ≠ []) (hs : m.Clear s) (ht : m.Clear t) :
    m.Clear (s ++ t) where
  opening := hs.opening.append m.opening_ne_nil ht.opening
  lead := not_leads_append some_ hs.lead_unsplit hs.lead ht.lead
  lead_unsplit := hs.lead_unsplit.append ht.lead_unsplit

theorem Visible.clear_of_blank (visible : m.Visible) {g : Text} (blank : isBlankText g = true) :
    m.Clear g := by
  have lead := absent_of_blank visible.lead_ne_nil visible.lead blank
  exact ⟨absent_of_blank m.opening_ne_nil visible.opening blank, not_leads_of_infix lead.inside,
    lead.unsplit⟩

/-- Text without the character that the words of the markers start with. -/
theorem clear_of_not_mem {t : Text} {c : Char} (opening : m.opening.head? = some c)
    (lead : m.lead.head? = some c) (apart : c ∉ t) : m.Clear t := by
  have absent := absent_of_not_mem lead apart
  exact ⟨absent_of_not_mem opening apart, not_leads_of_infix absent.inside, absent.unsplit⟩

/-- A round leaves clear text alone. -/
theorem Clear.stripOnce_eq {t : Text} (clear : m.Clear t) : m.stripOnce t = t := by
  refine stripOnce_of_strip (strip_of_isUnmarked ⟨clear.opening.inside, fun _ led => clear.lead ?_⟩)
  obtain ⟨above, ind, more, e, below, start, hi, -, -, rfl⟩ := led
  exact ⟨above, ind, more ++ e ++ below, start, hi, by simp⟩

end MarkerPair

/-! ## Text that the scan passes over -/

namespace Entity

/-- Text that the scan for entity statements passes over, whatever stands around it, and that tidying
leaves alone. -/
structure Passed (token t : Text) : Prop where
  starts : ∃ c rest, t = c :: rest ∧ isBlank c = false ∧ c ≠ ')' ∧ c ≠ ';'
  last_inked : ∃ c, t.getLast? = some c ∧ isBlank c = false
  noLineEnds : occurrences (fun _ => lineEnds) t = []
  noBlock : blocks token t = .ok []
  /-- The statement of an anchor ends in the text, not behind it. -/
  settled : ∀ before taken, .noLambda before taken ∈ segments token t →
    settles 0 (taken.drop token.length) = true
  unsplit : Unsplit (Alike token) t

theorem Statement.Shaped.sound {token : Text} {s : Statement} (h : s.Shaped token) :
    s.Sound token := by
  obtain ⟨depth, -, ends⟩ := h.ends
  exact ⟨h.anchor, ends.last⟩

end Entity

namespace CarryOver

open Rules Entity

variable {r : Rules} {param : Text}

/-- The scan passes over whole statements without an anchor. -/
theorem passed_of_noAnchor (words : ∀ c ∈ param, isWord c = true) {t : Text}
    (starts : ∃ c rest, t = c :: rest ∧ isBlank c = false ∧ c ≠ ')' ∧ c ≠ ';')
    (last : t.getLast? = some ';' ∨ t.getLast? = some '}')
    (noLineEnds : occurrences (fun _ => lineEnds) t = [])
    (noAnchor : cutAnchor? (anchor param) t = none) : Passed (anchor param) t := by
  obtain ⟨d, ends, inked, caseless, absent⟩ : ∃ d, t.getLast? = some d ∧ isBlank d = false ∧
      IsCaseless d ∧ d ∉ anchor param := by
    rcases last with last | last
    · exact ⟨_, last, by decide, isCaseless_semicolon, semicolon_not_mem_anchor words⟩
    · exact ⟨_, last, by decide, isCaseless_close, closeBrace_not_mem_anchor words⟩
  have alone : segments (anchor param) t = [.rest t] :=
    (Scan.rest noAnchor).segments_eq (inked_anchor words)
  refine ⟨starts, ⟨d, ends, inked⟩, noLineEnds, by rw [blocks, alone]; rfl, by rw [alone]; simp, ?_⟩
  exact .of_last ends fun x y alike => absurd ((alike.caseless_mem caseless).2 (by simp)) absent

/-- The scan passes over calls. -/
theorem passed_call (names : r.CallNames param) {call : Text} (reads : r.IsCall param call)
    (noLineEnds : occurrences (fun _ => lineEnds) call = []) : Passed (anchor param) call := by
  obtain ⟨front, ends, foreign⟩ := reads.ends names
  have noAngle : '<' ∉ call := by
    rw [ends, List.mem_append, not_or]
    exact ⟨foreign _ (Or.inr (Or.inr rfl)), by decide⟩
  refine passed_of_noAnchor names.param ?_ (Or.inl (by rw [ends, List.getLast?_concat])) noLineEnds
    (cutAnchor?_eq_none.2 fun before found back alike e => noAngle ?_)
  · obtain ⟨c, rest, rfl, word⟩ := reads.starts names
    refine ⟨c, rest, rfl, isBlank_of_isWord word, ?_, ?_⟩ <;> rintro rfl <;> revert word <;> decide
  · have bracket := (alike.caseless_mem isCaseless_angle).1 (angle_mem_anchor param)
    rw [e]
    simp [bracket]

/-! ## Parts -/

/-- Comment lines of the lead, one below the other. -/
inductive CommentLines (lead : Text) : Text → Prop where
  | last {more e : Text} : (∀ c ∈ more, c ≠ '\r' ∧ c ≠ '\n') → IsLineEnd e →
      CommentLines lead (lead ++ more ++ e)
  | cons {more e ind below : Text} : (∀ c ∈ more, c ≠ '\r' ∧ c ≠ '\n') → IsLineEnd e →
      (∀ c ∈ ind, isIndent c = true) → CommentLines lead below →
      CommentLines lead (lead ++ more ++ e ++ (ind ++ below))

/-- The kinds of parts. -/
inductive Kind where
  | region
  | comment
  | statement
  | call
  | code
  deriving DecidableEq

/-- Hand-written code that stands by itself. -/
structure Code (r : Rules) (param t : Text) : Prop extends Passed (anchor param) t where
  noCall : r.firstCall? param t = none
  unsplit_call : Unsplit (r.IsCall param) t

/-- Whole statements without an anchor and a call. -/
theorem code_of_noAnchor (names : r.CallNames param) {t : Text}
    (starts : ∃ c rest, t = c :: rest ∧ isBlank c = false ∧ c ≠ ')' ∧ c ≠ ';')
    (last : t.getLast? = some ';' ∨ t.getLast? = some '}')
    (noLineEnds : occurrences (fun _ => lineEnds) t = [])
    (noAnchor : cutAnchor? (anchor param) t = none) (noCall : r.firstCall? param t = none) :
    Code r param t :=
  ⟨passed_of_noAnchor names.param starts last noLineEnds noAnchor, noCall, unsplit_call names last⟩

/-- What a part of a kind is. -/
def Fits (r : Rules) (param : Text) : Kind → Text → Prop
  | .region, t => ∃ x, t = r.markers.opening ++ (x ++ r.markers.closing) ∧
      cutAt? r.markers.closing (x ++ r.markers.closing) = some (x, [])
  | .comment, t => Absent r.markers.opening t ∧ CommentLines r.markers.lead t
  | .statement, t => r.markers.Clear t ∧ ∃ s : Statement, s.Shaped (anchor param) ∧ t = s.text
  | .call, t => r.markers.Clear t ∧ r.IsCall param t ∧ occurrences (fun _ => lineEnds) t = []
  | .code, t => r.markers.Clear t ∧ Code r param t

variable {k : Kind} {t : Text}

theorem Fits.last_inked (names : r.CallNames param) (fits : Fits r param k t) (region : k ≠ .region)
    (comment : k ≠ .comment) : ∃ c, t.getLast? = some c ∧ isBlank c = false := by
  cases k with
  | region => exact absurd rfl region
  | comment => exact absurd rfl comment
  | statement =>
      obtain ⟨-, s, shaped, rfl⟩ := fits
      exact ⟨';', shaped.sound.text_last, by decide⟩
  | call =>
      obtain ⟨front, rfl, -⟩ := fits.2.1.ends names
      exact ⟨';', List.getLast?_concat .., by decide⟩
  | code => exact fits.2.last_inked

theorem Fits.passed (names : r.CallNames param) (fits : Fits r param k t) (region : k ≠ .region)
    (comment : k ≠ .comment) (statement : k ≠ .statement) : Passed (anchor param) t := by
  cases k with
  | region => exact absurd rfl region
  | comment => exact absurd rfl comment
  | statement => exact absurd rfl statement
  | call => exact passed_call names fits.2.1 fits.2.2
  | code => exact fits.2.toPassed

/-- A part starts with ink that no statement before it ends with. -/
theorem Fits.starts (names : r.CallNames param) (fits : Fits r param k t) (region : k ≠ .region)
    (comment : k ≠ .comment) :
    ∃ c rest, t = c :: rest ∧ isBlank c = false ∧ c ≠ ')' ∧ c ≠ ';' := by
  by_cases statement : k = .statement
  · subst statement
    obtain ⟨-, s, shaped, rfl⟩ := fits
    have alike := shaped.anchor
    have inked := inked_anchor names.param
    cases e : s.anchor with
    | nil => exact absurd (List.eq_nil_of_length_eq_zero (by rw [alike.length_eq, e]; rfl)) inked.ne_nil
    | cons c rest =>
        have m : c ∈ s.anchor := by simp [e]
        refine ⟨c, _, by rw [Statement.text, e]; rfl, alike.not_blank inked.not_blank c m, ?_, ?_⟩
        · rintro rfl
          exact closeParen_not_mem_anchor names.param ((alike.caseless_mem isCaseless_closeParen).2 m)
        · rintro rfl
          exact semicolon_not_mem_anchor names.param ((alike.caseless_mem isCaseless_semicolon).2 m)
  · exact (fits.passed names region comment statement).starts

/-- The white space in front of a part: there is some where a word would run into what is no code, and
a comment starts on a line of its own. -/
structure Gap (k : Kind) (word : Bool) (g : Text) : Prop where
  spacing : Spacing g
  apart : k ≠ .code → g = [] → word = false
  line : k = .comment → '\n' ∈ g

/-- Parts of some kinds with white space between them; `word` tells whether the text stands behind a
word. -/
inductive Laid (r : Rules) (param : Text) (kinds : List Kind) : Bool → Text → Prop where
  | blank {word : Bool} {g : Text} : Spacing g → Laid r param kinds word g
  | part {word : Bool} {k : Kind} {g t rest : Text} : k ∈ kinds → Gap k word g → Fits r param k t →
      Laid r param kinds (wordAt t.getLast?) rest → Laid r param kinds word (g ++ (t ++ rest))

variable {kinds : List Kind} {word : Bool}

/-- More white space may stand in front. -/
theorem Laid.spaced {g t : Text} {word' : Bool} (h : Laid r param kinds word t) (spacing : Spacing g)
    (apart : g = [] → word' = false) : Laid r param kinds word' (g ++ t) := by
  cases h with
  | blank hg => exact .blank (spacing.append hg)
  | @part _ k g' t rest mem gap fits later =>
      rw [← List.append_assoc]
      refine .part mem ⟨spacing.append gap.spacing, fun _ none_ => ?_, fun comment => ?_⟩ fits later
      · exact apart (List.append_eq_nil_iff.1 none_).1
      · exact List.mem_append_right _ (gap.line comment)

/-- White space at the end is that behind the last part. -/
theorem Laid.spacing_of_suffix (names : r.CallNames param) (h : Laid r param kinds word t)
    (region : .region ∉ kinds) (comment : .comment ∉ kinds) {front tail : Text}
    (whole : front ++ tail = t) (blank : isBlankText tail = true) : Spacing tail := by
  induction h generalizing front with
  | blank spacing => exact (whole ▸ spacing).right
  | @part word k g t rest mem gap fits _ ih =>
      obtain ⟨c, last, inked⟩ := fits.last_inked names (ne_of_mem_of_not_mem mem region)
        (ne_of_mem_of_not_mem mem comment)
      obtain ⟨inner, rfl⟩ := List.getLast?_eq_some_iff.1 last
      have whole' : front ++ tail = (g ++ inner) ++ c :: rest := by
        rw [whole]
        simp
      rcases List.append_eq_append_iff.1 whole' with ⟨x, -, rfl⟩ | ⟨x, -, e⟩
      · exact absurd (by simp) (not_mem_of_isBlankText blank inked)
      · cases x with
        | nil =>
            rw [List.nil_append] at e
            exact absurd (by simp [← e]) (not_mem_of_isBlankText blank inked)
        | cons d x =>
            obtain ⟨-, e⟩ := List.cons.inj e
            exact ih e.symm

/-- A body in parts of all kinds, where the words of the markers can be seen and the forwarding method
has a name. -/
structure LaidOut (r : Rules) (param body : Text) : Prop where
  visible : r.markers.Visible
  names : r.CallNames param
  parts : Laid r param [.region, .comment, .statement, .call, .code] false body

end CarryOver

end Regraft
