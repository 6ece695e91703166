import Regraft.Proofs.BlankLines
import Regraft.Proofs.Insertion
import Regraft.Proofs.Marker

/-!
# Regraft.Proofs.Banner -- configured markers, put around a text and taken off again

Stripping takes off again what `wrap` puts around a text, up to blank lines before the text and white
space behind it (`strip_wrap`), for all markers that can be told from what is written beside them
(`Discernible`); ordinary comments can, whatever the indentation (`Ordinary.discernible`).  What the
type of marker pairs demands is not enough for that: without a lead the footer is no comment of the
tool, and stays (`strip_wrap_unled`).
-/

namespace Regraft

set_option autoImplicit false

open Text Reader

namespace MarkerPair

variable {m : MarkerPair} {indent : Text}

/-- Markers that can be told from the words around carried-over code: from the first beginning in a
notice the first end is the one that ends the notice, the footer does not have the beginning, there is
a lead, and neither the beginning nor the lead goes over a line feed. -/
structure Discernible (m : MarkerPair) (indent : Text) : Prop where
  notice : ∃ before after inner, cutAt? m.opening (m.notice indent) = some (before, after) ∧
    cutAt? m.closing after = some (inner, ['\n'])
  footer : ¬ m.opening <:+: indent ++ m.footer
  opening_noFeed : '\n' ∉ m.opening
  lead_ne_nil : m.lead ≠ []
  lead_noFeed : '\n' ∉ m.lead

/-- Markers that are ordinary comments can be told from what is around carried-over code, whatever the
indentation. -/
theorem Ordinary.discernible (ord : m.Ordinary) (hi : ∀ c ∈ indent, isIndent c = true) :
    m.Discernible indent where
  notice := by
    have absent : ∀ line ∈ noticeLines, ¬ m.closing <:+: indent ++ line := by
      intro line member
      rw [infix_indent ord.closing hi]
      exact ord.notice line member
    have notNil : ¬ m.opening <:+: [] := fun h => ord.opening.ne_nil (List.infix_nil.1 h)
    have closed := ord.closing.isMark.cutAt?_line (atLineStart_lines indent noticeLines)
      (not_infix_lines ord.closing.isMark absent) hi ['\n']
    refine ⟨indent, _, _, ?_, closed⟩
    rw [notice_eq]
    have opened := ord.opening.isMark.cutAt?_line (Or.inl rfl) notNil hi
      (('\n' :: noticeLines.flatMap fun line => indent ++ line ++ ['\n']) ++ indent ++ m.closing ++
        ['\n'])
    simpa using opened
  footer := by
    rw [infix_indent ord.opening hi]
    exact ord.footer
  opening_noFeed := ord.opening.noFeed
  lead_ne_nil := ord.lead.ne_nil
  lead_noFeed := ord.lead.noFeed

/-- The notice is cut out up to the line feed behind it; of its indentation some may stay. -/
theorem cut?_notice (d : m.Discernible indent) :
    ∃ front, front <+: indent ∧
      ∀ t, m.cut? (m.notice indent ++ t) = some (.paired (front ++ '\n' :: t)) := by
  obtain ⟨front, after, inner, opened, closed⟩ := d.notice
  have parts := cutAt?_append opened
  refine ⟨front, ?_, fun t => ?_⟩
  · obtain ⟨more, written⟩ : ∃ more, m.notice indent = indent ++ m.opening ++ more := by
      rw [notice_eq]
      simp only [List.append_assoc]
      exact ⟨_, rfl⟩
    rw [List.append_assoc] at parts written
    refine List.prefix_of_prefix_length_le ⟨_, parts.symm⟩ ⟨_, written.symm⟩ ?_
    exact cutAt?_first opened (by rw [written, List.append_assoc])
  · rw [cut?, cutAt?_extend opened t]
    dsimp only
    rw [cutAt?_extend closed t]
    rfl

/-- What is left of a reading of a lead line is what follows the first line feed. -/
theorem rest_of_leadLine {lead t rest : Text} {before : Option Char} (noFeed : '\n' ∉ lead)
    (read : ((), rest) ∈ leadLine lead before t) :
    (∃ line, '\n' ∉ line ∧ t = line ++ '\n' :: rest) ∨ '\n' ∉ t ∧ rest = [] := by
  obtain ⟨-, ind, more, e, hi, hm, ends, rfl⟩ := mem_leadLine.1 read
  have line : '\n' ∉ ind ++ lead ++ more := by
    simp only [List.mem_append, not_or]
    exact ⟨⟨noFeed_of_all_isIndent hi, noFeed⟩, fun m => (hm _ m).2 rfl⟩
  rcases ends with (rfl | rfl) | ⟨rfl, rfl⟩
  · exact Or.inl ⟨ind ++ lead ++ more ++ ['\r'], by simpa using line, by simp⟩
  · exact Or.inl ⟨ind ++ lead ++ more, line, by simp⟩
  · exact Or.inr ⟨by simpa using line, rfl⟩

/-- A line that is read as one of the lead goes with its line feed. -/
theorem leftFrom_line {lead line rest : Text} {before : Option Char} (noFeed : '\n' ∉ lead)
    (oneLine : '\n' ∉ line) (read : leadLine lead before (line ++ '\n' :: rest) ≠ []) :
    ∃ before', leftFrom (leadLine lead) before (line ++ '\n' :: rest) =
      leftFrom (leadLine lead) before' rest := by
  refine ⟨_, leftFrom_of_reading read (fun p m => ?_) ?_⟩
  · obtain ⟨⟨⟩, rest'⟩ := p
    rcases rest_of_leadLine noFeed m with ⟨line', oneLine', same⟩ | ⟨absent, -⟩
    · exact (append_char_inj same oneLine oneLine').2.symm
    · exact absurd (by simp) absent
  · simp only [List.length_append, List.length_cons]
    omega

/-- Lines of which none starts with the lead stay, whatever follows them. -/
theorem silent_lines {lead t : Text} (noFeed : '\n' ∉ lead)
    (none_ : ¬ Leads lead t) (before : Option Char) (more : Text) :
    SilentBefore (leadLine lead) before (t ++ ['\n']) more := by
  intro front c back e
  refine List.eq_nil_iff_forall_not_mem.2 fun p read => none_ ?_
  obtain ⟨⟨⟩, rest⟩ := p
  obtain ⟨-, ind, tail, end_, hi, -, -, here⟩ := mem_leadLine.1 read
  have above := atLineStart_of_mem_leadLine read
  have absent := noFeed_indent_lead noFeed hi
  have parts : t ++ '\n' :: more = front ++ (ind ++ lead) ++ (tail ++ end_ ++ rest) := by
    have whole := congrArg (· ++ more) e
    simp only [List.append_assoc, List.cons_append, List.nil_append] at whole here ⊢
    rw [whole, here]
  rcases append_separated parts absent with ⟨back', rfl⟩ | ⟨front', rfl, -⟩
  · exact ⟨front, ind, back', above, hi, by simp⟩
  · have := congrArg List.length e
    simp only [List.length_append, List.length_cons, List.length_nil] at this
    omega

/-- The line of the footer is read wherever a line starts. -/
theorem leftFrom_footer (d : m.Discernible indent) (hi : ∀ c ∈ indent, isIndent c = true)
    {before : Option Char} (start : before = none ∨ before = some '\n') :
    leftFrom (leadLine m.lead) before (indent ++ m.footer ++ ['\n']) = [] := by
  have words : ∀ c ∈ " end of carried-over statements".toList, c ≠ '\r' ∧ c ≠ '\n' := by simp
  have line : '\n' ∉ indent ++ m.footer := by
    rw [footer, ← List.append_assoc, List.mem_append, not_or]
    exact ⟨noFeed_indent_lead d.lead_noFeed hi, by decide⟩
  have read : ((), []) ∈ leadLine m.lead before (indent ++ m.footer ++ ['\n']) :=
    mem_leadLine.2 ⟨start, indent, _, ['\n'], hi, words, Or.inl (Or.inr rfl), by simp [footer]⟩
  obtain ⟨before', gone⟩ := leftFrom_line d.lead_noFeed line (List.ne_nil_of_mem read)
  rw [gone, leftFrom, cuts_nil]
  rfl

/-- Of the lines of the code and the footer below them only the footer goes. -/
theorem leftFrom_code (d : m.Discernible indent) {preserved : Text}
    (hi : ∀ c ∈ indent, isIndent c = true) (none_ : ¬ Leads m.lead preserved) (before : Option Char) :
    leftFrom (leadLine m.lead) before (preserved ++ '\n' :: (indent ++ m.footer ++ ['\n'])) =
      preserved ++ ['\n'] := by
  have silent := silent_lines d.lead_noFeed none_ before (indent ++ m.footer ++ ['\n'])
  rw [← List.singleton_append, ← List.append_assoc, leftFrom_append_of_silent silent,
    leftFrom_footer d hi (Or.inr (by simp)), List.append_nil]

/-- A lead of spaces and tabs is read in a first line of indentation. -/
theorem leftFrom_indentLine {lead front : Text} (noFeed : '\n' ∉ lead)
    (hf : ∀ c ∈ front, isIndent c = true) (leads : Leads lead front) (t : Text) :
    ∃ before', leftFrom (leadLine lead) none (front ++ '\n' :: t) =
      leftFrom (leadLine lead) before' t := by
  obtain ⟨above, ind, rest, start, hind, parts⟩ := leads
  obtain rfl : above = [] := by
    refine start.resolve_right fun feed => noFeed_of_all_isIndent hf ?_
    rw [parts, List.append_assoc, List.append_assoc]
    exact List.mem_append_left _ (List.mem_of_getLast? feed)
  have words : ∀ c ∈ rest, c ≠ '\r' ∧ c ≠ '\n' := by
    intro c member
    have indented := hf c (by rw [parts]; exact List.mem_append_right _ member)
    constructor
    · rintro rfl
      exact absurd indented (by decide)
    · rintro rfl
      exact absurd indented (by decide)
  have read : ((), t) ∈ leadLine lead none (front ++ '\n' :: t) :=
    mem_leadLine.2 ⟨Or.inl rfl, ind, rest, ['\n'], hind, words, Or.inl (Or.inr rfl), by simp [parts]⟩
  exact leftFrom_line noFeed (noFeed_of_all_isIndent hf) (List.ne_nil_of_mem read)

/-- Of the lines of the code and the footer below them only the footer goes; a line of indentation
above them may go as well. -/
theorem removeLeadLines_unwrapped (d : m.Discernible indent) {front preserved : Text}
    (hf : ∀ c ∈ front, isIndent c = true) (hi : ∀ c ∈ indent, isIndent c = true)
    (none_ : ¬ Leads m.lead preserved) :
    ∃ above, (above = [] ∨ above = front ++ ['\n']) ∧
      m.removeLeadLines (front ++ '\n' :: (preserved ++ '\n' :: (indent ++ m.footer ++ ['\n']))) =
        above ++ (preserved ++ ['\n']) ∧
      m.removeLeadLines (above ++ (preserved ++ ['\n'])) = above ++ (preserved ++ ['\n']) := by
  have code := leftFrom_code d hi none_
  have alone (before : Option Char) :
      leftFrom (leadLine m.lead) before (preserved ++ ['\n']) = preserved ++ ['\n'] :=
    leftFrom_of_silent (silent_lines d.lead_noFeed none_ before [])
  simp only [removeLeadLines_eq_leftFrom d.lead_ne_nil]
  by_cases leads : Leads m.lead front
  · obtain ⟨before', gone⟩ := leftFrom_indentLine d.lead_noFeed hf leads
      (preserved ++ '\n' :: (indent ++ m.footer ++ ['\n']))
    exact ⟨[], Or.inl rfl, by rw [gone, code, List.nil_append], by rw [List.nil_append, alone]⟩
  · have silent := silent_lines d.lead_noFeed leads none
    have line (t : Text) : front ++ '\n' :: t = front ++ ['\n'] ++ t := by simp
    refine ⟨front ++ ['\n'], Or.inr rfl, ?_, ?_⟩
    · rw [line, leftFrom_append_of_silent (silent _), code]
    · rw [leftFrom_append_of_silent (silent _), alone]

/-- Of what is put around a text, stripping leaves at most a line of indentation above it, and the end
of its last line. -/
theorem strip_wrapped (d : m.Discernible indent) {preserved : Text}
    (hi : ∀ c ∈ indent, isIndent c = true) (noOpening : ¬ m.opening <:+: preserved)
    (noLead : ¬ Leads m.lead preserved) :
    ∃ above, CarryOver.BlankLines above ∧
      m.strip (m.notice indent ++ (preserved ++ '\n' :: (indent ++ m.footer ++ ['\n']))) =
        above ++ (preserved ++ ['\n']) := by
  obtain ⟨front, within, cut⟩ := cut?_notice d
  have hf : ∀ c ∈ front, isIndent c = true := fun c member => hi c (within.subset member)
  have notNil : ¬ m.opening <:+: [] := fun h => m.opening_ne_nil (List.infix_nil.1 h)
  have noFront : ¬ m.opening <:+: front := fun h =>
    d.footer ((h.trans within.isInfix).trans List.infix_append_left)
  have behind (t : Text) : m.opening <:+: t ++ ['\n'] ↔ m.opening <:+: t := by
    rw [infix_separated d.opening_noFeed]
    simp only [notNil, or_false]
  obtain ⟨above, shape, gone, stays⟩ := removeLeadLines_unwrapped d hf hi noLead
  have lines : CarryOver.BlankLines above := by
    rcases shape with rfl | rfl
    · exact .nil
    · rw [← List.append_nil (front ++ _)]
      exact .line hf (Or.inr rfl) .nil
  refine ⟨above, lines, strip_of_rounds ?_ ?_⟩
  · have left : ¬ m.opening <:+:
        front ++ '\n' :: (preserved ++ '\n' :: (indent ++ m.footer ++ ['\n'])) := by
      rw [infix_separated d.opening_noFeed, infix_separated d.opening_noFeed, behind]
      simp only [noFront, noOpening, d.footer, or_self, not_false_eq_true]
    rw [stripOnce, removeRegions_of_cut (cut _), Cut.left, removeRegions_of_no_opening left, gone]
  · rw [stripOnce, removeRegions_of_no_opening, stays]
    rcases shape with rfl | rfl
    · rw [List.nil_append, behind]
      exact noOpening
    · rw [List.append_assoc, List.singleton_append, infix_separated d.opening_noFeed, behind]
      simp only [noFront, noOpening, or_self, not_false_eq_true]

end MarkerPair

namespace CarryOver

/-- What is put around a text comes off again, whatever the text is as long as it has no marker, no
line of the lead, and neither starts with a blank line nor ends with white space. -/
theorem strip_wrap {r : Rules} {indent preserved : Text} (d : r.markers.Discernible indent)
    (hi : ∀ c ∈ indent, isIndent c = true)
    (last : ∃ c, preserved.getLast? = some c ∧ isBlank c = false)
    (first : blankLine preserved = []) (noOpening : ¬ r.markers.opening <:+: preserved)
    (noLead : ¬ Leads r.markers.lead preserved) :
    trimEnd (dropBlankLines (r.markers.strip (wrap r indent preserved))) = preserved := by
  obtain ⟨above, lines, stripped⟩ := MarkerPair.strip_wrapped d hi noOpening noLead
  have parts : wrap r indent preserved = r.markers.notice indent ++
      (preserved ++ '\n' :: (indent ++ r.markers.footer ++ ['\n'])) := by
    simp [wrap]
  obtain ⟨c, last, inked⟩ := last
  rw [parts, stripped, dropBlankLines_append lines (blankLine_append last inked first _),
    trimEnd_append_blank _ (by decide), trimEnd_of_last last inked]

/-- Rules with comments in brackets as markers. -/
def bracketRules (lead : Text) : Rules :=
  { Rules.standard with
    markers := ⟨"/* BEGIN */".toList, "/* END */".toList, lead, by decide, by decide⟩ }

theorem strip_wrap_brackets :
    let r := bracketRules "//!".toList
    let preserved : Text := "Seed();\n\n  More();".toList
    r.markers.Discernible ['\t'] ∧
      trimEnd (dropBlankLines (r.markers.strip (wrap r ['\t'] preserved))) = preserved := by
  intro r preserved
  let inner : Text := '\n' :: (MarkerPair.noticeLines.flatMap fun line => '\t' :: line ++ ['\n']) ++
    ['\t']
  have d : r.markers.Discernible ['\t'] := {
    notice := ⟨['\t'], inner ++ r.markers.closing ++ ['\n'], inner, by decide +kernel,
      by decide +kernel⟩
    footer := cutAt?_eq_none.1 rfl
    opening_noFeed := by simp [r, bracketRules]
    lead_ne_nil := by simp [r, bracketRules]
    lead_noFeed := by simp [r, bracketRules] }
  have noLead : ¬ Leads "//!".toList preserved := not_leads_of_infix (cutAt?_eq_none.1 rfl)
  exact ⟨d, strip_wrap d (by simp [isIndent]) ⟨';', rfl, rfl⟩ rfl (cutAt?_eq_none.1 rfl) noLead⟩

/-- Without a lead, a pair of markers like any other, the footer is not taken off again. -/
theorem strip_wrap_unled :
    ∃ (r : Rules) (indent preserved : Text), (∀ c ∈ indent, isIndent c = true) ∧
      (∃ c, preserved.getLast? = some c ∧ isBlank c = false) ∧ blankLine preserved = [] ∧
      ¬ r.markers.opening <:+: preserved ∧ ¬ r.markers.closing <:+: preserved ∧
      (r.markers.lead ≠ [] → ¬ Leads r.markers.lead preserved) ∧
      trimEnd (dropBlankLines (r.markers.strip (wrap r indent preserved))) ≠ preserved := by
  refine ⟨bracketRules [], [], "Seed();".toList, by simp, ⟨';', rfl, rfl⟩, rfl,
    cutAt?_eq_none.1 rfl, cutAt?_eq_none.1 rfl, fun some_ => absurd rfl some_, ?_⟩
  have left : trimEnd (dropBlankLines ((bracketRules []).markers.strip
      (wrap (bracketRules []) [] "Seed();".toList))) =
        "Seed();\n end of carried-over statements".toList := by
    decide +kernel
  rw [left]
  decide

end CarryOver

end Regraft
