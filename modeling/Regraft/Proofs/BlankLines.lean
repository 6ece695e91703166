import Regraft.CarryOver
import Regraft.Proofs.Reader
import Regraft.Proofs.Text.Solid

/-!
# Regraft.Proofs.BlankLines -- the blank lines a text starts with

A blank line is spaces and tabs and a line end.  `dropBlankLines` takes as many of them as there are
off the front: the rest is determined by being what follows blank lines without starting with one
(`dropBlankLines_append`).
-/

namespace Regraft.CarryOver

set_option autoImplicit false

open Text Reader

/-- Blank lines, each with its end. -/
inductive BlankLines : Text → Prop where
  | nil : BlankLines []
  | line {ind e t : Text} : (∀ c ∈ ind, isIndent c = true) → IsLineEnd e → BlankLines t →
      BlankLines (ind ++ e ++ t)

theorem BlankLines.isBlankText {t : Text} (h : BlankLines t) : isBlankText t = true := by
  induction h with
  | nil => rfl
  | line hi he _ ih =>
      rw [isBlankText_append, isBlankText_append, isBlankText_of_all_isIndent hi,
        isBlankText_of_isLineEnd he, ih]
      rfl

theorem mem_blankLine {t rest : Text} :
    ((), rest) ∈ blankLine t ↔
      ∃ ind e, (∀ c ∈ ind, isIndent c = true) ∧ IsLineEnd e ∧ t = ind ++ e ++ rest := by
  simp only [blankLine, mem_bind, exists_unit, mem_indent, mem_lineEnd, mem_pure]
  constructor
  · rintro ⟨mid, ⟨ind, rfl, hi⟩, e, mid', ⟨he, rfl⟩, -, rfl⟩
    exact ⟨ind, e, hi, he, by simp⟩
  · rintro ⟨ind, e, hi, he, rfl⟩
    exact ⟨e ++ rest, ⟨ind, by simp, hi⟩, e, rest, ⟨he, rfl⟩, trivial, rfl⟩

/-- A blank line can be read in one way. -/
theorem first?_blankLine {ind e t : Text} (hi : ∀ c ∈ ind, isIndent c = true) (he : IsLineEnd e) :
    first? blankLine (ind ++ e ++ t) = some ((), t) := by
  have some_ : ((), t) ∈ blankLine (ind ++ e ++ t) := mem_blankLine.2 ⟨ind, e, hi, he, rfl⟩
  cases readings : blankLine (ind ++ e ++ t) with
  | nil =>
      rw [readings] at some_
      cases some_
  | cons p more =>
      obtain ⟨⟨⟩, rest⟩ := p
      obtain ⟨ind', e', hi', he', same⟩ := mem_blankLine.1 (readings ▸ List.mem_cons_self)
      rw [List.append_assoc, List.append_assoc] at same
      obtain ⟨-, tails⟩ := append_inj_of_kind same hi hi' (isLineEnd_head he) (isLineEnd_head he')
      obtain ⟨-, rfl⟩ := isLineEnd_append_inj tails he he'
      exact first?_of_cons readings

/-- What follows blank lines and starts with none is what dropping them leaves. -/
theorem dropBlankLines_append {s t : Text} (lines : BlankLines s) (none_ : blankLine t = []) :
    dropBlankLines (s ++ t) = t := by
  have e : ∃ values, first? (star blankLine) (s ++ t) = some (values, t) := by
    induction lines with
    | nil => exact ⟨[], first?_star_of_nil none_⟩
    | @line ind e s hi he _ ih =>
        obtain ⟨values, later⟩ := ih
        have shorter : (s ++ t).length < (ind ++ e ++ (s ++ t)).length := by
          rcases he with rfl | rfl <;> simp only [List.length_append, List.length_cons] <;> omega
        refine ⟨() :: values, ?_⟩
        rw [List.append_assoc, first?_star (first?_blankLine hi he) shorter, later]
        rfl
  obtain ⟨values, e⟩ := e
  rw [dropBlankLines, e]

/-- A text that ends in ink does not get a blank first line from what follows it. -/
theorem blankLine_append {t : Text} {c : Char} (last : t.getLast? = some c)
    (inked : isBlank c = false) (none_ : blankLine t = []) (more : Text) :
    blankLine (t ++ more) = [] := by
  refine List.eq_nil_iff_forall_not_mem.2 fun p m => ?_
  obtain ⟨⟨⟩, rest⟩ := p
  obtain ⟨ind, e, hi, he, same⟩ := mem_blankLine.1 m
  rcases List.append_eq_append_iff.1 same with ⟨x, h, -⟩ | ⟨x, h, -⟩
  · have white : isBlankText (ind ++ e) = true := by
      rw [isBlankText_append, isBlankText_of_all_isIndent hi, isBlankText_of_isLineEnd he]
      rfl
    have member : c ∈ ind ++ e := by
      rw [h]
      exact List.mem_append_left _ (List.mem_of_getLast? last)
    exact absurd member (not_mem_of_isBlankText white inked)
  · have read : ((), x) ∈ blankLine t := mem_blankLine.2 ⟨ind, e, hi, he, h⟩
    rw [none_] at read
    cases read

/-- Dropping blank lines leaves the end of a text that follows them. -/
theorem dropBlankLines_spec (t : Text) :
    ∃ s, BlankLines s ∧ t = s ++ dropBlankLines t ∧ blankLine (dropBlankLines t) = [] := by
  induction length : t.length using Nat.strongRecOn generalizing t with
  | ind n ih =>
      cases readings : blankLine t with
      | nil =>
          have e := dropBlankLines_append .nil readings
          rw [List.nil_append] at e
          exact ⟨[], .nil, by rw [e]; rfl, by rwa [e]⟩
      | cons p more =>
          obtain ⟨⟨⟩, rest⟩ := p
          obtain ⟨ind, e, hi, he, rfl⟩ := mem_blankLine.1 (readings ▸ List.mem_cons_self)
          have shorter : rest.length < n := by
            rcases he with rfl | rfl <;>
              simp only [List.length_append, List.length_cons, List.length_nil] at length <;> omega
          obtain ⟨s, lines, parts, none_⟩ := ih rest.length shorter rest rfl
          have same : dropBlankLines (ind ++ e ++ rest) = dropBlankLines rest := by
            conv => lhs; rw [parts, ← List.append_assoc]
            exact dropBlankLines_append (.line hi he lines) none_
          refine ⟨ind ++ e ++ s, .line hi he lines, ?_, by rwa [same]⟩
          rw [same, List.append_assoc (ind ++ e), ← parts]

theorem solid_dropBlankLines (t : Text) : solid (dropBlankLines t) = solid t := by
  obtain ⟨s, lines, parts, -⟩ := dropBlankLines_spec t
  conv => rhs; rw [parts]
  rw [solid_append, solid_eq_nil.2 lines.isBlankText, List.nil_append]

end Regraft.CarryOver
