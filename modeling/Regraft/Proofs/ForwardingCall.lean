import Regraft.CarryOver
import Regraft.Proofs.Reader
import Regraft.Proofs.Text.Solid

/-!
# Regraft.Proofs.ForwardingCall -- what a forwarding call is

The call by which a generated body forwards to hand-written code may have a receiver and white
space between its parts (`IsReceiver`, `IsBareCall`).  `mem_forwardingCall` opens the reader: a
reading is indentation, a call, and the rest of its line as far as that is empty.  Taking calls out
of a text splits its solid characters into those of the calls and those that stay.
-/

namespace Regraft.Rules

set_option autoImplicit false

open Text Reader

def IsReceiver (t : Text) : Prop :=
  ∃ left right, isBlankText left = true ∧ isBlankText right = true ∧
    t = "this".toList ++ left ++ '.' :: right

def IsBareCall (r : Rules) (param call : Text) : Prop :=
  ∃ w₁ w₂ w₃ w₄, isBlankText w₁ = true ∧ isBlankText w₂ = true ∧ isBlankText w₃ = true ∧
    isBlankText w₄ = true ∧
    call = r.forward ++ w₁ ++ '(' :: w₂ ++ param ++ w₃ ++ ')' :: w₄ ++ [';']

def IsCall (r : Rules) (param call : Text) : Prop :=
  ∃ this bare, (this = [] ∨ IsReceiver this) ∧ r.IsBareCall param bare ∧ call = this ++ bare

/-- What goes with a call behind it: spaces and tabs and at most one line end. -/
def IsCallTail (t : Text) : Prop :=
  ∃ blank lineEnd, (∀ c ∈ blank, isIndent c = true) ∧ (lineEnd = [] ∨ IsLineEnd lineEnd) ∧
    t = blank ++ lineEnd

theorem mem_receiver {this t rest : Text} :
    (this, rest) ∈ receiver t ↔ IsReceiver this ∧ t = this ++ rest := by
  simp only [receiver, mem_bind, exists_unit, mem_many, mem_pure, mem_literal, IsReceiver]
  constructor
  · rintro ⟨m₁, rfl, left, m₂, ⟨rfl, hl⟩, m₃, rfl, right, m₄, ⟨rfl, hr⟩, rfl, rfl⟩
    exact ⟨⟨left, right, isBlankText_iff.2 hl, isBlankText_iff.2 hr, by simp⟩, by simp⟩
  · rintro ⟨⟨left, right, hl, hr, rfl⟩, rfl⟩
    exact ⟨left ++ '.' :: (right ++ rest), by simp, left, '.' :: (right ++ rest),
      ⟨rfl, isBlankText_iff.1 hl⟩, right ++ rest, rfl, right, rest, ⟨rfl, isBlankText_iff.1 hr⟩,
      by simp, rfl⟩

/-- The receiver of a call may be missing. -/
theorem mem_optional_receiver {v : Option Text} {t rest : Text}
    (m : (v, rest) ∈ optional receiver t) :
    (v.getD [] = [] ∨ IsReceiver (v.getD [])) ∧ t = v.getD [] ++ rest := by
  rcases mem_optional.1 m with ⟨this, rfl, found⟩ | ⟨rfl, rfl⟩
  · obtain ⟨reads, rfl⟩ := mem_receiver.1 found
    exact ⟨Or.inr reads, rfl⟩
  · exact ⟨Or.inl rfl, rfl⟩

theorem optional_receiver_of {this : Text} (h : this = [] ∨ IsReceiver this) (rest : Text) :
    ∃ v, (v, rest) ∈ optional receiver (this ++ rest) ∧ v.getD [] = this := by
  rcases h with rfl | reads
  · exact ⟨none, mem_optional.2 (Or.inr ⟨rfl, rfl⟩), rfl⟩
  · exact ⟨some this, mem_optional.2 (Or.inl ⟨this, rfl, mem_receiver.2 ⟨reads, rfl⟩⟩), rfl⟩

theorem mem_callTail {t rest : Text} :
    ((), rest) ∈ (do Reader.indent; let _ ← Reader.optional Reader.lineEnd : Reader Unit) t ↔
      ∃ tail, IsCallTail tail ∧ t = tail ++ rest := by
  simp only [mem_bind, exists_unit, mem_indent, mem_pure, IsCallTail]
  constructor
  · rintro ⟨mid, ⟨blank, rfl, hb⟩, v, mid', m, -, rfl⟩
    rcases mem_optional.1 m with ⟨e, rfl, found⟩ | ⟨rfl, rfl⟩
    · obtain ⟨ends, rfl⟩ := mem_lineEnd.1 found
      exact ⟨blank ++ e, ⟨blank, e, hb, Or.inr ends, rfl⟩, by simp⟩
    · exact ⟨blank, ⟨blank, [], hb, Or.inl rfl, by simp⟩, rfl⟩
  · rintro ⟨tail, ⟨blank, e, hb, ends, rfl⟩, rfl⟩
    rcases ends with rfl | ends
    · exact ⟨rest, ⟨blank, by simp, hb⟩, none, rest, mem_optional.2 (Or.inr ⟨rfl, rfl⟩), trivial, rfl⟩
    · exact ⟨e ++ rest, ⟨blank, by simp, hb⟩, some e, rest,
        mem_optional.2 (Or.inl ⟨e, rfl, mem_lineEnd.2 ⟨ends, rfl⟩⟩), trivial, rfl⟩

/-- The readings of the forwarding call: indentation, a call that starts at the edge of a word, and
what goes with it. -/
theorem mem_forwardingCall {r : Rules} {param : Text} {before : Option Char} {t rest : Text} :
    ((), rest) ∈ r.forwardingCall param before t ↔
      ∃ ind this bare tail, (∀ c ∈ ind, isIndent c = true) ∧ (this = [] ∨ IsReceiver this) ∧
        r.IsBareCall param bare ∧ IsCallTail tail ∧
        wordAt ((ind ++ this).getLast?.or before) ≠ wordAt (bare ++ tail ++ rest).head? ∧
        t = ind ++ this ++ bare ++ tail ++ rest := by
  simp only [forwardingCall, mem_bind (r := manyBack _), mem_bind (r := optional receiver),
    mem_manyBack]
  have last (ind this : Text) :
      (ind ++ this).getLast? = (this.reverse ++ ind.reverse).head? := by
    rw [← List.reverse_append, List.head?_reverse]
  constructor
  · rintro ⟨back, m₁, ⟨rfl, hi⟩, v, m₂, found, m⟩
    obtain ⟨hthis, rfl⟩ := mem_optional_receiver found
    simp only [mem_bind, exists_unit, boundary, mem_when, mem_literal, mem_blanks] at m
    obtain ⟨_, ⟨edge, rfl⟩, m₃, rfl, _, ⟨w₁, rfl, h₁⟩, m₄, rfl, _, ⟨w₂, rfl, h₂⟩, m₅, rfl, _,
      ⟨w₃, rfl, h₃⟩, m₆, rfl, _, ⟨w₄, rfl, h₄⟩, m₇, rfl, m⟩ := m
    obtain ⟨tail, htail, rfl⟩ := mem_callTail.1 (by simpa only [mem_bind, exists_unit] using m)
    refine ⟨back.reverse, v.getD [],
      r.forward ++ w₁ ++ '(' :: w₂ ++ param ++ w₃ ++ ')' :: w₄ ++ [';'], tail,
      by simpa using hi, hthis, ⟨w₁, w₂, w₃, w₄, h₁, h₂, h₃, h₄, rfl⟩, htail, ?_, by simp⟩
    rw [last, List.reverse_reverse]
    simpa using edge
  · rintro ⟨ind, this, _, tail, hi, hthis, ⟨w₁, w₂, w₃, w₄, h₁, h₂, h₃, h₄, rfl⟩, htail, edge, rfl⟩
    obtain ⟨v, found, rfl⟩ := optional_receiver_of hthis
      (r.forward ++ w₁ ++ '(' :: w₂ ++ param ++ w₃ ++ ')' :: w₄ ++ [';'] ++ tail ++ rest)
    refine ⟨ind.reverse, _, ⟨?_, by simpa using hi⟩, v, _, found, ?_⟩
    · simp only [List.reverse_reverse, List.append_assoc]
    simp only [mem_bind, exists_unit, boundary, mem_when, mem_literal, mem_blanks]
    refine ⟨_, ⟨?_, rfl⟩, w₁ ++ '(' :: (w₂ ++ param ++ w₃ ++ ')' :: (w₄ ++ ';' :: (tail ++ rest))),
      by simp, _, ⟨w₁, rfl, h₁⟩, w₂ ++ param ++ w₃ ++ ')' :: (w₄ ++ ';' :: (tail ++ rest)),
      rfl, param ++ w₃ ++ ')' :: (w₄ ++ ';' :: (tail ++ rest)), ⟨w₂, by simp, h₂⟩,
      w₃ ++ ')' :: (w₄ ++ ';' :: (tail ++ rest)), by simp, ')' :: (w₄ ++ ';' :: (tail ++ rest)),
      ⟨w₃, rfl, h₃⟩, w₄ ++ ';' :: (tail ++ rest), rfl, ';' :: (tail ++ rest), ⟨w₄, rfl, h₄⟩,
      tail ++ rest, rfl, ?_⟩
    · rw [last] at edge
      simpa using edge
    · simpa only [mem_bind, exists_unit] using mem_callTail.2 ⟨tail, htail, rfl⟩

end Regraft.Rules
