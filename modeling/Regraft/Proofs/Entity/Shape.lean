import Regraft.Proofs.Entity.Outside
import Regraft.Proofs.Entity.Scan

/-!
# Regraft.Proofs.Entity.Shape -- the shape of an entity statement

`Statement.Shaped` says what an entity statement looks like, with no scan in it: an anchor, a head
in which no block opens and the statement does not end, a block, and the closing of just those
parentheses that the head left open.  The statements that the scan finds have this shape
(`segments_shaped`), and where the first anchor of a text starts a statement of this shape, the scan
finds it (`Statement.Shaped.segments_eq`).
-/

namespace Regraft.Entity

set_option autoImplicit false

open Text

variable {token : Text}

/-! ## Statements -/

structure Statement.Shaped (token : Text) (s : Statement) : Prop where
  anchor : Alike token s.anchor
  closed : Brace.isBalanced s.inner = true
  ends : ∃ depth, headDepth 0 s.head = some depth ∧ IsEnd depth s.tail

theorem Statement.Shaped.head_no_brace {s : Statement} (h : s.Shaped token) : '{' ∉ s.head := by
  obtain ⟨depth, opens, -⟩ := h.ends
  exact no_brace_of_headDepth opens

/-- What the scan reads as a statement has the shape of one. -/
theorem shaped_of_read {t before found after head block inner next more : Text} {depth : Nat}
    (cut : cutAnchor? token t = some (before, found, after))
    (opens : seek 0 after = .block head depth block)
    (closes : Brace.closeBlock 0 block = .ok (inner, next))
    (ends : afterEnd? depth next = some more) :
    (Statement.mk found head inner (taken next more)).Shaped token := by
  obtain ⟨tail, isEnd, rfl⟩ := afterEnd?_eq_some.1 ends
  rw [taken_append]
  exact ⟨cutAnchor?_alike cut, Brace.isBalanced_iff.2 (Brace.closeBlock_eq_ok.1 closes).2,
    depth, (seek_eq_block.1 opens).2, isEnd⟩

theorem segments_shaped (body : Text) :
    ∀ before s, .statement before s ∈ segments token body → s.Shaped token := by
  fun_induction segments token body with
  | case1 => simp
  | case2 body before found after cut head more opens ih =>
      intro front s m
      rcases List.mem_cons.1 m with e | m
      · cases e
      · split at m
        · rename_i shorter
          exact ih shorter front s m
        · simp at m
  | case3 => simp
  | case4 body before found after cut head depth block opens inner next closes ends ih =>
      intro front s m
      rcases List.mem_cons.1 m with e | m
      · cases e
      · exact ih front s m
  | case5 body before found after cut head depth block opens inner next closes more ends ih =>
      intro front s m
      rcases List.mem_cons.1 m with e | m
      · obtain ⟨-, rfl⟩ := Segment.statement.inj e
        exact shaped_of_read cut opens closes ends
      · exact ih front s m

/-- A statement of this shape is read where its anchor is the first. -/
theorem Statement.Shaped.segments_eq {s : Statement} (h : s.Shaped token) {before more : Text}
    (first : cutAnchor? token (before ++ s.text ++ more) =
      some (before, s.anchor, s.head ++ '{' :: (s.inner ++ '}' :: (s.tail ++ more)))) :
    segments token (before ++ s.text ++ more) = .statement before s :: segments token more := by
  obtain ⟨depth, opens, ends⟩ := h.ends
  have closes : Brace.closeBlock 0 (s.inner ++ '}' :: (s.tail ++ more)) =
      .ok (s.inner, s.tail ++ more) :=
    Brace.closeBlock_eq_ok.2 ⟨rfl, Brace.isBalanced_iff.1 h.closed⟩
  have behind : afterEnd? depth (s.tail ++ more) = some more :=
    afterEnd?_eq_some.2 ⟨s.tail, ends, rfl⟩
  rw [segments_of_block first (seek_of_headDepth opens _), closes]
  simp only [behind, taken_append]

/-! ## Blocks -/

/-- The blocks are the places of the statements among the segments. -/
theorem mem_blocksFrom_iff {offset : Nat} {segs : List Segment} {b : Block} :
    b ∈ blocksFrom offset segs ↔ ∃ init before s more, segs = init ++ .statement before s :: more ∧
      b = s.block (offset + (textOf init ++ before).length) := by
  constructor
  · intro m
    induction segs generalizing offset with
    | nil => simp [blocksFrom] at m
    | cons seg segs ih =>
        have later (m : b ∈ blocksFrom (offset + seg.text.length) segs) :
            ∃ init before s more, seg :: segs = init ++ .statement before s :: more ∧
              b = s.block (offset + (textOf init ++ before).length) := by
          obtain ⟨init, before, s, more, rfl, rfl⟩ := ih m
          refine ⟨seg :: init, before, s, more, rfl, ?_⟩
          simp only [textOf_cons, List.length_append, Nat.add_assoc]
        cases seg with
        | statement before s =>
            rw [blocksFrom] at m
            rcases List.mem_cons.1 m with rfl | m
            · exact ⟨[], before, s, segs, rfl, rfl⟩
            · exact later m
        | _ => exact later m
  · rintro ⟨init, before, s, more, rfl, rfl⟩
    rw [blocksFrom_append, List.length_append, ← Nat.add_assoc]
    exact List.mem_append_right _ List.mem_cons_self

theorem blocks_eq_ok {body : Text} {bs : List Block} :
    blocks token body = .ok bs ↔
      failureFrom? 0 (segments token body) = none ∧ bs = blocksFrom 0 (segments token body) := by
  simp only [blocks]
  split
  · rename_i failure e
    simp [e]
  · rename_i e
    simp [e, eq_comm]

theorem strip_of_blocks {body : Text} {bs : List Block} (found : blocks token body = .ok bs) :
    ∃ kept, strip token body = .ok kept := by
  obtain ⟨shut, -⟩ := blocks_eq_ok.1 found
  simp only [strip, shut]
  exact ⟨_, rfl⟩

/-- A block is where a statement of the shape stands in the body. -/
theorem shaped_of_mem_blocks {body : Text} {bs : List Block} (found : blocks token body = .ok bs)
    {b : Block} (m : b ∈ bs) :
    ∃ (front : Text) (s : Statement) (back : Text),
      body = front ++ s.text ++ back ∧ s.Shaped token ∧ b = s.block front.length := by
  obtain ⟨-, rfl⟩ := blocks_eq_ok.1 found
  obtain ⟨init, before, s, more, split, rfl⟩ := mem_blocksFrom_iff.1 m
  refine ⟨textOf init ++ before, s, textOf more, ?_, ?_, by rw [Nat.zero_add]⟩
  · rw [← segments_text token body, split]
    simp [Segment.text]
  · exact segments_shaped body before s (by rw [split]; simp)

end Regraft.Entity
