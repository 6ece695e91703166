import Regraft.Entity.Block
import Regraft.Proofs.Entity.Anchor
import Regraft.Proofs.Entity.Parts

/-!
# Regraft.Proofs.Entity.Scan -- the scan for entity statements as a relation

`Scan token body segs` has one rule for each way in which the scan goes on after an anchor;
`scan_segments` and `Scan.segments_eq` say that it is the function `segments`.  What follows the
part of a body that a rule reads may be anything else (`Scan.noLambda_swap`, `Scan.openEnded_swap`,
`Scan.statement_swap`).
-/

namespace Regraft.Entity

set_option autoImplicit false

open Text

/-- The scan of a body along its anchors: one rule for each way to go on after an anchor. -/
inductive Scan (token : Text) : Text → List Segment → Prop where
  | rest {t : Text} : cutAnchor? token t = none → Scan token t [.rest t]
  | noLambda {t before found after head more : Text} {segs : List Segment} :
      cutAnchor? token t = some (before, found, after) → seek 0 after = .none head more →
      Scan token more segs → Scan token t (.noLambda before (found ++ head) :: segs)
  | unclosed {t before found after head block : Text} {depth stillOpen : Nat} :
      cutAnchor? token t = some (before, found, after) → seek 0 after = .block head depth block →
      Brace.closeBlock 0 block = .error stillOpen →
      Scan token t [.unclosed before (found ++ head) stillOpen block]
  | openEnded {t before found after head block inner next : Text} {depth : Nat}
      {segs : List Segment} :
      cutAnchor? token t = some (before, found, after) → seek 0 after = .block head depth block →
      Brace.closeBlock 0 block = .ok (inner, next) → afterEnd? depth next = none →
      Scan token next segs →
      Scan token t (.openEnded before (found ++ head ++ '{' :: inner ++ ['}']) :: segs)
  | statement {t before found after head block inner tail more : Text} {depth : Nat}
      {segs : List Segment} :
      cutAnchor? token t = some (before, found, after) → seek 0 after = .block head depth block →
      Brace.closeBlock 0 block = .ok (inner, tail ++ more) →
      afterEnd? depth (tail ++ more) = some more → Scan token more segs →
      Scan token t (.statement before ⟨found, head, inner, tail⟩ :: segs)

/-- The text around the block that opens after an anchor. -/
theorem block_text {token t before found after head block inner next : Text} {depth : Nat}
    (cut : cutAnchor? token t = some (before, found, after))
    (opens : seek 0 after = .block head depth block)
    (closes : Brace.closeBlock 0 block = .ok (inner, next)) :
    t = before ++ found ++ (head ++ '{' :: (inner ++ '}' :: next)) := by
  rw [cutAnchor?_append cut, seek_block_text opens, Brace.closeBlock_append closes]

theorem statement_text {token t before found after head block inner tail more : Text} {depth : Nat}
    (cut : cutAnchor? token t = some (before, found, after))
    (opens : seek 0 after = .block head depth block)
    (closes : Brace.closeBlock 0 block = .ok (inner, tail ++ more)) :
    t = before ++ (Statement.mk found head inner tail).text ++ more := by
  rw [block_text cut opens closes, Statement.text]
  simp

/-- An anchor whose statement ends without block is scanned alike whatever follows. -/
theorem Scan.noLambda_swap {token t before found after head more more' : Text} {segs : List Segment}
    (cut : cutAnchor? token t = some (before, found, after)) (opens : seek 0 after = .none head more)
    (ends : settles 0 head = true) (scan : Scan token more' segs) :
    Scan token (before ++ found ++ (head ++ more')) (.noLambda before (found ++ head) :: segs) :=
  .noLambda (cutAnchor?_swap cut _) (seek_none_swap opens ends _) scan

/-- A block that ends no statement is scanned alike where something else follows that ends none. -/
theorem Scan.openEnded_swap {token t before found after head block inner next next' : Text}
    {depth : Nat} {segs : List Segment} (cut : cutAnchor? token t = some (before, found, after))
    (opens : seek 0 after = .block head depth block)
    (closes : Brace.closeBlock 0 block = .ok (inner, next)) (ends : afterEnd? depth next' = none)
    (scan : Scan token next' segs) :
    Scan token (before ++ found ++ (head ++ '{' :: (inner ++ '}' :: next')))
      (.openEnded before (found ++ head ++ '{' :: inner ++ ['}']) :: segs) :=
  .openEnded (cutAnchor?_swap cut _) (seek_block_swap opens _) (closeBlock_swap closes _) ends scan

/-- A statement is scanned alike whatever follows it. -/
theorem Scan.statement_swap {token t before found after head block inner tail more more' : Text}
    {depth : Nat} {segs : List Segment} (cut : cutAnchor? token t = some (before, found, after))
    (opens : seek 0 after = .block head depth block)
    (closes : Brace.closeBlock 0 block = .ok (inner, tail ++ more))
    (ends : afterEnd? depth (tail ++ more) = some more) (scan : Scan token more' segs) :
    Scan token (before ++ (Statement.mk found head inner tail).text ++ more')
      (.statement before ⟨found, head, inner, tail⟩ :: segs) := by
  obtain ⟨tail', same, -, swap⟩ := afterEnd?_swap ends
  obtain rfl : tail = tail' := List.append_cancel_right same
  have e : before ++ (Statement.mk found head inner tail).text ++ more' =
      before ++ found ++ (head ++ '{' :: (inner ++ '}' :: (tail ++ more'))) := by
    simp [Statement.text]
  rw [e]
  exact .statement (cutAnchor?_swap cut _) (seek_block_swap opens _) (closeBlock_swap closes _)
    (swap more') scan

/-- An anchor takes something, so what is left behind it is shorter. -/
theorem shorter_of_none {token t before found after head more : Text} (some_ : token ≠ [])
    (cut : cutAnchor? token t = some (before, found, after)) (opens : seek 0 after = .none head more) :
    more.length < t.length := by
  have e₁ := congrArg List.length (cutAnchor?_append cut)
  have e₂ := congrArg List.length (seek_none_text opens)
  have long : 0 < found.length := by
    rw [← (cutAnchor?_alike cut).length_eq]
    exact List.length_pos_iff.2 some_
  simp only [List.length_append] at e₁ e₂
  omega

theorem scan_of_ne_nil {token : Text} (some_ : token ≠ []) (body : Text) :
    Scan token body (segments token body) := by
  fun_induction segments token body with
  | case1 body cut => exact .rest cut
  | case2 body before found after cut head more opens ih =>
      have shorter := shorter_of_none some_ cut opens
      rw [dif_pos shorter]
      exact .noLambda cut opens (ih shorter)
  | case3 body before found after cut head depth block opens stillOpen closes =>
      exact .unclosed cut opens closes
  | case4 body before found after cut head depth block opens inner next closes ends ih =>
      exact .openEnded cut opens closes ends ih
  | case5 body before found after cut head depth block opens inner next closes more ends ih =>
      obtain ⟨tail, rfl⟩ := afterEnd?_suffix ends
      rw [taken_append]
      exact .statement cut opens closes ends ih

theorem scan_segments {token : Text} (inked : Inked token) (body : Text) :
    Scan token body (segments token body) :=
  scan_of_ne_nil inked.ne_nil body

/-- What is read after an anchor goes by the block that opens there. -/
theorem segments_of_block {token t before found after head block : Text} {depth : Nat}
    (cut : cutAnchor? token t = some (before, found, after))
    (opens : seek 0 after = .block head depth block) :
    segments token t =
      match Brace.closeBlock 0 block with
      | .error stillOpen => [.unclosed before (found ++ head) stillOpen block]
      | .ok (inner, next) =>
          match afterEnd? depth next with
          | none =>
              .openEnded before (found ++ head ++ '{' :: inner ++ ['}']) :: segments token next
          | some more =>
              .statement before ⟨found, head, inner, Text.taken next more⟩ ::
                segments token more := by
  rw [segments]
  split
  · rename_i e
    rw [cut] at e
    cases e
  · rename_i e
    rw [cut] at e
    cases e
    split
    · rename_i o
      rw [opens] at o
      cases o
    · rename_i o
      rw [opens] at o
      cases o
      split
      · rename_i c
        rw [c]
      · rename_i c
        rw [c]
        split
        · rename_i e
          simp only [e]
        · rename_i e
          simp only [e]

theorem segments_of_rest {token t : Text} (cut : cutAnchor? token t = none) :
    segments token t = [.rest t] := by
  rw [segments]
  split
  · rfl
  · rename_i e
    rw [cut] at e
    cases e

/-- Reading goes on where the statement of an anchor ends without a block. -/
theorem segments_of_none {token t before found after head more : Text} (some_ : token ≠ [])
    (cut : cutAnchor? token t = some (before, found, after)) (opens : seek 0 after = .none head more) :
    segments token t = .noLambda before (found ++ head) :: segments token more := by
  rw [segments]
  split
  · rename_i e
    rw [cut] at e
    cases e
  · rename_i e
    rw [cut] at e
    cases e
    split
    · rename_i o
      rw [opens] at o
      cases o
      rw [dif_pos (shorter_of_none some_ cut opens)]
    · rename_i o
      rw [opens] at o
      cases o

theorem Scan.segments_eq {token body : Text} {segs : List Segment} (inked : Inked token)
    (h : Scan token body segs) : segments token body = segs := by
  induction h with
  | rest cut => exact segments_of_rest cut
  | noLambda cut opens scan ih => rw [segments_of_none inked.ne_nil cut opens, ih]
  | unclosed cut opens closes => rw [segments_of_block cut opens, closes]
  | openEnded cut opens closes ends scan ih =>
      rw [segments_of_block cut opens, closes]
      simp only [ends, ih]
  | statement cut opens closes ends scan ih =>
      rw [segments_of_block cut opens, closes]
      simp only [ends, ih, taken_append]

end Regraft.Entity
