import Regraft.Entity.Block
import Regraft.Reader

/-!
# Regraft.Entity.Strip -- a body without its entity statements

A statement that stands alone on its lines goes with the indentation before it and the line end
after it; one that shares a line goes by itself.  Once something was taken out, three line ends
or more in a row are collapsed to two.  All other segments are copied through, so a body without
entity statements is returned as it is (`strip_of_no_statement`).
-/

namespace Regraft.Entity

set_option autoImplicit false

/-- How much a text has up to its first line end, where it has only spaces and tabs there. -/
def lineTail? (t : Text) : Option Nat :=
  let blank := (Text.indentation t).length
  match t.drop blank with
  | [] => some blank
  | '\n' :: _ => some (blank + 1)
  | '\r' :: '\n' :: _ => some (blank + 2)
  | _ => none

/-- The text of segments without the statements among them; the first `skip` characters went
with an earlier statement. -/
def removeFrom (skip : Nat) : List Segment → Text
  | [] => []
  | .statement before _ :: more =>
      let kept := before.drop skip
      let (whole, last) := Text.splitLastLine kept
      if Text.isBlankText last then
        match lineTail? (textOf more) with
        | some tail => whole ++ removeFrom tail more
        | none => kept ++ removeFrom 0 more
      else kept ++ removeFrom 0 more
  | seg :: more => seg.text.drop skip ++ removeFrom 0 more

/-- Three line ends or more in a row; the value is the first of them. -/
def lineEnds : Reader Text := do
  let first ← Reader.lineEnd
  let _ ← Reader.lineEnd
  let _ ← Reader.lineEnd
  let _ ← Reader.star Reader.lineEnd
  return first

/-- A text whose runs of three line ends or more are two line ends, in the style of the first. -/
def collapse (t : Text) : Text :=
  Reader.replace (fun _ => lineEnds) (fun _ first => first ++ first) t

def statementCount (segs : List Segment) : Nat :=
  segs.countP fun
    | .statement .. => true
    | _ => false

def strip (token body : Text) : Except Failure Text :=
  let segs := segments token body
  match failureFrom? 0 segs with
  | some failure => .error failure
  | none =>
      let kept := removeFrom 0 segs
      .ok (if statementCount segs = 0 then kept else collapse kept)

/-- What stripping a body gives notice of. -/
def stripNotices (token body : Text) : List Notice :=
  let segs := segments token body
  let count := statementCount segs
  noticesFrom 0 segs ++
    if (failureFrom? 0 segs).isSome || count = 0 then [] else [.strippedEntities count]

theorem removeFrom_of_no_statement {segs : List Segment} (h : statementCount segs = 0) :
    removeFrom 0 segs = textOf segs := by
  induction segs with
  | nil => rfl
  | cons seg more ih =>
      simp only [statementCount, List.countP_cons] at h ih
      cases seg with
      | statement => simp at h
      | _ => simp_all [removeFrom, textOf]

theorem strip_of_no_statement {token body kept : Text}
    (h : statementCount (segments token body) = 0) (done : strip token body = .ok kept) :
    kept = body := by
  simp only [strip, h, if_true] at done
  split at done
  · simp at done
  · simp only [Except.ok.injEq] at done
    rw [← done, removeFrom_of_no_statement h, segments_text]

end Regraft.Entity
