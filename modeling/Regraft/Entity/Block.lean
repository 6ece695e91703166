import Regraft.Entity.Segment

/-!
# Regraft.Entity.Block -- where the entity statements of a body stand

The offsets of the statements among the segments of a body, and what is worth a notice on the
way.  A block that is never closed makes the whole answer a failure.
-/

namespace Regraft.Entity

set_option autoImplicit false

/-- The offsets of one entity statement: its anchor, the braces of its block, and the offset
just past its semicolon. -/
structure Block where
  anchorStart : Nat
  anchorStop : Nat
  openBrace : Nat
  closeBrace : Nat
  stop : Nat
  deriving DecidableEq

def Statement.block (s : Statement) (start : Nat) : Block :=
  let anchorStop := start + s.anchor.length
  let openBrace := anchorStop + s.head.length
  let closeBrace := openBrace + 1 + s.inner.length
  ⟨start, anchorStop, openBrace, closeBrace, closeBrace + 1 + s.tail.length⟩

/-- The blocks among segments, the first segment standing at an offset. -/
def blocksFrom (offset : Nat) : List Segment → List Block
  | [] => []
  | seg :: more =>
      match seg with
      | .statement before s =>
          s.block (offset + before.length) :: blocksFrom (offset + seg.text.length) more
      | _ => blocksFrom (offset + seg.text.length) more

/-- The failure among segments, if a block is never closed. -/
def failureFrom? (offset : Nat) : List Segment → Option Failure
  | [] => none
  | .unclosed before head depth _ :: _ =>
      some (.unclosedBrace (offset + before.length + head.length) depth)
  | seg :: more => failureFrom? (offset + seg.text.length) more

/-- What the segments of a body give notice of: anchors that open no statement. -/
def noticesFrom (offset : Nat) : List Segment → List Notice
  | [] => []
  | seg :: more =>
      let here : List Notice :=
        match seg with
        | .noLambda before _ => [.noLambda (offset + before.length)]
        | .openEnded before _ => [.openEnded (offset + before.length)]
        | _ => []
      here ++ noticesFrom (offset + seg.text.length) more

def blocks (token body : Text) : Except Failure (List Block) :=
  let segs := segments token body
  match failureFrom? 0 segs with
  | some failure => .error failure
  | none => .ok (blocksFrom 0 segs)

end Regraft.Entity
