import Regraft.Failure
import Regraft.Notice
import Regraft.Text.Fold
import Regraft.Text.Blank

/-!
# Regraft.Entity.Segment -- a body cut along its entity statements

An entity statement is an anchor token in any case, text up to the first opening brace in which
no statement and no enclosing call ends, the block of that brace, and the parentheses and the
semicolon that end the statement.  `segments` cuts a body along the anchors from left to right:
statements of that shape are kept apart from everything else, and reading goes on after each.
The segments are the body again (`segments_text`), so offsets are sums of lengths.
-/

namespace Regraft.Entity

set_option autoImplicit false

/-- The anchor token of the statements on a builder parameter. -/
def anchor (param : Text) : Text :=
  param ++ ".Entity<".toList

/-- Split at the first anchor, whatever its case: before it, the anchor as written, after it. -/
def cutAnchor? (token : Text) : Text → Option (Text × Text × Text)
  | [] => (Text.afterFolded? token []).map fun rest => ([], [], rest)
  | c :: t =>
      match Text.afterFolded? token (c :: t) with
      | some rest => some ([], Text.taken (c :: t) rest, rest)
      | none => (cutAnchor? token t).map fun (before, found, rest) => (c :: before, found, rest)

/-- The first anchor is the token up to case, and stands where it was cut out. -/
theorem cutAnchor?_parts {token t before found rest : Text}
    (h : cutAnchor? token t = some (before, found, rest)) :
    t = before ++ found ++ rest ∧ Text.Alike token found := by
  induction t generalizing before with
  | nil =>
      simp only [cutAnchor?, Option.map_eq_some_iff, Prod.mk.injEq] at h
      obtain ⟨r, e, rfl, rfl, rfl⟩ := h
      obtain ⟨f, alike, e⟩ := Text.afterFolded?_eq_some.1 e
      obtain ⟨rfl, rfl⟩ := List.append_eq_nil_iff.1 e.symm
      exact ⟨rfl, alike⟩
  | cons c t ih =>
      simp only [cutAnchor?] at h
      split at h
      · rename_i r e
        simp only [Option.some.injEq, Prod.mk.injEq] at h
        obtain ⟨rfl, rfl, rfl⟩ := h
        obtain ⟨f, alike, e⟩ := Text.afterFolded?_eq_some.1 e
        rw [e, Text.taken_append, List.nil_append]
        exact ⟨rfl, alike⟩
      · simp only [Option.map_eq_some_iff, Prod.mk.injEq, Prod.exists] at h
        obtain ⟨b, f, r, e, rfl, rfl, rfl⟩ := h
        obtain ⟨parts, alike⟩ := ih e
        exact ⟨by rw [parts]; rfl, alike⟩

theorem cutAnchor?_append {token t before found rest : Text}
    (h : cutAnchor? token t = some (before, found, rest)) : t = before ++ found ++ rest :=
  (cutAnchor?_parts h).1

theorem cutAnchor?_alike {token t before found rest : Text}
    (h : cutAnchor? token t = some (before, found, rest)) : Text.Alike token found :=
  (cutAnchor?_parts h).2

/-- What follows an anchor: a block in some depth of parentheses, or the end of the statement
before any block. -/
inductive Opening where
  | block (head : Text) (depth : Nat) (after : Text)
  | none (head rest : Text)

/-- Put a character in front of what was passed over. -/
def Opening.push (c : Char) : Opening → Opening
  | .block head depth after => .block (c :: head) depth after
  | .none head rest => .none (c :: head) rest

def Opening.text : Opening → Text
  | .block head _ after => head ++ '{' :: after
  | .none head rest => head ++ rest

/-- Look for the block after an anchor.  A semicolon outside parentheses, a parenthesis that
closes an enclosing call or the end of the text comes first where there is none. -/
def seek (depth : Nat) : Text → Opening
  | [] => .none [] []
  | c :: t =>
      if c = '(' then (seek (depth + 1) t).push c
      else if c = ')' then
        match depth with
        | 0 => .none [c] t
        | outer + 1 => (seek outer t).push c
      else if c = ';' ∧ depth = 0 then .none [c] t
      else if c = '{' then .block [] depth t
      else (seek depth t).push c

theorem push_text (c : Char) (o : Opening) : (o.push c).text = c :: o.text := by
  cases o <;> rfl

theorem seek_text (depth : Nat) (t : Text) : (seek depth t).text = t := by
  induction t generalizing depth with
  | nil => rfl
  | cons c t ih =>
      simp only [seek]
      split
      · simp [push_text, ih]
      · split
        · split
          · rfl
          · simp [push_text, ih]
        · split
          · rfl
          · split
            · rename_i e
              simp [Opening.text, e]
            · simp [push_text, ih]

/-- What follows the end of a statement: white space, the given number of closing parentheses
and a semicolon, white space before each. -/
def afterEnd? : Nat → Text → Option Text
  | 0, t =>
      match Text.trimStart t with
      | ';' :: rest => some rest
      | _ => none
  | parens + 1, t =>
      match Text.trimStart t with
      | ')' :: rest => afterEnd? parens rest
      | _ => none

theorem suffix_of_trimStart {t rest : Text} {c : Char} (h : Text.trimStart t = c :: rest) :
    rest <:+ t :=
  (h ▸ List.suffix_cons c rest).trans (List.dropWhile_suffix _)

theorem afterEnd?_suffix {parens : Nat} {t rest : Text} (h : afterEnd? parens t = some rest) :
    rest <:+ t := by
  induction parens generalizing t with
  | zero =>
      simp only [afterEnd?] at h
      split at h
      · rename_i r e
        simp only [Option.some.injEq] at h
        subst h
        exact suffix_of_trimStart e
      · simp at h
  | succ parens ih =>
      simp only [afterEnd?] at h
      split at h
      · rename_i r e
        exact (ih h).trans (suffix_of_trimStart e)
      · simp at h

/-- An entity statement in its four parts: the anchor as written, the text up to the block, the
content of the block, and the end of the statement after the closing brace. -/
structure Statement where
  anchor : Text
  head : Text
  inner : Text
  tail : Text

def Statement.text (s : Statement) : Text :=
  s.anchor ++ s.head ++ '{' :: s.inner ++ '}' :: s.tail

/-- A part of a body, each but the last with the text before its anchor. -/
inductive Segment where
  /-- An entity statement. -/
  | statement (before : Text) (s : Statement)
  /-- An anchor whose statement ends before any block, up to that end. -/
  | noLambda (before taken : Text)
  /-- An anchor whose statement goes on after its block, up to the end of the block. -/
  | openEnded (before taken : Text)
  /-- An anchor whose block is never closed: up to the brace, how many blocks are open at the
  end, and all that follows the brace. -/
  | unclosed (before head : Text) (depth : Nat) (after : Text)
  /-- What follows the last anchor. -/
  | rest (t : Text)

namespace Segment

def text : Segment → Text
  | statement before s => before ++ s.text
  | noLambda before taken => before ++ taken
  | openEnded before taken => before ++ taken
  | unclosed before head _ after => before ++ head ++ '{' :: after
  | rest t => t

end Segment

/-- Cut a body along the anchors from left to right. -/
def segments (token : Text) (body : Text) : List Segment :=
  match _cut : cutAnchor? token body with
  | none => [.rest body]
  | some (before, found, after) =>
      match _opens : seek 0 after with
      | .none head more =>
          .noLambda before (found ++ head) ::
            (if _shorter : more.length < body.length then segments token more else [.rest more])
      | .block head depth block =>
          match _closes : Brace.closeBlock 0 block with
          | .error stillOpen => [.unclosed before (found ++ head) stillOpen block]
          | .ok (inner, next) =>
              match _ends : afterEnd? depth next with
              | none =>
                  .openEnded before (found ++ head ++ '{' :: inner ++ ['}']) :: segments token next
              | some more =>
                  .statement before ⟨found, head, inner, Text.taken next more⟩ ::
                    segments token more
termination_by body.length
decreasing_by
  · exact _shorter
  · have e₁ := congrArg List.length (cutAnchor?_append _cut)
    have e₂ := congrArg List.length (seek_text 0 after)
    have e₃ := congrArg List.length (Brace.closeBlock_append _closes)
    simp only [_opens, Opening.text, List.length_append, List.length_cons] at e₁ e₂ e₃
    omega
  · have e₁ := congrArg List.length (cutAnchor?_append _cut)
    have e₂ := congrArg List.length (seek_text 0 after)
    have e₃ := congrArg List.length (Brace.closeBlock_append _closes)
    have e₄ := (afterEnd?_suffix _ends).length_le
    simp only [_opens, Opening.text, List.length_append, List.length_cons] at e₁ e₂ e₃
    omega

def textOf (segs : List Segment) : Text :=
  segs.flatMap Segment.text

@[simp] theorem textOf_nil : textOf [] = [] := rfl

@[simp] theorem textOf_cons (seg : Segment) (more : List Segment) :
    textOf (seg :: more) = seg.text ++ textOf more := rfl

@[simp] theorem textOf_append (segs more : List Segment) :
    textOf (segs ++ more) = textOf segs ++ textOf more :=
  List.flatMap_append

theorem segments_text (token body : Text) : textOf (segments token body) = body := by
  fun_induction segments token body with
  | case1 => simp [textOf, Segment.text]
  | case2 body before found after cut head more opens ih =>
      have e₁ := cutAnchor?_append cut
      have e₂ := seek_text 0 after
      simp only [opens, Opening.text] at e₂
      simp only [textOf, List.flatMap_cons, Segment.text]
      split
      · rename_i shorter
        have e₃ := ih shorter
        simp only [textOf] at e₃
        rw [e₃, e₁, ← e₂]
        simp
      · simp only [List.flatMap_cons, Segment.text, List.flatMap_nil]
        rw [e₁, ← e₂]
        simp
  | case3 body before found after cut head depth block opens stillOpen closes =>
      have e₁ := cutAnchor?_append cut
      have e₂ := seek_text 0 after
      simp only [opens, Opening.text] at e₂
      simp only [textOf, List.flatMap_cons, Segment.text, List.flatMap_nil]
      rw [e₁, ← e₂]
      simp
  | case4 body before found after cut head depth block opens inner next closes ends ih =>
      have e₁ := cutAnchor?_append cut
      have e₂ := seek_text 0 after
      have e₃ := Brace.closeBlock_append closes
      simp only [opens, Opening.text] at e₂
      simp only [textOf, List.flatMap_cons, Segment.text] at ih ⊢
      rw [ih, e₁, ← e₂, e₃]
      simp
  | case5 body before found after cut head depth block opens inner next closes more ends ih =>
      have e₁ := cutAnchor?_append cut
      have e₂ := seek_text 0 after
      have e₃ := Brace.closeBlock_append closes
      obtain ⟨tail, e₄⟩ := afterEnd?_suffix ends
      simp only [opens, Opening.text] at e₂
      simp only [textOf, List.flatMap_cons, Segment.text, Statement.text] at ih ⊢
      rw [ih, e₁, ← e₂, e₃, ← e₄, Text.taken_append]
      simp

end Regraft.Entity
