import Regraft.Proofs.Entity.Shape
import Regraft.Proofs.Entity.Splice

/-!
# Regraft.Proofs.Entity.Turn -- the scan for entity statements by its cursor

The scan reads a body along a cursor.  `Turn` says, by offsets of the body and with no scan in it,
where the cursor goes behind the first anchor and which block is found there; `Unclosed` is the one
way to fail.  A turn moves the cursor on (`Turn.advances`) and each cursor has one until there is
nothing to read (`exists_turn`), so every scan ends (`exists_run`).  What is found is what the turns
find (`Run.outcomeFrom_eq`, `blocks_run`).
-/

namespace Regraft.Entity

set_option autoImplicit false

open Text

variable {token body : Text}

/-! ## Heads -/

/-- What may stand between an anchor and its block, `before` parentheses being open before it and
`depth` behind it: no block opens, no parenthesis closes but an open one, and semicolons stand
inside parentheses only. -/
structure IsHead (before depth : Nat) (head : Text) : Prop where
  no_brace : '{' ∉ head
  nested : ∀ part, part <+: head → part.count ')' ≤ before + part.count '('
  inside : ∀ part, part ++ [';'] <+: head → part.count ')' < before + part.count '('
  depth : before + head.count '(' = depth + head.count ')'

theorem isHead_nil {before depth : Nat} : IsHead before depth [] ↔ before = depth := by
  constructor
  · intro h
    simpa using h.depth
  · rintro rfl
    exact ⟨by simp, by simp, by simp, rfl⟩

/-- The number of open parentheses behind one character of a head. -/
def stepDepth (before : Nat) (c : Char) : Nat :=
  if c = '(' then before + 1 else if c = ')' then before - 1 else before

theorem stepDepth_count {before : Nat} {c : Char} (closes : c = ')' → 0 < before) (part : Text) :
    before + (c :: part).count '(' + part.count ')' =
      stepDepth before c + part.count '(' + (c :: part).count ')' := by
  by_cases opens : c = '('
  · rw [stepDepth, if_pos opens, opens, List.count_cons_self, List.count_cons_of_ne (by decide)]
    omega
  · by_cases shuts : c = ')'
    · have := closes shuts
      rw [stepDepth, if_neg opens, if_pos shuts, shuts, List.count_cons_self,
        List.count_cons_of_ne (by decide)]
      omega
    · rw [stepDepth, if_neg opens, if_neg shuts, List.count_cons_of_ne opens,
        List.count_cons_of_ne shuts]

theorem isHead_cons {before depth : Nat} {c : Char} {head : Text} :
    IsHead before depth (c :: head) ↔
      c ≠ '{' ∧ (c = ';' → 0 < before) ∧ (c = ')' → 0 < before) ∧
        IsHead (stepDepth before c) depth head := by
  constructor
  · intro h
    have closes : c = ')' → 0 < before := by
      rintro rfl
      have := h.nested [')'] ⟨head, rfl⟩
      simpa [Nat.lt_iff_add_one_le] using this
    refine ⟨fun e => h.no_brace (by simp [e]), ?_, closes, ?_, ?_, ?_, ?_⟩
    · rintro rfl
      simpa using h.inside [] ⟨head, rfl⟩
    · exact fun m => h.no_brace (List.mem_cons_of_mem _ m)
    · intro part front
      have := h.nested (c :: part) (List.cons_prefix_cons.2 ⟨rfl, front⟩)
      have := stepDepth_count closes part
      omega
    · intro part front
      have := h.inside (c :: part) (List.cons_prefix_cons.2 ⟨rfl, front⟩)
      have := stepDepth_count closes part
      omega
    · have := h.depth
      have := stepDepth_count closes head
      omega
  · rintro ⟨noBrace, ends, closes, h⟩
    refine ⟨?_, ?_, ?_, ?_⟩
    · simp [h.no_brace, Ne.symm noBrace]
    · intro part front
      rcases List.prefix_cons_iff.1 front with rfl | ⟨part, rfl, later⟩
      · simp
      · have := h.nested part later
        have := stepDepth_count closes part
        omega
    · intro part front
      cases part with
      | nil =>
          obtain ⟨e, -⟩ := List.cons_prefix_cons.1 front
          simpa using ends e.symm
      | cons d part =>
          obtain ⟨rfl, later⟩ := List.cons_prefix_cons.1 front
          have := h.inside part later
          have := stepDepth_count closes part
          omega
    · have := h.depth
      have := stepDepth_count closes head
      omega

theorem headStep?_eq_some {before depth : Nat} {c : Char} :
    headStep? before c = some depth ↔
      c ≠ '{' ∧ (c = ';' → 0 < before) ∧ (c = ')' → 0 < before) ∧ stepDepth before c = depth := by
  by_cases opens : c = '('
  · simp [headStep?, stepDepth, opens]
  · by_cases closes : c = ')'
    · cases before <;> simp [headStep?, stepDepth, closes]
    · by_cases ends : c = ';'
      · cases before <;> simp [headStep?, stepDepth, ends]
      · by_cases brace : c = '{' <;> simp [headStep?, stepDepth, opens, closes, ends, brace]

/-- Following the depth over a text tells whether it is a head. -/
theorem headDepth_eq_some {before depth : Nat} {head : Text} :
    headDepth before head = some depth ↔ IsHead before depth head := by
  induction head generalizing before with
  | nil => rw [isHead_nil, headDepth, Option.some.injEq]
  | cons c head ih =>
      rw [isHead_cons, headDepth_cons, Option.bind_eq_some_iff]
      constructor
      · rintro ⟨next, step, later⟩
        obtain ⟨brace, ends, closes, rfl⟩ := headStep?_eq_some.1 step
        exact ⟨brace, ends, closes, ih.1 later⟩
      · rintro ⟨brace, ends, closes, later⟩
        exact ⟨_, headStep?_eq_some.2 ⟨brace, ends, closes, rfl⟩, ih.2 later⟩

/-- A text is read as a head up to its end, to a brace, or to what ends the statement. -/
theorem exists_head (before : Nat) (t : Text) :
    ∃ head depth, IsHead before depth head ∧
      (t = head ∨ ∃ c rest, t = head ++ c :: rest ∧ (c = '{' ∨ depth = 0 ∧ (c = ';' ∨ c = ')'))) := by
  obtain ⟨head, depth, isHead, parts⟩ := exists_headDepth before t
  refine ⟨head, depth, headDepth_eq_some.1 isHead, parts.imp_right ?_⟩
  rintro ⟨c, rest, e, stop⟩
  exact ⟨c, rest, e, headStep?_eq_none.1 stop⟩

/-! ## Anchors -/

def StandsAt (token body : Text) (i : Nat) : Prop :=
  ∃ found rest, body.drop i = found ++ rest ∧ Alike token found

def NoAnchor (token body : Text) (cursor : Nat) : Prop :=
  ∀ i, cursor ≤ i → ¬ StandsAt token body i

/-- Whether the first anchor at or behind a cursor stands at an offset. -/
structure NextAnchor (token body : Text) (cursor start : Nat) : Prop where
  behind : cursor ≤ start
  stands : StandsAt token body start
  first : ∀ i, cursor ≤ i → StandsAt token body i → start ≤ i

theorem drop_of_append {s t : Text} {i : Nat} (e : body.drop i = s ++ t) :
    body.drop (i + s.length) = t := by
  rw [← List.drop_drop, e, List.drop_left]

/-- The text behind a cursor up to a place behind it, and on from there. -/
theorem drop_eq_take_append {cursor i : Nat} (behind : cursor ≤ i) :
    body.drop cursor = (body.drop cursor).take (i - cursor) ++ body.drop i := by
  conv => lhs; rw [← List.take_append_drop (i - cursor) (body.drop cursor)]
  rw [List.drop_drop, Nat.add_sub_cancel' behind]

theorem StandsAt.lt (some_ : token ≠ []) {i : Nat} (h : StandsAt token body i) :
    i + token.length ≤ body.length ∧ i < i + token.length := by
  obtain ⟨found, rest, e, alike⟩ := h
  have e' := congrArg List.length e
  have long := List.length_pos_iff.2 some_
  have := alike.length_eq
  simp only [List.length_drop, List.length_append] at e'
  omega

theorem noAnchor_iff {cursor : Nat} :
    NoAnchor token body cursor ↔ cutAnchor? token (body.drop cursor) = none := by
  rw [cutAnchor?_eq_none]
  constructor
  · intro none_ front found back alike e
    refine none_ (cursor + front.length) (Nat.le_add_right ..) ⟨found, back, ?_, alike⟩
    exact drop_of_append (by rw [e, List.append_assoc])
  · rintro absent i behind ⟨found, rest, e, alike⟩
    refine absent ((body.drop cursor).take (i - cursor)) found rest alike ?_
    rw [List.append_assoc, ← e]
    exact drop_eq_take_append behind

/-- The first anchor is where the text behind the cursor is cut. -/
theorem NextAnchor.cut (some_ : token ≠ []) {cursor start : Nat}
    (h : NextAnchor token body cursor start) :
    ∃ before found, cutAnchor? token (body.drop cursor) =
        some (before, found, body.drop (start + token.length)) ∧
      start = cursor + before.length ∧ found.length = token.length := by
  obtain ⟨found, rest, e, alike⟩ := h.stands
  have bound := (h.stands.lt some_).1
  have length : ((body.drop cursor).take (start - cursor)).length = start - cursor := by
    rw [List.length_take, List.length_drop]
    omega
  have behind : rest = body.drop (start + token.length) := by
    rw [alike.length_eq, drop_of_append e]
  refine ⟨(body.drop cursor).take (start - cursor), found, cutAnchor?_eq_some.2 ⟨?_, alike, ?_⟩, ?_,
    alike.length_eq.symm⟩
  · rw [← behind, List.append_assoc, ← e]
    exact drop_eq_take_append h.behind
  · intro front found' back alike' e'
    have := h.first (cursor + front.length) (Nat.le_add_right ..)
      ⟨found', back, drop_of_append (by rw [e', List.append_assoc]), alike'⟩
    omega
  · rw [length, Nat.add_sub_cancel' h.behind]

theorem exists_nextAnchor {cursor : Nat} (h : ¬ NoAnchor token body cursor) :
    ∃ start, NextAnchor token body cursor start := by
  rw [noAnchor_iff] at h
  obtain ⟨⟨before, found, rest⟩, cut⟩ := Option.ne_none_iff_exists'.1 h
  obtain ⟨e, alike, first⟩ := cutAnchor?_eq_some.1 cut
  refine ⟨cursor + before.length, Nat.le_add_right .., ⟨found, rest, ?_, alike⟩, ?_⟩
  · exact drop_of_append (by rw [e, List.append_assoc])
  · rintro i behind ⟨found', rest', e', alike'⟩
    have := first ((body.drop cursor).take (i - cursor)) found' rest' alike'
      (by rw [List.append_assoc, ← e']; exact drop_eq_take_append behind)
    rw [List.length_take] at this
    omega

/-! ## Turns -/

/-- One turn of the scan: from a cursor over the first anchor behind it to the next cursor, and the
block found there. -/
inductive Turn (token body : Text) (cursor : Nat) : Option Block → Nat → Prop where
  /-- A statement: the cursor moves past its semicolon. -/
  | block {b : Block} {depth : Nat} {head inner tail more : Text} :
      NextAnchor token body cursor b.anchorStart →
      b.anchorStop = b.anchorStart + token.length →
      body.drop b.anchorStop = head ++ '{' :: (inner ++ '}' :: (tail ++ more)) →
      IsHead 0 depth head → Brace.isBalanced inner = true → IsEnd depth tail →
      b.openBrace = b.anchorStop + head.length →
      b.closeBrace = b.openBrace + 1 + inner.length →
      b.stop = b.closeBrace + 1 + tail.length →
      Turn token body cursor (some b) b.stop
  /-- A block that does not end its statement: the cursor moves past the closing brace. -/
  | openEnded {start depth : Nat} {head inner next : Text} :
      NextAnchor token body cursor start →
      body.drop (start + token.length) = head ++ '{' :: (inner ++ '}' :: next) →
      IsHead 0 depth head → Brace.isBalanced inner = true →
      (∀ tail more, next = tail ++ more → ¬ IsEnd depth tail) →
      Turn token body cursor none (start + token.length + head.length + 1 + inner.length + 1)
  /-- A statement or an enclosing call that ends before any block: the cursor moves past its end. -/
  | ended {start : Nat} {head more : Text} {c : Char} :
      NextAnchor token body cursor start →
      body.drop (start + token.length) = head ++ c :: more →
      IsHead 0 0 head → c = ';' ∨ c = ')' →
      Turn token body cursor none (start + token.length + head.length + 1)
  /-- The end of the text. -/
  | unended {start depth : Nat} :
      NextAnchor token body cursor start →
      IsHead 0 depth (body.drop (start + token.length)) →
      Turn token body cursor none body.length

/-- Whether the block of the first anchor behind a cursor, which opens at an offset, is never closed;
`depth` blocks are open at the end of the text. -/
def Unclosed (token body : Text) (cursor brace depth : Nat) : Prop :=
  ∃ (start inside : Nat) (head after : Text), NextAnchor token body cursor start ∧
    body.drop (start + token.length) = head ++ '{' :: after ∧ IsHead 0 inside head ∧
    (∀ inner next, after = inner ++ '}' :: next → Brace.isBalanced inner = false) ∧
    brace = start + token.length + head.length ∧ depth + after.count '}' = after.count '{' + 1

/-- Turns one after the other, with the blocks that they find. -/
inductive Run (token body : Text) : Nat → List Block → Nat → Prop where
  | here {cursor : Nat} : Run token body cursor [] cursor
  | turn {cursor next stop : Nat} {found : Option Block} {bs : List Block} :
      Turn token body cursor found next → Run token body next bs stop →
      Run token body cursor (found.toList ++ bs) stop

/-- Whether the offsets of a block stand in order, from `cursor` up to `stop`. -/
structure Block.Ordered (b : Block) (cursor stop : Nat) : Prop where
  start : cursor ≤ b.anchorStart
  anchor : b.anchorStart < b.anchorStop
  head : b.anchorStop ≤ b.openBrace
  inner : b.openBrace < b.closeBrace
  tail : b.closeBrace < b.stop
  stop : b.stop ≤ stop

theorem length_of_drop {s t : Text} {i : Nat} (bound : i ≤ body.length)
    (e : body.drop i = s ++ t) : i + s.length + t.length = body.length := by
  have := congrArg List.length e
  simp only [List.length_drop, List.length_append] at this
  omega

/-- A turn moves the cursor on, past the block that it finds. -/
theorem Turn.advances (some_ : token ≠ []) {cursor next : Nat} {found : Option Block}
    (h : Turn token body cursor found next) :
    cursor < next ∧ next ≤ body.length ∧ ∀ b, found = some b → b.Ordered cursor next := by
  cases h with
  | @block b depth head inner tail more anchor stop text isHead closed ends atOpen atClose atStop =>
      obtain ⟨bound, long⟩ := anchor.stands.lt some_
      have behind := anchor.behind
      have size := length_of_drop (by rw [stop]; exact bound) text
      simp only [List.length_append, List.length_cons] at size
      refine ⟨by omega, by omega, ?_⟩
      intro b' e
      obtain rfl := Option.some.inj e
      exact ⟨by omega, by omega, by omega, by omega, by omega, Nat.le_refl _⟩
  | openEnded anchor text isHead closed ends =>
      obtain ⟨bound, long⟩ := anchor.stands.lt some_
      have behind := anchor.behind
      have size := length_of_drop bound text
      simp only [List.length_append, List.length_cons] at size
      exact ⟨by omega, by omega, by simp⟩
  | ended anchor text isHead ends =>
      obtain ⟨bound, long⟩ := anchor.stands.lt some_
      have behind := anchor.behind
      have size := length_of_drop bound text
      simp only [List.length_cons] at size
      exact ⟨by omega, by omega, by simp⟩
  | unended anchor isHead =>
      obtain ⟨bound, long⟩ := anchor.stands.lt some_
      have behind := anchor.behind
      exact ⟨by omega, Nat.le_refl _, by simp⟩

/-- At each cursor there is nothing to read, or a block that is never closed, or a turn. -/
theorem exists_turn (token body : Text) (cursor : Nat) :
    NoAnchor token body cursor ∨ (∃ brace depth, Unclosed token body cursor brace depth) ∨
      ∃ found next, Turn token body cursor found next := by
  by_cases none_ : NoAnchor token body cursor
  · exact Or.inl none_
  · obtain ⟨start, anchor⟩ := exists_nextAnchor none_
    obtain ⟨head, depth, isHead, text⟩ := exists_head 0 (body.drop (start + token.length))
    rcases text with text | ⟨c, after, text, brace | ⟨rfl, ends⟩⟩
    · exact Or.inr (Or.inr ⟨_, _, .unended anchor (text ▸ isHead)⟩)
    · subst brace
      cases closes : Brace.closeBlock 0 after with
      | error open_ =>
          obtain ⟨never, count⟩ := Brace.closeBlock_eq_error.1 closes
          exact Or.inr (Or.inl ⟨_, _, start, depth, head, after, anchor, text, isHead, never, rfl,
            count⟩)
      | ok p =>
          obtain ⟨inner, next⟩ := p
          obtain ⟨rfl, inside⟩ := Brace.closeBlock_eq_ok.1 closes
          have closed := Brace.isBalanced_iff.2 inside
          cases ends : afterEnd? depth next with
          | none =>
              refine Or.inr (Or.inr ⟨_, _, .openEnded anchor text isHead closed ?_⟩)
              rintro tail more rfl isEnd
              rw [afterEnd?_eq_some.2 ⟨tail, isEnd, rfl⟩] at ends
              cases ends
          | some more =>
              obtain ⟨tail, isEnd, rfl⟩ := afterEnd?_eq_some.1 ends
              exact Or.inr (Or.inr ⟨_, _,
                .block (b := (Statement.mk token head inner tail).block start) anchor rfl text
                  isHead closed isEnd rfl rfl rfl⟩)
    · exact Or.inr (Or.inr ⟨_, _, .ended anchor text isHead ends⟩)

/-- The scan comes to an end from each cursor. -/
theorem exists_run (some_ : token ≠ []) (body : Text) (cursor : Nat) :
    ∃ bs stop, Run token body cursor bs stop ∧
      (NoAnchor token body stop ∨ ∃ brace depth, Unclosed token body stop brace depth) := by
  induction left : body.length - cursor using Nat.strongRecOn generalizing cursor with
  | ind n ih =>
      rcases exists_turn token body cursor with none_ | unclosed | ⟨found, next, turn⟩
      · exact ⟨[], cursor, .here, Or.inl none_⟩
      · exact ⟨[], cursor, .here, Or.inr unclosed⟩
      · obtain ⟨on, bound, -⟩ := turn.advances some_
        obtain ⟨bs, stop, run, ends⟩ := ih (body.length - next) (by omega) next rfl
        exact ⟨found.toList ++ bs, stop, .turn turn run, ends⟩

/-! ## What the turns find -/

/-- What the scan of a body finds from a cursor on. -/
def outcomeFrom (token body : Text) (cursor : Nat) : Except Failure (List Block) :=
  let segs := segments token (body.drop cursor)
  match failureFrom? cursor segs with
  | some failure => .error failure
  | none => .ok (blocksFrom cursor segs)

theorem outcomeFrom_zero (token body : Text) : outcomeFrom token body 0 = blocks token body := rfl

/-- The block that a segment has, where the segment stands at an offset. -/
def Segment.block? (offset : Nat) : Segment → Option Block
  | .statement before s => some (s.block (offset + before.length))
  | _ => none

/-- Behind its first segment a body is read as a body of its own. -/
theorem drop_of_segments {cursor : Nat} {seg : Segment} {more : Text}
    (read : segments token (body.drop cursor) = seg :: segments token more) :
    body.drop (cursor + seg.text.length) = more := by
  refine drop_of_append ?_
  rw [← segments_text token (body.drop cursor), read, textOf_cons, segments_text]

theorem outcomeFrom_cons {cursor : Nat} {seg : Segment} {more : Text}
    (read : segments token (body.drop cursor) = seg :: segments token more) (shut : IsShut seg) :
    outcomeFrom token body cursor =
      (outcomeFrom token body (cursor + seg.text.length)).map ((seg.block? cursor).toList ++ ·) := by
  simp only [outcomeFrom, read, drop_of_segments read]
  cases seg with
  | unclosed before head depth after => exact absurd rfl (shut before head depth after)
  | _ =>
      simp only [failureFrom?, blocksFrom, Segment.block?]
      cases failureFrom? _ _ <;> rfl

/-- A turn reads one segment. -/
theorem Turn.read (some_ : token ≠ []) {cursor next : Nat} {found : Option Block}
    (h : Turn token body cursor found next) :
    ∃ seg more, segments token (body.drop cursor) = seg :: segments token more ∧ IsShut seg ∧
      found = seg.block? cursor ∧ next = cursor + seg.text.length := by
  cases h with
  | @block b depth head inner tail more anchor stop text isHead closed ends atOpen atClose atStop =>
      obtain ⟨before, written, cut, start, length⟩ := anchor.cut some_
      rw [← stop, text] at cut
      let s : Statement := ⟨written, head, inner, tail⟩
      have whole : body.drop cursor = before ++ s.text ++ more := by
        rw [cutAnchor?_append cut]
        simp [s, Statement.text]
      have shaped : s.Shaped token :=
        ⟨cutAnchor?_alike cut, closed, depth, headDepth_eq_some.2 isHead, ends⟩
      have isBlock : b = s.block (cursor + before.length) := by
        obtain ⟨aStart, aStop, aOpen, aClose, aEnd⟩ := b
        simp only at start stop atOpen atClose atStop
        simp [Statement.block, s, length, start, stop, atOpen, atClose, atStop]
      refine ⟨.statement before s, more, ?_, by simp [IsShut], by rw [isBlock]; rfl, ?_⟩
      · rw [whole] at cut ⊢
        exact shaped.segments_eq cut
      · rw [isBlock, Statement.block_stop, Segment.text, List.length_append, Nat.add_assoc]
  | @openEnded start depth head inner next anchor text isHead closed goesOn =>
      obtain ⟨before, written, cut, rfl, length⟩ := anchor.cut some_
      rw [text] at cut
      have closes : Brace.closeBlock 0 (inner ++ '}' :: next) = .ok (inner, next) :=
        Brace.closeBlock_eq_ok.2 ⟨rfl, Brace.isBalanced_iff.1 closed⟩
      have ends : afterEnd? depth next = none := by
        cases e : afterEnd? depth next with
        | none => rfl
        | some more =>
            obtain ⟨tail, isEnd, parts⟩ := afterEnd?_eq_some.1 e
            exact absurd isEnd (goesOn tail more parts)
      have read := segments_of_block cut (seek_of_headDepth (headDepth_eq_some.2 isHead) _)
      rw [closes] at read
      simp only [ends] at read
      refine ⟨_, _, read, by simp [IsShut], rfl, ?_⟩
      simp only [Segment.text, List.length_append, List.length_cons, List.length_nil, length]
      omega
  | @ended start head more c anchor text isHead ends =>
      obtain ⟨before, written, cut, rfl, length⟩ := anchor.cut some_
      rw [text] at cut
      have opens : seek 0 (head ++ c :: more) = .none (head ++ [c]) more :=
        seek_of_ended (headDepth_eq_some.2 isHead) ends more
      refine ⟨_, _, segments_of_none some_ cut opens, by simp [IsShut], rfl, ?_⟩
      simp only [Segment.text, List.length_append, List.length_cons, List.length_nil, length]
      omega
  | @unended start depth anchor isHead =>
      have bound := (anchor.stands.lt some_).1
      obtain ⟨before, written, cut, rfl, length⟩ := anchor.cut some_
      generalize text : body.drop (cursor + before.length + token.length) = head at cut isHead
      have opens : seek 0 head = .none head [] := seek_head (headDepth_eq_some.2 isHead)
      refine ⟨_, _, segments_of_none some_ cut opens, by simp [IsShut], rfl, ?_⟩
      have size := congrArg List.length text
      simp only [Segment.text, List.length_append, List.length_drop, length] at size ⊢
      omega

/-- A cursor has one turn. -/
theorem Turn.unique (some_ : token ≠ []) {cursor next next' : Nat} {found found' : Option Block}
    (h : Turn token body cursor found next) (h' : Turn token body cursor found' next') :
    found = found' ∧ next = next' := by
  obtain ⟨seg, more, read, -, rfl, rfl⟩ := h.read some_
  obtain ⟨seg', more', read', -, rfl, rfl⟩ := h'.read some_
  obtain ⟨rfl, -⟩ := List.cons.inj (read.symm.trans read')
  exact ⟨rfl, rfl⟩

/-- What turns find comes before what is found behind them. -/
theorem Run.outcomeFrom_eq (some_ : token ≠ []) {cursor stop : Nat} {bs : List Block}
    (h : Run token body cursor bs stop) :
    outcomeFrom token body cursor = (outcomeFrom token body stop).map (bs ++ ·) := by
  induction h with
  | here => cases outcomeFrom token body _ <;> rfl
  | turn turn run ih =>
      obtain ⟨seg, more, read, shut, rfl, rfl⟩ := turn.read some_
      rw [outcomeFrom_cons read shut, ih]
      cases outcomeFrom token body _ with
      | error failure => rfl
      | ok bs' => simp [Except.map]

theorem outcomeFrom_of_noAnchor {cursor : Nat} (h : NoAnchor token body cursor) :
    outcomeFrom token body cursor = .ok [] := by
  simp only [outcomeFrom, segments_of_rest (noAnchor_iff.1 h), failureFrom?, blocksFrom]

theorem outcomeFrom_of_unclosed (some_ : token ≠ []) {cursor brace depth : Nat}
    (h : Unclosed token body cursor brace depth) :
    outcomeFrom token body cursor = .error (.unclosedBrace brace depth) := by
  obtain ⟨start, inside, head, after, anchor, text, isHead, never, rfl, count⟩ := h
  obtain ⟨before, written, cut, rfl, length⟩ := anchor.cut some_
  rw [text] at cut
  have read := segments_of_block cut (seek_of_headDepth (headDepth_eq_some.2 isHead) _)
  rw [Brace.closeBlock_eq_error.2 ⟨never, count⟩] at read
  simp only [outcomeFrom, read, failureFrom?, List.length_append, length, Nat.add_assoc]

theorem Block.Ordered.mono {b : Block} {cursor cursor' stop stop' : Nat}
    (h : b.Ordered cursor stop) (low : cursor' ≤ cursor) (high : stop ≤ stop') :
    b.Ordered cursor' stop' :=
  ⟨low.trans h.start, h.anchor, h.head, h.inner, h.tail, h.stop.trans high⟩

/-- The blocks that turns find come one behind the other. -/
theorem Run.ordered (some_ : token ≠ []) {cursor stop : Nat} {bs : List Block}
    (h : Run token body cursor bs stop) (bound : cursor ≤ body.length) :
    (∀ b ∈ bs, b.Ordered cursor body.length) ∧ bs.Pairwise fun a b => a.stop ≤ b.anchorStart := by
  induction h with
  | here => exact ⟨by simp, .nil⟩
  | @turn cursor next stop found bs turn run ih =>
      obtain ⟨on, fits, here⟩ := turn.advances some_
      obtain ⟨later, apart⟩ := ih fits
      have behind : ∀ b ∈ bs, b.Ordered cursor body.length := fun b m =>
        (later b m).mono (Nat.le_of_lt on) (Nat.le_refl _)
      cases found with
      | none => exact ⟨behind, apart⟩
      | some b =>
          refine ⟨fun b' m => ?_, List.pairwise_cons.2 ⟨fun b' m => ?_, apart⟩⟩
          · rcases List.mem_cons.1 m with rfl | m
            · exact (here _ rfl).mono (Nat.le_refl _) fits
            · exact behind b' m
          · exact (here b rfl).stop.trans (later b' m).start

theorem not_unclosed_of_isBalanced (balanced : Brace.isBalanced body = true) {cursor brace depth : Nat} :
    ¬ Unclosed token body cursor brace depth := by
  rintro ⟨start, inside, head, after, -, text, -, never, -, -⟩
  have whole : body = body.take (start + token.length) ++ head ++ '{' :: after := by
    rw [List.append_assoc, ← text, List.take_append_drop]
  rw [whole] at balanced
  obtain ⟨inner, rest, e, closed⟩ := Brace.exists_close balanced
  rw [never inner rest e] at closed
  cases closed

/-- The blocks of a body are those that the turns find up to where no anchor is left. -/
theorem blocks_of_run (some_ : token ≠ []) {stop : Nat} {bs : List Block}
    (run : Run token body 0 bs stop) (none_ : NoAnchor token body stop) :
    blocks token body = .ok bs := by
  rw [← outcomeFrom_zero, run.outcomeFrom_eq some_, outcomeFrom_of_noAnchor none_]
  simp [Except.map]

theorem blocks_of_unclosed (some_ : token ≠ []) {stop brace depth : Nat} {bs : List Block}
    (run : Run token body 0 bs stop) (unclosed : Unclosed token body stop brace depth) :
    blocks token body = .error (.unclosedBrace brace depth) := by
  rw [← outcomeFrom_zero, run.outcomeFrom_eq some_, outcomeFrom_of_unclosed some_ unclosed]
  rfl

theorem blocks_eq_ok_iff_run (some_ : token ≠ []) {bs : List Block} :
    blocks token body = .ok bs ↔ ∃ stop, Run token body 0 bs stop ∧ NoAnchor token body stop := by
  refine ⟨fun h => ?_, fun ⟨stop, run, none_⟩ => blocks_of_run some_ run none_⟩
  obtain ⟨bs', stop, run, none_ | ⟨brace, depth, unclosed⟩⟩ := exists_run some_ body 0
  · rw [blocks_of_run some_ run none_] at h
    obtain rfl := Except.ok.inj h
    exact ⟨stop, run, none_⟩
  · rw [blocks_of_unclosed some_ run unclosed] at h
    cases h

theorem blocks_eq_error_iff_run (some_ : token ≠ []) {failure : Failure} :
    blocks token body = .error failure ↔
      ∃ bs stop brace depth, Run token body 0 bs stop ∧ Unclosed token body stop brace depth ∧
        failure = .unclosedBrace brace depth := by
  constructor
  · intro h
    obtain ⟨bs, stop, run, none_ | ⟨brace, depth, unclosed⟩⟩ := exists_run some_ body 0
    · rw [blocks_of_run some_ run none_] at h
      cases h
    · rw [blocks_of_unclosed some_ run unclosed] at h
      exact ⟨bs, stop, brace, depth, run, unclosed, (Except.error.inj h).symm⟩
  · rintro ⟨bs, stop, brace, depth, run, unclosed, rfl⟩
    exact blocks_of_unclosed some_ run unclosed

/-- A balanced body has its blocks. -/
theorem exists_blocks (some_ : token ≠ []) (balanced : Brace.isBalanced body = true) :
    ∃ bs, blocks token body = .ok bs := by
  obtain ⟨bs, stop, run, none_ | ⟨brace, depth, unclosed⟩⟩ := exists_run some_ body 0
  · exact ⟨bs, blocks_of_run some_ run none_⟩
  · exact absurd unclosed (not_unclosed_of_isBalanced balanced)

/-- Each turn is the only one at its cursor and moves the cursor on, so the scan of a body ends.  It
finds the blocks of its turns, one behind the other, where they leave no anchor, and fails exactly
where they come to a block that is never closed, which a balanced body does not have. -/
theorem blocks_run (some_ : token ≠ []) (body : Text) :
    (∀ cursor found next, Turn token body cursor found next → cursor < next ∧ next ≤ body.length ∧
        ∀ found' next', Turn token body cursor found' next' → found' = found ∧ next' = next) ∧
      (∃ bs stop, Run token body 0 bs stop ∧
        (NoAnchor token body stop ∨ ∃ brace depth, Unclosed token body stop brace depth)) ∧
      (∀ bs, blocks token body = .ok bs ↔
        ∃ stop, Run token body 0 bs stop ∧ NoAnchor token body stop) ∧
      (∀ failure, blocks token body = .error failure ↔
        ∃ bs stop brace depth, Run token body 0 bs stop ∧ Unclosed token body stop brace depth ∧
          failure = .unclosedBrace brace depth) ∧
      (∀ bs, blocks token body = .ok bs → (∀ b ∈ bs, b.Ordered 0 body.length) ∧
        bs.Pairwise fun a b => a.stop ≤ b.anchorStart) ∧
      (Brace.isBalanced body = true → ∃ bs, blocks token body = .ok bs) := by
  refine ⟨fun cursor found next turn => ?_, exists_run some_ body 0,
    fun bs => blocks_eq_ok_iff_run some_, fun failure => blocks_eq_error_iff_run some_,
    fun bs found => ?_, exists_blocks some_⟩
  · obtain ⟨on, bound, -⟩ := turn.advances some_
    exact ⟨on, bound, fun found' next' turn' => turn'.unique some_ turn⟩
  · obtain ⟨stop, run, -⟩ := (blocks_eq_ok_iff_run some_).1 found
    exact run.ordered some_ (Nat.zero_le _)

/-- An entity statement, an anchor without block, a call that goes on after its block, and a
statement on several lines. -/
def turnsBody : Text :=
  ("b.Entity<A>(e => \x7b e.Own(o => \x7b \x7d); \x7d);\nSeed(B.Entity<C>());\n" ++
    "b.Entity<D>().HasData(new \x7b \x7d, new \x7b \x7d);\nb.entity<E>(e =>\n\x7b\n\x7d ) ;\n").toList

theorem blocks_run_turns :
    anchor ['b'] ≠ [] ∧ blocks (anchor ['b']) turnsBody =
        .ok [⟨0, 9, 17, 36, 39⟩, ⟨102, 111, 119, 121, 126⟩] ∧
      ∃ stop, Run (anchor ['b']) turnsBody 0 [⟨0, 9, 17, 36, 39⟩, ⟨102, 111, 119, 121, 126⟩] stop ∧
        NoAnchor (anchor ['b']) turnsBody stop := by
  have some_ : anchor ['b'] ≠ [] := by decide
  have found : blocks (anchor ['b']) turnsBody =
      .ok [⟨0, 9, 17, 36, 39⟩, ⟨102, 111, 119, 121, 126⟩] := by decide +kernel
  exact ⟨some_, found, ((blocks_run some_ turnsBody).2.2.1 _).1 found⟩

end Regraft.Entity
