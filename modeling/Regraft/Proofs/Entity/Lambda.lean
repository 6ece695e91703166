import Regraft.Proofs.Entity.Shape
import Regraft.Proofs.Entity.Turn
import Regraft.Proofs.Extraction

/-!
# Regraft.Proofs.Entity.Lambda -- entity statements whose block is no lambda body

The scan counts parentheses and braces and does not look at what stands in front of the first brace.
What it finds are just the statements of the shape that it comes to (`mem_blocks_iff_reads`), and a
block is a lambda body exactly if the head of its statement ends in the arrow (`blocks_lambda`).  A
call with one anonymous object has the shape (`blocks_not_lambda`); with two it has not, and stays.
-/

namespace Regraft.Entity

set_option autoImplicit false

open Text

variable {token : Text}

/-- Whether a text ends in the arrow of a lambda, white space apart. -/
def EndsInArrow (t : Text) : Prop :=
  ['=', '>'] <:+ trimEnd t

instance (t : Text) : Decidable (EndsInArrow t) :=
  inferInstanceAs (Decidable (['=', '>'] <:+ trimEnd t))

def Block.IsLambda (body : Text) (b : Block) : Prop :=
  EndsInArrow (body.take b.openBrace)

theorem EndsInArrow.append {t : Text} (h : EndsInArrow t) (s : Text) : EndsInArrow (s ++ t) := by
  obtain ⟨front, arrow⟩ := h
  obtain ⟨tail, e, blank⟩ := trimEnd_append t
  have last : (s ++ trimEnd t).getLast? = some '>' := by
    rw [← arrow, ← List.append_assoc, List.getLast?_append]
    rfl
  have whole : trimEnd (s ++ t) = s ++ trimEnd t :=
    calc trimEnd (s ++ t) = trimEnd (s ++ trimEnd t ++ tail) := by rw [List.append_assoc, ← e]
      _ = trimEnd (s ++ trimEnd t) := trimEnd_append_blank _ blank
      _ = s ++ trimEnd t := trimEnd_of_last last (by decide)
  exact ⟨s ++ front, by rw [whole, ← arrow, List.append_assoc]⟩

/-- No arrow starts in front of a bracket. -/
theorem endsInArrow_of_append {s t : Text} (h : EndsInArrow (s ++ ['<'] ++ t)) : EndsInArrow t := by
  obtain ⟨tail, e, blank⟩ := trimEnd_append t
  have bare : trimEnd (s ++ ['<'] ++ t) = s ++ ['<'] ++ trimEnd t := by
    conv => lhs; rw [e, ← List.append_assoc, trimEnd_append_blank _ blank]
    cases last : (trimEnd t).getLast? with
    | none =>
        rw [List.getLast?_eq_none_iff.1 last, List.append_nil]
        exact trimEnd_of_last (List.getLast?_concat ..) (by decide)
    | some c => exact trimEnd_of_last (by rw [List.getLast?_append, last]; rfl) (trimEnd_last last)
  obtain ⟨front, arrow⟩ := h
  rw [bare] at arrow
  rcases List.append_eq_append_iff.1 arrow with ⟨part, before, parts⟩ | ⟨part, -, parts⟩
  · -- nothing of the arrow stands in front of the bracket, which is neither of its characters
    have bracket : (front ++ part).getLast? = some '<' := by rw [← before, List.getLast?_concat]
    rcases List.eq_nil_or_concat part with rfl | ⟨init, c, rfl⟩
    · exact ⟨[], parts⟩
    · rw [List.concat_eq_append] at bracket parts
      have inArrow : c ∈ ['=', '>'] := by
        rw [parts]
        simp
      rw [← List.append_assoc, List.getLast?_concat, Option.some.injEq] at bracket
      rw [bracket] at inArrow
      exact absurd inArrow (by decide)
  · exact ⟨part, parts.symm⟩

/-- An anchor ends in its bracket, however it is written. -/
theorem angle_of_alike {param written : Text} (h : Alike (anchor param) written) :
    ∃ name, written = name ++ ['<'] := by
  have parts : anchor param = (param ++ ".Entity".toList) ++ ['<'] := by
    rw [anchor, List.append_assoc]
    rfl
  rw [parts] at h
  obtain ⟨name, last, rfl, -, bracket⟩ := alike_append.1 h
  have length := bracket.length_eq
  cases last with
  | nil => cases length
  | cons c more =>
      obtain rfl : more = [] := List.eq_nil_of_length_eq_zero (by simpa using length.symm)
      exact ⟨name, by rw [eq_of_foldEq bracket.1 (.inl isCaseless_angle)]⟩

/-- What a body has in front of the block of a statement. -/
theorem Statement.take_openBrace (s : Statement) (front back : Text) :
    (front ++ s.text ++ back).take (s.block front.length).openBrace =
      front ++ s.anchor ++ s.head := by
  have e : front ++ s.text ++ back =
      (front ++ s.anchor ++ s.head) ++ ('{' :: (s.inner ++ '}' :: (s.tail ++ back))) := by
    simp [Statement.text]
  rw [e]
  exact List.take_left' (by simp [Statement.block, Nat.add_assoc])

/-- Where a statement stands, its block is a lambda body exactly if its head ends in the arrow. -/
theorem isLambda_block_iff {param : Text} {s : Statement} (anchored : Alike (anchor param) s.anchor)
    (front back : Text) :
    (s.block front.length).IsLambda (front ++ s.text ++ back) ↔ EndsInArrow s.head := by
  rw [Block.IsLambda, s.take_openBrace]
  constructor
  · intro arrow
    obtain ⟨name, written⟩ := angle_of_alike anchored
    rw [written, ← List.append_assoc front] at arrow
    exact endsInArrow_of_append arrow
  · intro arrow
    exact arrow.append _

/-! ## What the scan reads -/

/-- A statement of the shape that stands in a body and that the scan comes to: its anchor is the first
behind a cursor of the scan. -/
structure Reads (token body front : Text) (s : Statement) (back : Text) : Prop where
  parts : body = front ++ s.text ++ back
  shaped : s.Shaped token
  reached : ∃ bs cursor, Run token body 0 bs cursor ∧ NextAnchor token body cursor front.length

/-- What is found is found in some turn. -/
theorem Run.exists_turn {body : Text} {cursor stop : Nat} {bs : List Block} {b : Block}
    (h : Run token body cursor bs stop) (m : b ∈ bs) :
    ∃ before here next, Run token body cursor before here ∧ Turn token body here (some b) next := by
  induction h with
  | here => cases m
  | @turn cursor next stop found bs turn run ih =>
      rcases List.mem_append.1 m with m | m
      · rw [Option.mem_toList.1 m] at turn
        exact ⟨[], cursor, next, .here, turn⟩
      · obtain ⟨before, here, next', earlier, found'⟩ := ih m
        exact ⟨_, here, next', .turn turn earlier, found'⟩

/-- The block that a turn finds is that of a statement of the shape. -/
theorem Turn.exists_statement (some_ : token ≠ []) {body : Text} {cursor next : Nat} {b : Block}
    (h : Turn token body cursor (some b) next) :
    ∃ (front : Text) (s : Statement) (back : Text), body = front ++ s.text ++ back ∧ s.Shaped token ∧
      NextAnchor token body cursor front.length ∧ b = s.block front.length := by
  cases h with
  | @block b depth head inner tail more anchor stop text isHead closed ends atOpen atClose atStop =>
      obtain ⟨before, written, cut, start, length⟩ := anchor.cut some_
      rw [← stop, text] at cut
      have whole : body = body.take cursor ++ before ++
          (Statement.mk written head inner tail).text ++ more := by
        conv => lhs; rw [← List.take_append_drop cursor body, cutAnchor?_append cut]
        simp [Statement.text]
      have behind : (body.take cursor ++ before).length = b.anchorStart := by
        have bound := (anchor.stands.lt some_).1
        have := anchor.behind
        rw [List.length_append, List.length_take, start]
        omega
      refine ⟨body.take cursor ++ before, ⟨written, head, inner, tail⟩, more, whole,
        ⟨cutAnchor?_alike cut, closed, depth, headDepth_eq_some.2 isHead, ends⟩, behind ▸ anchor, ?_⟩
      obtain ⟨aStart, aStop, aOpen, aClose, aEnd⟩ := b
      simp only at behind stop atOpen atClose atStop
      simp only [Statement.block, behind, length, stop, atOpen, atClose, atStop]

/-- A statement that the scan comes to is found in a turn. -/
theorem Statement.Shaped.turn {body front back : Text} {s : Statement} {cursor : Nat}
    (h : s.Shaped token) (parts : body = front ++ s.text ++ back)
    (anchor : NextAnchor token body cursor front.length) :
    Turn token body cursor (some (s.block front.length)) (s.block front.length).stop := by
  obtain ⟨depth, opens, ends⟩ := h.ends
  have behind : body.drop (front.length + s.anchor.length) =
      s.head ++ '{' :: (s.inner ++ '}' :: (s.tail ++ back)) := by
    have whole : body = (front ++ s.anchor) ++
        (s.head ++ '{' :: (s.inner ++ '}' :: (s.tail ++ back))) := by
      rw [parts]
      simp [Statement.text]
    rw [whole, ← List.length_append, List.drop_left]
  exact .block anchor (by rw [Statement.block, h.anchor.length_eq]) behind
    (headDepth_eq_some.1 opens) h.closed ends rfl rfl rfl

/-- The blocks of a body are those of the statements that the scan reads. -/
theorem mem_blocks_iff_reads (some_ : token ≠ []) {body : Text} {bs : List Block}
    (found : blocks token body = .ok bs) {b : Block} :
    b ∈ bs ↔ ∃ front s back, Reads token body front s back ∧ b = s.block front.length := by
  constructor
  · intro m
    obtain ⟨stop, run, -⟩ := (blocks_eq_ok_iff_run some_).1 found
    obtain ⟨before, cursor, next, earlier, turn⟩ := run.exists_turn m
    obtain ⟨front, s, back, parts, shaped, anchor, rfl⟩ := turn.exists_statement some_
    exact ⟨front, s, back, ⟨parts, shaped, before, cursor, earlier, anchor⟩, rfl⟩
  · rintro ⟨front, s, back, ⟨parts, shaped, before, cursor, earlier, anchor⟩, rfl⟩
    have turn := shaped.turn parts anchor
    have both := earlier.outcomeFrom_eq some_
    rw [outcomeFrom_zero, found, (Run.turn turn .here).outcomeFrom_eq some_] at both
    cases later : outcomeFrom token body (s.block front.length).stop with
    | error failure =>
        rw [later] at both
        cases both
    | ok more =>
        rw [later] at both
        rw [Except.ok.inj both]
        simp

def OnlyLambdas (token body : Text) : Prop :=
  ∀ front s back, Reads token body front s back → EndsInArrow s.head

/-- What is found are the statements of the shape that the scan comes to, and nothing else.  The block
of one is a lambda body exactly if its head ends in the arrow.  So all are exactly if only lambdas are
read, as is the case where nothing else in the body has the shape.  Where a block starts at an anchor, the
first brace behind that anchor is its own.  Stripping keeps all but the found statements. -/
theorem blocks_lambda {param body : Text} {bs : List Block}
    (found : blocks (anchor param) body = .ok bs) :
    (∀ b, b ∈ bs ↔
        ∃ front s back, Reads (anchor param) body front s back ∧ b = s.block front.length) ∧
      (∀ front s back, Reads (anchor param) body front s back →
        ((s.block front.length).IsLambda body ↔ EndsInArrow s.head)) ∧
      ((∀ b ∈ bs, b.IsLambda body) ↔ OnlyLambdas (anchor param) body) ∧
      ((∀ front (s : Statement) back, body = front ++ s.text ++ back → s.Shaped (anchor param) →
        EndsInArrow s.head) → OnlyLambdas (anchor param) body) ∧
      (∀ front written head back, body = front ++ written ++ (head ++ '{' :: back) →
        Alike (anchor param) written → '{' ∉ head →
          ∀ b ∈ bs, b.anchorStart = front.length → (b.IsLambda body ↔ EndsInArrow head)) ∧
      ∃ kept, strip (anchor param) body = .ok kept ∧
        solid kept = solid (outside (bs.map Block.range) 0 body) := by
  have some_ : anchor param ≠ [] := by simp [anchor]
  have lambda (front s back) (reads : Reads (anchor param) body front s back) :
      (s.block front.length).IsLambda body ↔ EndsInArrow s.head := by
    rw [reads.parts]
    exact isLambda_block_iff reads.shaped.anchor front back
  refine ⟨fun b => mem_blocks_iff_reads some_ found, lambda, ⟨fun all front s back reads => ?_,
    fun only b m => ?_⟩, fun every front s back reads => every front s back reads.parts reads.shaped,
    fun front written head back e alike noBrace b m start => ?_, ?_⟩
  · exact (lambda front s back reads).1
      (all _ ((mem_blocks_iff_reads some_ found).2 ⟨front, s, back, reads, rfl⟩))
  · obtain ⟨front, s, back, reads, rfl⟩ := (mem_blocks_iff_reads some_ found).1 m
    exact (lambda front s back reads).2 (only front s back reads)
  · obtain ⟨front', s, back', reads, rfl⟩ := (mem_blocks_iff_reads some_ found).1 m
    -- the found statement stands at the same offset, so it has the same head
    have whole : front ++ (written ++ (head ++ '{' :: back)) =
        front' ++ (s.anchor ++ (s.head ++ '{' :: (s.inner ++ '}' :: (s.tail ++ back')))) := by
      rw [← List.append_assoc, ← e, reads.parts]
      simp [Statement.text]
    obtain ⟨-, fromAnchor⟩ := List.append_inj whole start.symm
    obtain ⟨-, fromHead⟩ := List.append_inj fromAnchor
      (alike.length_eq.symm.trans reads.shaped.anchor.length_eq)
    obtain ⟨rfl, -⟩ := append_char_inj fromHead noBrace reads.shaped.head_no_brace
    exact lambda front' s back' reads
  · obtain ⟨kept, done⟩ := strip_of_blocks found
    obtain ⟨bs', found', same⟩ := solid_strip done
    rw [found] at found'
    obtain rfl := Except.ok.inj found'
    exact ⟨kept, done, same⟩

def pairBody : Text :=
  "b.Entity<A>().HasData(new \x7b Id = 1 \x7d, new \x7b Id = 2 \x7d);\nb.Entity<B>(e => \x7b \x7d);\n".toList

theorem blocks_lambda_pair :
    blocks (anchor ['b']) pairBody = .ok [⟨55, 64, 72, 74, 77⟩] ∧
      Block.IsLambda pairBody ⟨55, 64, 72, 74, 77⟩ ∧ OnlyLambdas (anchor ['b']) pairBody := by
  have found : blocks (anchor ['b']) pairBody = .ok [⟨55, 64, 72, 74, 77⟩] := by decide +kernel
  have arrow : EndsInArrow (pairBody.take 72) := by decide +kernel
  refine ⟨found, arrow, (blocks_lambda found).2.2.1.1 ?_⟩
  rintro b m
  obtain rfl := List.mem_singleton.1 m
  exact arrow

def seedBody : Text :=
  "b.Entity<Blog>().HasData(new \x7b Id = 1 \x7d);\n".toList

/-- It is taken for an entity statement, and goes. -/
theorem blocks_not_lambda :
    ∃ b, blocks (anchor ['b']) seedBody = .ok [b] ∧ ¬ b.IsLambda seedBody ∧
      strip (anchor ['b']) seedBody = .ok [] := by
  refine ⟨⟨0, 9, 29, 38, 41⟩, ?_⟩
  have found : blocks (anchor ['b']) seedBody = .ok [⟨0, 9, 29, 38, 41⟩] ∧
      ¬ EndsInArrow (seedBody.take 29) ∧ strip (anchor ['b']) seedBody = .ok [] := by
    decide +kernel
  exact found

end Regraft.Entity
