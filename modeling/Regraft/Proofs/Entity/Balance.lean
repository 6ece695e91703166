import Regraft.Proofs.Entity.Turn
import Regraft.Proofs.Extraction

/-!
# Regraft.Proofs.Entity.Balance -- depth in a body without its entity statements

No block opens in the head of a statement, but one may close there: the head is read by its
parentheses.  Such a brace closes a block that was opened before the statement, so when the statement
goes, that block stays open (`depthAfter_betweenOf`).  A balanced body can always be stripped, and what
is left is balanced exactly where the heads close nothing (`strip_depth`).
-/

namespace Regraft.Entity

set_option autoImplicit false

open Text Brace

variable {token : Text}

/-! ## Depth and layout -/

theorem depthAfter_solid (depth : Nat) (t : Text) : depthAfter depth (solid t) = depthAfter depth t := by
  induction t generalizing depth with
  | nil => rfl
  | cons c t ih =>
      rw [solid_cons]
      split
      · rename_i blank
        have notOpen : c ≠ '{' := ne_of_isBlank blank (by decide)
        have notClose : c ≠ '}' := ne_of_isBlank blank (by decide)
        simp only [depthAfter, if_neg notOpen, if_neg notClose, ih]
      · simp only [depthAfter, ih]

/-- A text in which no block opens closes as many as it has closing braces. -/
theorem depthAfter_closings {depth rest : Nat} {t : Text} (noOpen : '{' ∉ t)
    (h : depthAfter depth t = some rest) : depth = rest + t.count '}' := by
  induction t generalizing depth with
  | nil => exact Option.some.inj h
  | cons c t ih =>
      rw [List.mem_cons, not_or] at noOpen
      simp only [depthAfter, if_neg (Ne.symm noOpen.1)] at h
      split at h
      · rename_i closes
        cases depth with
        | zero => cases h
        | succ outer =>
            have := ih noOpen.2 h
            rw [closes, List.count_cons_self]
            omega
      · rename_i plain
        rw [List.count_cons_of_ne plain]
        exact ih noOpen.2 h

/-! ## Statements -/

/-- How many blocks that were opened before a statement are closed in its head. -/
def Statement.closings (s : Statement) : Nat :=
  s.head.count '}'

theorem IsEnd.isBalanced {parens : Nat} {tail : Text} (h : IsEnd parens tail) :
    isBalanced tail = true := by
  have other {c : Char} (m : c ∈ tail) : c ≠ '{' ∧ c ≠ '}' := by
    rcases mem_isEnd h m with blank | rfl | rfl
    · exact ⟨ne_of_isBlank blank (by decide), ne_of_isBlank blank (by decide)⟩
    · decide
    · decide
  exact isBalanced_of_no_brace (fun m => (other m).1 rfl) fun m => (other m).2 rfl

theorem isBalanced_block {inner : Text} (h : isBalanced inner = true) :
    isBalanced ('{' :: inner ++ ['}']) = true := by
  have parts := isBalanced_insert h ['{'] ['}']
  rw [List.singleton_append] at parts
  rw [parts]
  rfl

/-- An anchor on a name has no braces. -/
theorem isBalanced_anchor {param found : Text} (words : ∀ c ∈ param, isWord c = true)
    (alike : Alike (anchor param) found) : isBalanced found = true := by
  have absent {c : Char} (caseless : IsCaseless c) (other : isWord c = false)
      (notIn : c ∉ ".Entity<".toList) : c ∉ found := by
    intro m
    rcases List.mem_append.1 ((alike.caseless_mem caseless).2 m) with m | m
    · rw [words c m] at other
      cases other
    · exact notIn m
  exact isBalanced_of_no_brace (absent isCaseless_open (by decide) (by decide))
    (absent isCaseless_close (by decide) (by decide))

/-- The depth behind a statement is less by what its head closes. -/
theorem Statement.Shaped.depthAfter_eq {s : Statement} (h : s.Shaped token)
    (anchored : isBalanced s.anchor = true) {depth rest : Nat}
    (found : depthAfter depth s.text = some rest) : depth = rest + s.closings := by
  obtain ⟨parens, -, ends⟩ := h.ends
  have parts : s.text = [] ++ s.anchor ++ (s.head ++ ('{' :: s.inner ++ ['}']) ++ s.tail) := by
    simp [Statement.text]
  rw [parts, depthAfter_insert anchored, List.nil_append, ← List.append_nil (_ ++ s.tail),
    depthAfter_insert ends.isBalanced, depthAfter_insert (isBalanced_block h.closed),
    List.append_nil] at found
  exact depthAfter_closings h.head_no_brace found

def closingsOf : List Segment → Nat
  | [] => 0
  | .statement _ s :: more => s.closings + closingsOf more
  | _ :: more => closingsOf more

/-- Blocks that the statements close stay open without them. -/
theorem depthAfter_betweenOf {segs : List Segment} {depth rest : Nat}
    (loses : ∀ before s, .statement before s ∈ segs → ∀ depth rest,
      depthAfter depth s.text = some rest → depth = rest + s.closings)
    (found : depthAfter depth (textOf segs) = some rest) :
    depthAfter depth (betweenOf segs) = some (rest + closingsOf segs) := by
  induction segs generalizing depth with
  | nil => exact found
  | cons seg more ih =>
      have later {depth : Nat} (found : depthAfter depth (textOf more) = some rest) :
          depthAfter depth (betweenOf more) = some (rest + closingsOf more) :=
        ih (fun before s m => loses before s (List.mem_cons_of_mem _ m)) found
      rw [textOf_cons, depthAfter_append, Option.bind_eq_some_iff] at found
      obtain ⟨behind, here, found⟩ := found
      rw [betweenOf_cons, depthAfter_append]
      cases seg with
      | statement before s =>
          rw [Segment.text, depthAfter_append, Option.bind_eq_some_iff] at here
          obtain ⟨inside, front, here⟩ := here
          obtain rfl := loses before s List.mem_cons_self inside behind here
          rw [Segment.between, front, Option.bind_some, depthAfter_add (later found), closingsOf,
            Nat.add_assoc, Nat.add_comm (closingsOf more)]
      | _ =>
          rw [Segment.text] at here
          rw [Segment.between, here, Option.bind_some, later found, closingsOf]
          simp

/-! ## Blocks -/

/-- What a body has between the anchor of a block and its opening brace. -/
def Block.head (body : Text) (b : Block) : Text :=
  (body.take b.openBrace).drop b.anchorStop

theorem Statement.block_head (front : Text) (s : Statement) (back : Text) :
    (s.block front.length).head (front ++ s.text ++ back) = s.head := by
  have parts : front ++ s.text ++ back =
      front ++ s.anchor ++ s.head ++ '{' :: (s.inner ++ '}' :: (s.tail ++ back)) := by
    simp [Statement.text]
  have until_ : (s.block front.length).openBrace = (front ++ s.anchor ++ s.head).length := by
    simp only [Statement.block, List.length_append]
  have from_ : (s.block front.length).anchorStop = (front ++ s.anchor).length := by
    simp only [Statement.block, List.length_append]
  rw [Block.head, parts, until_, from_, List.take_left, List.drop_left]

/-- How many blocks a body closes in the heads of its statements. -/
def closingsIn (body : Text) (bs : List Block) : Nat :=
  (bs.flatMap fun b => b.head body).count '}'

theorem closingsOf_eq (front : Text) (segs : List Segment) :
    closingsOf segs = closingsIn (front ++ textOf segs) (blocksFrom front.length segs) := by
  induction segs generalizing front with
  | nil => rfl
  | cons seg more ih =>
      have later := ih (front ++ seg.text)
      rw [List.length_append, List.append_assoc] at later
      cases seg with
      | statement before s =>
          have here := s.block_head (front ++ before) (textOf more)
          rw [List.length_append] at here
          have parts : front ++ textOf (.statement before s :: more) =
              front ++ before ++ s.text ++ textOf more := by
            simp [Segment.text]
          rw [closingsOf, later, ← textOf_cons, closingsIn, closingsIn, blocksFrom, List.flatMap_cons,
            List.count_append, parts, here, Statement.closings]
      | _ =>
          rw [closingsOf, later, ← textOf_cons, blocksFrom]
          all_goals simp

theorem closingsIn_eq_zero {body : Text} {bs : List Block} :
    closingsIn body bs = 0 ↔ ∀ b ∈ bs, '}' ∉ b.head body := by
  simp [closingsIn, List.count_eq_zero]

/-- A balanced body can be stripped.  What is left has no brace without partner but those that were
closed in the head of a statement, so it is balanced exactly if no head closes a block. -/
theorem strip_depth {param body : Text} (words : ∀ c ∈ param, isWord c = true)
    (balanced : isBalanced body = true) :
    ∃ bs kept, blocks (anchor param) body = .ok bs ∧ strip (anchor param) body = .ok kept ∧
      depthAfter 0 kept = some (closingsIn body bs) ∧
      (isBalanced kept = true ↔ ∀ b ∈ bs, '}' ∉ b.head body) := by
  have some_ : anchor param ≠ [] := (inked_anchor words).ne_nil
  obtain ⟨bs, found⟩ := exists_blocks some_ balanced
  obtain ⟨kept, done⟩ := strip_of_blocks found
  have loses : ∀ before s, .statement before s ∈ segments (anchor param) body → ∀ depth rest,
      depthAfter depth s.text = some rest → depth = rest + s.closings := by
    intro before s m depth rest h
    have shaped := segments_shaped body before s m
    exact shaped.depthAfter_eq (isBalanced_anchor words shaped.anchor) h
  have depth : depthAfter 0 kept = some (closingsIn body bs) := by
    obtain ⟨bs', found', same⟩ := solid_strip done
    rw [found] at found'
    obtain rfl := Except.ok.inj found'
    obtain ⟨-, rfl⟩ := blocks_eq_ok.1 found
    have between := outside_blocksFrom 0 (segments (anchor param) body)
    have closings := closingsOf_eq [] (segments (anchor param) body)
    rw [segments_text] at between
    rw [List.nil_append, segments_text] at closings
    rw [between] at same
    rw [isBalanced_iff, ← segments_text (anchor param) body] at balanced
    rw [← depthAfter_solid, same, depthAfter_solid, depthAfter_betweenOf loses balanced, Nat.zero_add,
      closings]
    rfl
  refine ⟨bs, kept, found, done, depth, ?_⟩
  rw [isBalanced_iff, depth, Option.some.injEq, closingsIn_eq_zero]

/-- An entity statement with a block of its own, in a block that stays. -/
def nestedBody : Text :=
  ("if (own)\n\x7b\n    b.Entity<A>(e => \x7b e.Own(o => \x7b \x7d); \x7d);\n" ++
    "    Seed();\n\x7d\n").toList

theorem strip_depth_nested :
    isBalanced nestedBody = true ∧ ∃ kept, strip (anchor ['b']) nestedBody = .ok kept ∧
      isBalanced kept = true := by
  have words : ['b'].all isWord = true := by decide
  have balanced : isBalanced nestedBody = true := by decide +kernel
  obtain ⟨bs, kept, found, done, -, iff⟩ := strip_depth (List.all_eq_true.1 words) balanced
  have here : blocks (anchor ['b']) nestedBody = .ok [⟨15, 24, 32, 51, 54⟩] := by decide +kernel
  rw [here] at found
  obtain rfl := Except.ok.inj found
  refine ⟨balanced, kept, done, iff.2 fun b m => ?_⟩
  obtain rfl := List.mem_singleton.1 m
  decide +kernel

/-- Two anchors in a list, whose brace is closed before the block of a call on the list. -/
def listBody : Text :=
  ("new List<EntityTypeBuilder> \x7b b.Entity<Blog>(), b.Entity<Post>() \x7d" ++
    ".ForEach(e => \x7b e.HasNoKey(); \x7d);\n").toList

/-- The call goes from the first anchor on, and the list stays open. -/
theorem strip_not_balanced :
    isBalanced listBody = true ∧
      strip (anchor ['b']) listBody = .ok "new List<EntityTypeBuilder> \x7b \n".toList ∧
      isBalanced "new List<EntityTypeBuilder> \x7b \n".toList = false := by
  decide +kernel

end Regraft.Entity
