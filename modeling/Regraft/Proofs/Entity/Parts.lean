import Regraft.Entity.Segment
import Regraft.Proofs.Brace
import Regraft.Proofs.Text.Solid

/-!
# Regraft.Proofs.Entity.Parts -- the parts of a statement behind its anchor

Behind its anchor a statement is a head, a block and an end.  Along a head the number of open
parentheses is known (`headDepth`), and the search for a block passes over it (`seek_append`) up to
a character that no head goes on with.  So the search finds a block behind a head
(`seek_eq_block`), or what ends the statement, or the end of the text (`seek_eq_none`).  The end of
a statement is known by the parentheses that its head left open (`afterEnd?_eq_some`).

Nothing that follows one of these parts matters to it (`seek_block_swap`, `seek_none_swap`,
`closeBlock_swap`, `afterEnd?_swap`).
-/

namespace Regraft.Entity

set_option autoImplicit false

open Text

/-! ## Heads -/

/-- How many parentheses are open behind a head, `depth` being open before it.  A head has no
opening brace, closes no parenthesis that was opened before the anchor, and has semicolons inside
parentheses only. -/
def headDepth (depth : Nat) : Text → Option Nat
  | [] => some depth
  | c :: t =>
      if c = '(' then headDepth (depth + 1) t
      else if c = ')' then
        match depth with
        | 0 => none
        | outer + 1 => headDepth outer t
      else if c = ';' ∧ depth = 0 then none
      else if c = '{' then none
      else headDepth depth t

/-- Whether the search for a block comes to an end before the text does. -/
def settles (depth : Nat) : Text → Bool
  | [] => false
  | c :: t =>
      if c = '(' then settles (depth + 1) t
      else if c = ')' then
        match depth with
        | 0 => true
        | outer + 1 => settles outer t
      else if c = ';' ∧ depth = 0 then true
      else if c = '{' then true
      else settles depth t

/-- How many parentheses are open behind one character of a head; nothing where no head goes on with
the character. -/
def headStep? (depth : Nat) (c : Char) : Option Nat :=
  if c = '(' then some (depth + 1)
  else if c = ')' then
    match depth with
    | 0 => none
    | outer + 1 => some outer
  else if c = ';' ∧ depth = 0 then none
  else if c = '{' then none
  else some depth

theorem headStep?_eq_none {depth : Nat} {c : Char} :
    headStep? depth c = none ↔ c = '{' ∨ depth = 0 ∧ (c = ';' ∨ c = ')') := by
  by_cases opens : c = '('
  · simp [headStep?, opens]
  · by_cases closes : c = ')'
    · cases depth <;> simp [headStep?, closes]
    · by_cases ends : c = ';' ∧ depth = 0
      · simp [headStep?, ends.1, ends.2]
      · have goesOn : ¬ (depth = 0 ∧ c = ';') := fun h => ends h.symm
        by_cases brace : c = '{'
        · simp [headStep?, brace]
        · simp [headStep?, opens, closes, ends, brace, goesOn]

theorem headStep?_of_isBlank {depth : Nat} {c : Char} (blank : isBlank c = true) :
    headStep? depth c = some depth := by
  have other {d : Char} (inked : isBlank d = false) : c ≠ d := ne_of_isBlank blank inked
  have paren : isBlank '(' = false ∧ isBlank ')' = false := by decide
  have mark : isBlank ';' = false ∧ isBlank '{' = false := by decide
  simp [headStep?, other paren.1, other paren.2, other mark.1, other mark.2]

theorem headDepth_cons (depth : Nat) (c : Char) (t : Text) :
    headDepth depth (c :: t) = (headStep? depth c).bind (headDepth · t) := by
  simp only [headDepth, headStep?]
  split_ifs
  · rfl
  · cases depth <;> rfl
  all_goals rfl

theorem settles_cons (depth : Nat) (c : Char) (t : Text) :
    settles depth (c :: t) = (headStep? depth c).elim true (settles · t) := by
  simp only [settles, headStep?]
  split_ifs
  · rfl
  · cases depth <;> rfl
  all_goals rfl

/-- The search for a block goes on along a head and ends with the first other character. -/
theorem seek_cons (depth : Nat) (c : Char) (t : Text) :
    seek depth (c :: t) = (headStep? depth c).elim
      (if c = '{' then .block [] depth t else .none [c] t) fun inside => (seek inside t).push c := by
  by_cases opens : c = '('
  · simp [seek, headStep?, opens]
  · by_cases closes : c = ')'
    · cases depth <;> simp [seek, headStep?, closes]
    · by_cases ends : c = ';' ∧ depth = 0
      · simp [seek, headStep?, ends.1, ends.2]
      · by_cases brace : c = '{'
        · simp [seek, headStep?, brace]
        · simp only [seek, headStep?, if_neg opens, if_neg closes, if_neg ends, if_neg brace,
            Option.elim_some]

theorem headDepth_append {depth inside : Nat} {head : Text} (h : headDepth depth head = some inside)
    (t : Text) : headDepth depth (head ++ t) = headDepth inside t := by
  induction head generalizing depth with
  | nil =>
      obtain rfl := Option.some.inj h
      rfl
  | cons c head ih =>
      rw [headDepth_cons, Option.bind_eq_some_iff] at h
      obtain ⟨next, step, later⟩ := h
      rw [List.cons_append, headDepth_cons, step, Option.bind_some, ih later]

theorem headDepth_of_blank {depth : Nat} {t : Text} (blank : isBlankText t = true) :
    headDepth depth t = some depth := by
  induction t with
  | nil => rfl
  | cons c t ih =>
      rw [isBlankText_cons, Bool.and_eq_true] at blank
      rw [headDepth_cons, headStep?_of_isBlank blank.1, Option.bind_some, ih blank.2]

theorem no_brace_of_headDepth {depth inside : Nat} {head : Text}
    (h : headDepth depth head = some inside) : '{' ∉ head := by
  induction head generalizing depth with
  | nil => simp
  | cons c head ih =>
      rw [headDepth_cons, Option.bind_eq_some_iff] at h
      obtain ⟨next, step, later⟩ := h
      have other : c ≠ '{' := by
        rintro rfl
        rw [headStep?_eq_none.2 (Or.inl rfl)] at step
        cases step
      simp [ih later, Ne.symm other]

/-- A text is a head up to its end or to a character that no head goes on with. -/
theorem exists_headDepth (depth : Nat) (t : Text) :
    ∃ head inside, headDepth depth head = some inside ∧
      (t = head ∨ ∃ c rest, t = head ++ c :: rest ∧ headStep? inside c = none) := by
  induction t generalizing depth with
  | nil => exact ⟨[], depth, rfl, Or.inl rfl⟩
  | cons c t ih =>
      cases step : headStep? depth c with
      | none => exact ⟨[], depth, rfl, Or.inr ⟨c, t, rfl, step⟩⟩
      | some next =>
          obtain ⟨head, inside, h, parts⟩ := ih next
          refine ⟨c :: head, inside, by rw [headDepth_cons, step, Option.bind_some, h], ?_⟩
          rcases parts with rfl | ⟨d, rest, rfl, stop⟩
          · exact Or.inl rfl
          · exact Or.inr ⟨d, rest, rfl, stop⟩

theorem settles_of_headDepth {depth inside : Nat} {head : Text}
    (h : headDepth depth head = some inside) : settles depth head = false := by
  induction head generalizing depth with
  | nil => rfl
  | cons c head ih =>
      rw [headDepth_cons, Option.bind_eq_some_iff] at h
      obtain ⟨next, step, later⟩ := h
      rw [settles_cons, step, Option.elim_some, ih later]

/-! ## The search for a block -/

theorem seek_none_text {depth : Nat} {t head rest : Text} (h : seek depth t = .none head rest) :
    t = head ++ rest := by
  rw [← seek_text depth t, h, Opening.text]

theorem seek_block_text {depth inside : Nat} {t head after : Text}
    (h : seek depth t = .block head inside after) : t = head ++ '{' :: after := by
  rw [← seek_text depth t, h, Opening.text]

/-- The search for a block passes over a head. -/
theorem seek_append {depth inside : Nat} {head : Text} (h : headDepth depth head = some inside)
    (t : Text) : seek depth (head ++ t) = head.foldr Opening.push (seek inside t) := by
  induction head generalizing depth with
  | nil =>
      obtain rfl := Option.some.inj h
      rfl
  | cons c head ih =>
      rw [headDepth_cons, Option.bind_eq_some_iff] at h
      obtain ⟨next, step, later⟩ := h
      rw [List.cons_append, seek_cons, step, Option.elim_some, ih later, List.foldr_cons]

theorem foldr_push_block (head passed after : Text) (depth : Nat) :
    head.foldr Opening.push (.block passed depth after) = .block (head ++ passed) depth after := by
  induction head with
  | nil => rfl
  | cons c head ih => rw [List.foldr_cons, ih, Opening.push, List.cons_append]

theorem foldr_push_none (head passed rest : Text) :
    head.foldr Opening.push (.none passed rest) = .none (head ++ passed) rest := by
  induction head with
  | nil => rfl
  | cons c head ih => rw [List.foldr_cons, ih, Opening.push, List.cons_append]

theorem seek_of_headDepth {depth inside : Nat} {head : Text} (h : headDepth depth head = some inside)
    (after : Text) : seek depth (head ++ '{' :: after) = .block head inside after := by
  have brace : seek inside ('{' :: after) = .block [] inside after := by simp [seek]
  rw [seek_append h, brace, foldr_push_block, List.append_nil]

/-- A semicolon or a parenthesis outside all parentheses ends the statement. -/
theorem seek_of_ended {depth : Nat} {head : Text} (h : headDepth depth head = some 0) {c : Char}
    (ends : c = ';' ∨ c = ')') (rest : Text) :
    seek depth (head ++ c :: rest) = .none (head ++ [c]) rest := by
  have stop : seek 0 (c :: rest) = .none [c] rest := by
    rcases ends with rfl | rfl <;> simp [seek]
  rw [seek_append h, stop, foldr_push_none]

/-- In a head no block opens and nothing ends. -/
theorem seek_head {depth inside : Nat} {head : Text} (h : headDepth depth head = some inside) :
    seek depth head = .none head [] := by
  have passed := seek_append h []
  rwa [List.append_nil, seek, foldr_push_none, List.append_nil] at passed

/-- What the search for a block comes upon behind the longest head. -/
theorem seek_cases (depth : Nat) (t : Text) :
    (∃ inside, headDepth depth t = some inside ∧ seek depth t = .none t []) ∨
      (∃ head inside after, headDepth depth head = some inside ∧ t = head ++ '{' :: after ∧
        seek depth t = .block head inside after) ∨
      ∃ head c rest, headDepth depth head = some 0 ∧ (c = ';' ∨ c = ')') ∧
        t = head ++ c :: rest ∧ seek depth t = .none (head ++ [c]) rest := by
  obtain ⟨head, inside, h, rfl | ⟨c, rest, rfl, stop⟩⟩ := exists_headDepth depth t
  · exact Or.inl ⟨inside, h, seek_head h⟩
  · rcases headStep?_eq_none.1 stop with rfl | ⟨rfl, ends⟩
    · exact Or.inr (Or.inl ⟨head, inside, rest, h, rfl, seek_of_headDepth h rest⟩)
    · exact Or.inr (Or.inr ⟨head, c, rest, h, ends, rfl, seek_of_ended h ends rest⟩)

/-- The search for a block finds the first brace behind a head. -/
theorem seek_eq_block {depth inside : Nat} {t head after : Text} :
    seek depth t = .block head inside after ↔
      t = head ++ '{' :: after ∧ headDepth depth head = some inside := by
  constructor
  · intro h
    rcases seek_cases depth t with ⟨_, -, e⟩ | ⟨_, _, _, isHead, parts, e⟩ | ⟨_, _, _, -, -, -, e⟩
    · cases h.symm.trans e
    · cases h.symm.trans e
      exact ⟨parts, isHead⟩
    · cases h.symm.trans e
  · rintro ⟨rfl, h⟩
    exact seek_of_headDepth h after

/-- The search for a block finds none in a head, and none before the statement ends behind one. -/
theorem seek_eq_none {depth : Nat} {t taken rest : Text} :
    seek depth t = .none taken rest ↔
      ((∃ inside, headDepth depth t = some inside) ∧ taken = t ∧ rest = []) ∨
        ∃ head c, headDepth depth head = some 0 ∧ (c = ';' ∨ c = ')') ∧ taken = head ++ [c] ∧
          t = taken ++ rest := by
  constructor
  · intro h
    rcases seek_cases depth t with ⟨_, isHead, e⟩ | ⟨_, _, _, -, -, e⟩ | ⟨_, _, _, isHead, ends, parts, e⟩
    · cases h.symm.trans e
      exact Or.inl ⟨⟨_, isHead⟩, rfl, rfl⟩
    · cases h.symm.trans e
    · cases h.symm.trans e
      exact Or.inr ⟨_, _, isHead, ends, rfl, by rw [parts]; simp⟩
  · rintro (⟨⟨inside, h⟩, rfl, rfl⟩ | ⟨head, c, h, ends, rfl, rfl⟩)
    · exact seek_head h
    · rw [List.append_assoc]
      exact seek_of_ended h ends rest

/-- What follows the opening brace may be anything else. -/
theorem seek_block_swap {depth inside : Nat} {t head after : Text}
    (h : seek depth t = .block head inside after) (after' : Text) :
    seek depth (head ++ '{' :: after') = .block head inside after' :=
  seek_of_headDepth (seek_eq_block.1 h).2 after'

theorem seek_block_append {depth inside : Nat} {t head after : Text}
    (h : seek depth t = .block head inside after) (more : Text) :
    seek depth (t ++ more) = .block head inside (after ++ more) := by
  rw [seek_block_text h, List.append_assoc, List.cons_append]
  exact seek_block_swap h (after ++ more)

/-- What follows the end of a statement without block may be anything else. -/
theorem seek_none_swap {depth : Nat} {t head rest : Text} (h : seek depth t = .none head rest)
    (settled : settles depth head = true) (rest' : Text) :
    seek depth (head ++ rest') = .none head rest' := by
  rcases seek_eq_none.1 h with ⟨⟨inside, isHead⟩, rfl, -⟩ | ⟨front, c, isHead, ends, rfl, -⟩
  · rw [settles_of_headDepth isHead] at settled
    cases settled
  · exact seek_eq_none.2 (Or.inr ⟨front, c, isHead, ends, rfl, rfl⟩)

/-- Behind white space at the end of a text nothing new is found, but the text may go on there. -/
theorem seek_none_blank {depth : Nat} {t head more tail : Text} (h : seek depth t = .none head more)
    (blank : isBlankText tail = true) :
    seek depth (t ++ tail) = .none head (more ++ tail) ∨
      more = [] ∧ seek depth (t ++ tail) = .none (head ++ tail) [] := by
  rcases seek_eq_none.1 h with ⟨⟨inside, isHead⟩, rfl, rfl⟩ | ⟨front, c, isHead, ends, rfl, rfl⟩
  · have whole : headDepth depth (head ++ tail) = some inside := by
      rw [headDepth_append isHead, headDepth_of_blank blank]
    exact Or.inr ⟨rfl, seek_head whole⟩
  · exact Or.inl (seek_eq_none.2 (Or.inr ⟨front, c, isHead, ends, rfl, List.append_assoc ..⟩))

/-! ## The block -/

/-- What follows a block may be anything else. -/
theorem closeBlock_swap {t inner rest : Text} (h : Brace.closeBlock 0 t = .ok (inner, rest))
    (rest' : Text) : Brace.closeBlock 0 (inner ++ '}' :: rest') = .ok (inner, rest') :=
  Brace.closeBlock_eq_ok.2 ⟨rfl, (Brace.closeBlock_eq_ok.1 h).2⟩

/-! ## Ends -/

/-- The end of a statement behind its block: a closing parenthesis for each that is open and a
semicolon, white space before each. -/
def IsEnd : Nat → Text → Prop
  | 0, t => ∃ gap, isBlankText gap = true ∧ t = gap ++ [';']
  | parens + 1, t =>
      ∃ gap more, isBlankText gap = true ∧ IsEnd parens more ∧ t = gap ++ ')' :: more

theorem mem_isEnd {parens : Nat} {tail : Text} (h : IsEnd parens tail) {c : Char} (m : c ∈ tail) :
    isBlank c = true ∨ c = ')' ∨ c = ';' := by
  induction parens generalizing tail with
  | zero =>
      obtain ⟨gap, blank, rfl⟩ := h
      rcases List.mem_append.1 m with m | m
      · exact Or.inl (isBlankText_iff.1 blank c m)
      · exact Or.inr (Or.inr (List.mem_singleton.1 m))
  | succ parens ih =>
      obtain ⟨gap, more, blank, ends, rfl⟩ := h
      rcases List.mem_append.1 m with m | m
      · exact Or.inl (isBlankText_iff.1 blank c m)
      · rcases List.mem_cons.1 m with rfl | m
        · exact Or.inr (Or.inl rfl)
        · exact ih ends m

theorem IsEnd.last {parens : Nat} {tail : Text} (h : IsEnd parens tail) :
    tail.getLast? = some ';' := by
  induction parens generalizing tail with
  | zero =>
      obtain ⟨gap, -, rfl⟩ := h
      simp
  | succ parens ih =>
      obtain ⟨gap, more, -, ends, rfl⟩ := h
      rw [List.getLast?_append, List.getLast?_cons, ih ends]
      rfl

theorem afterEnd?_of_blank {parens : Nat} {t : Text} (h : trimStart t = []) :
    afterEnd? parens t = none := by
  cases parens <;> simp [afterEnd?, h]

theorem afterEnd?_zero_of_cons {t rest : Text} {c : Char} (h : trimStart t = c :: rest) :
    afterEnd? 0 t = if c = ';' then some rest else none := by
  rw [afterEnd?, h]
  split
  · rename_i e
    obtain ⟨rfl, rfl⟩ := List.cons.inj e
    rfl
  · rename_i other
    rw [if_neg fun e => other rest (by rw [e])]

theorem afterEnd?_succ_of_cons {parens : Nat} {t rest : Text} {c : Char}
    (h : trimStart t = c :: rest) :
    afterEnd? (parens + 1) t = if c = ')' then afterEnd? parens rest else none := by
  rw [afterEnd?, h]
  split
  · rename_i e
    obtain ⟨rfl, rfl⟩ := List.cons.inj e
    rfl
  · rename_i other
    rw [if_neg fun e => other rest (by rw [e])]

theorem afterEnd?_eq_some {parens : Nat} {t rest : Text} :
    afterEnd? parens t = some rest ↔ ∃ tail, IsEnd parens tail ∧ t = tail ++ rest := by
  induction parens generalizing t with
  | zero =>
      constructor
      · intro h
        cases e : trimStart t with
        | nil => simp [afterEnd?_of_blank e] at h
        | cons c more =>
            obtain ⟨gap, rfl, blank, -⟩ := trimStart_eq_cons e
            rw [afterEnd?_zero_of_cons e] at h
            split at h
            · rename_i ends
              obtain rfl := Option.some.inj h
              exact ⟨gap ++ [';'], ⟨gap, blank, rfl⟩, by simp [ends]⟩
            · cases h
      · rintro ⟨tail, ⟨gap, blank, rfl⟩, rfl⟩
        rw [List.append_assoc, List.singleton_append,
          afterEnd?_zero_of_cons (trimStart_gap blank (by decide) rest), if_pos rfl]
  | succ parens ih =>
      constructor
      · intro h
        cases e : trimStart t with
        | nil => simp [afterEnd?_of_blank e] at h
        | cons c more =>
            obtain ⟨gap, rfl, blank, -⟩ := trimStart_eq_cons e
            rw [afterEnd?_succ_of_cons e] at h
            split at h
            · rename_i closes
              obtain ⟨tail, ends, rfl⟩ := ih.1 h
              exact ⟨gap ++ ')' :: tail, ⟨gap, tail, blank, ends, rfl⟩, by simp [closes]⟩
            · cases h
      · rintro ⟨tail, ⟨gap, more, blank, ends, rfl⟩, rfl⟩
        rw [List.append_assoc, List.cons_append,
          afterEnd?_succ_of_cons (trimStart_gap blank (by decide) (more ++ rest)), if_pos rfl]
        exact ih.2 ⟨more, ends, rfl⟩

/-- What follows the end of a statement, which is a semicolon, may be anything else. -/
theorem afterEnd?_swap {parens : Nat} {t rest : Text} (h : afterEnd? parens t = some rest) :
    ∃ tail, t = tail ++ rest ∧ tail.getLast? = some ';' ∧
      ∀ rest', afterEnd? parens (tail ++ rest') = some rest' := by
  obtain ⟨tail, isEnd, parts⟩ := afterEnd?_eq_some.1 h
  exact ⟨tail, parts, isEnd.last, fun rest' => afterEnd?_eq_some.2 ⟨tail, isEnd, rfl⟩⟩

/-- What a statement could still end with. -/
def MayEnd (t : Text) : Prop :=
  (trimStart t).head? = some ')' ∨ (trimStart t).head? = some ';'

theorem not_mayEnd_of_blank {t : Text} (blank : isBlankText t = true) : ¬ MayEnd t := by
  have none_ : trimStart t = [] := by
    have trimmed := trimStart_append_of_blank blank []
    rwa [List.append_nil] at trimmed
  simp [MayEnd, none_]

/-- Where the end of a statement reaches into a text, the text starts with something that statements
end with. -/
theorem IsEnd.mayEnd {parens : Nat} {s t : Text} (h : IsEnd parens (s ++ t)) (some_ : t ≠ [])
    (rest : Text) : MayEnd (t ++ rest) := by
  cases e : trimStart t with
  | nil =>
      have last := h.last
      rw [List.getLast?_append, List.getLast?_eq_some_getLast some_, Option.some_or,
        ← List.getLast?_eq_some_getLast some_] at last
      exact absurd (List.mem_of_getLast? last)
        (not_mem_of_isBlankText (trimStart_eq_nil e) (by decide))
  | cons c more =>
      obtain ⟨gap, rfl, blank, inked⟩ := trimStart_eq_cons e
      rw [List.append_assoc, List.cons_append, MayEnd, trimStart_gap blank inked, List.head?_cons]
      rcases mem_isEnd h (c := c) (by simp) with white | rfl | rfl
      · rw [inked] at white
        cases white
      · exact Or.inl rfl
      · exact Or.inr rfl

/-- A statement that goes on after its block still does when the text goes on with something that
no statement ends with. -/
theorem afterEnd?_none_append {parens : Nat} {t more : Text} (h : afterEnd? parens t = none)
    (other : ¬ MayEnd more) : afterEnd? parens (t ++ more) = none := by
  have absent {tail rest : Text} (isEnd : IsEnd parens tail) (parts : t = tail ++ rest) : False := by
    rw [afterEnd?_eq_some.2 ⟨tail, isEnd, parts⟩] at h
    cases h
  cases found : afterEnd? parens (t ++ more) with
  | none => rfl
  | some rest =>
      obtain ⟨tail, isEnd, parts⟩ := afterEnd?_eq_some.1 found
      rcases List.append_eq_append_iff.1 parts with ⟨x, rfl, rfl⟩ | ⟨x, rfl, -⟩
      · by_cases here : x = []
        · rw [here, List.append_nil] at isEnd
          exact (absent isEnd (List.append_nil t).symm).elim
        · exact absurd (isEnd.mayEnd here rest) other
      · exact (absent isEnd rfl).elim

end Regraft.Entity
