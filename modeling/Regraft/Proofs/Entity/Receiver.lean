import Regraft.Proofs.Entity.Shape
import Regraft.Proofs.Entity.Splice
import Regraft.Proofs.Extraction

/-!
# Regraft.Proofs.Entity.Receiver -- the names in front of an anchor

The anchor of a builder is found at the end of a longer name too: what stands in front of a found
anchor may be any word characters (`blocks_receiver`).  So the statements of another builder stay
exactly where its name does not end in the name of the first, whatever the case.
-/

namespace Regraft.Entity

set_option autoImplicit false

open Text

variable {token param builder : Text}

/-! ## Bodies that stay -/

theorem solid_betweenOf_le (segs : List Segment) :
    (solid (betweenOf segs)).length ≤ (solid (textOf segs)).length := by
  induction segs with
  | nil => exact Nat.le_refl _
  | cons seg more ih =>
      have first : (solid seg.between).length ≤ (solid seg.text).length := by
        cases seg with
        | statement before s => simp [Segment.between, Segment.text]
        | _ => exact Nat.le_refl _
      rw [betweenOf, List.flatMap_cons, textOf_cons, solid_append, solid_append, List.length_append,
        List.length_append]
      exact Nat.add_le_add first ih

/-- A statement has solid characters, its braces for one. -/
theorem isQuiet_of_solid {segs : List Segment}
    (same : (solid (textOf segs)).length ≤ (solid (betweenOf segs)).length) :
    ∀ seg ∈ segs, IsQuiet seg := by
  induction segs with
  | nil => simp
  | cons seg more ih =>
      have rest := solid_betweenOf_le more
      rw [betweenOf, List.flatMap_cons, textOf_cons, solid_append, solid_append, List.length_append,
        List.length_append, ← betweenOf] at same
      cases seg with
      | statement before s =>
          have brace : '{' ∈ solid s.text :=
            mem_solid.2 ⟨by simp [Statement.text], by decide⟩
          have := List.length_pos_of_mem brace
          simp only [Segment.between, Segment.text, solid_append, List.length_append] at same
          omega
      | _ =>
          intro seg m
          rcases List.mem_cons.1 m with rfl | m
          · simp [IsQuiet]
          · exact ih (by simp only [Segment.between, Segment.text] at same; omega) seg m

/-- Stripping leaves a body as it is exactly where it finds nothing. -/
theorem strip_eq_self_iff {body : Text} :
    strip token body = .ok body ↔ blocks token body = .ok [] := by
  constructor
  · intro done
    obtain ⟨bs, found, same⟩ := solid_strip done
    obtain ⟨-, rfl⟩ := blocks_eq_ok.1 found
    have between := outside_blocksFrom 0 (segments token body)
    rw [segments_text] at between
    rw [between] at same
    rw [found, blocksFrom_eq_nil.2 (isQuiet_of_solid ?_)]
    rw [segments_text, same]
  · exact strip_of_no_block

/-! ## Names that end in another -/

def EndsIn (t name : Text) : Prop :=
  ∃ front found, t = front ++ found ∧ Alike name found

/-- What stands in front of a separator does not matter. -/
theorem endsIn_separated {s t name : Text} {c : Char} (caseless : IsCaseless c) (notIn : c ∉ name)
    (ends : EndsIn (s ++ c :: t) name) : EndsIn t name := by
  obtain ⟨front, found, e, alike⟩ := ends
  have absent : c ∉ found := fun m => notIn ((alike.caseless_mem caseless).2 m)
  have e' : s ++ c :: t = front ++ found ++ [] := by rw [e, List.append_nil]
  rcases append_separated e' absent with ⟨back, h⟩ | ⟨front', -, h⟩
  · have := congrArg List.length e
    rw [h] at this
    simp only [List.length_append, List.length_cons] at this
    omega
  · exact ⟨front', found, by simpa using h, alike⟩

theorem endsIn_append_same {t name last : Text} :
    EndsIn (t ++ last) (name ++ last) ↔ EndsIn t name := by
  constructor
  · rintro ⟨front, found, e, alike⟩
    obtain ⟨a, b, rfl, ha, hb⟩ := alike_append.1 alike
    rw [← List.append_assoc] at e
    obtain ⟨rfl, -⟩ := List.append_inj' e hb.length_eq
    exact ⟨front, a, rfl, ha⟩
  · rintro ⟨front, found, rfl, alike⟩
    exact ⟨front, found ++ last, by simp, alike_append.2 ⟨found, last, rfl, alike, .refl last⟩⟩

theorem exists_word_end (t : Text) :
    ∃ front word, t = front ++ word ∧ (∀ c ∈ word, isWord c = true) ∧
      ∀ c, front.getLast? = some c → isWord c = false := by
  refine ⟨(t.reverse.dropWhile isWord).reverse, (t.reverse.takeWhile isWord).reverse, ?_, ?_, ?_⟩
  · rw [← List.reverse_append, List.takeWhile_append_dropWhile, List.reverse_reverse]
  · intro c m
    exact List.mem_takeWhile_imp (List.mem_reverse.1 m)
  · intro c last
    have := List.head?_dropWhile_not isWord t.reverse
    rw [List.getLast?_reverse] at last
    simpa [last] using this

/-! ## Places without anchor -/

/-- An anchor up to its angle bracket. -/
def stem (param : Text) : Text :=
  param ++ ".Entity".toList

theorem anchor_eq (param : Text) : anchor param = stem param ++ ['<'] := by
  simp [anchor, stem]

theorem not_mem_stem (words : ∀ c ∈ param, isWord c = true) {c : Char} (notWord : isWord c = false)
    (other : c ∉ ".Entity".toList) : c ∉ stem param := by
  intro m
  rcases List.mem_append.1 m with m | m
  · rw [words c m] at notWord
    cases notWord
  · exact other m

theorem alike_anchor {found : Text} :
    Alike (anchor param) found ↔ ∃ before, found = before ++ ['<'] ∧ Alike (stem param) before := by
  rw [anchor_eq, alike_append]
  constructor
  · rintro ⟨before, last, rfl, alike, bracket⟩
    cases last with
    | nil => exact bracket.elim
    | cons c last =>
        obtain rfl := eq_of_foldEq bracket.1 (Or.inl isCaseless_angle)
        rw [← List.eq_nil_of_length_eq_zero bracket.2.length_eq.symm]
        exact ⟨before, rfl, alike⟩
  · rintro ⟨before, rfl, alike⟩
    exact ⟨before, ['<'], rfl, alike, .refl _⟩

/-- There is an anchor exactly where a text ends in the rest of it in front of an angle bracket. -/
theorem cutAnchor?_none_iff {t : Text} :
    cutAnchor? (anchor param) t = none ↔
      ∀ above below, t = above ++ '<' :: below → ¬ EndsIn above (stem param) := by
  rw [cutAnchor?_eq_none]
  constructor
  · rintro absent above below rfl ⟨front, found, rfl, alike⟩
    exact absent front (found ++ ['<']) below (alike_anchor.2 ⟨found, rfl, alike⟩) (by simp)
  · intro absent front found back alike e
    obtain ⟨before, rfl, alikeBefore⟩ := alike_anchor.1 alike
    exact absent (front ++ before) back (by rw [e]; simp) ⟨front, before, rfl, alikeBefore⟩

theorem cutAnchor?_of_no_angle {t : Text} (absent : '<' ∉ t) :
    cutAnchor? (anchor param) t = none := by
  refine cutAnchor?_none_iff.2 fun above below e _ => absent ?_
  rw [e]
  simp

/-- No anchor lies across a separator, unless the separator is the angle bracket it ends with. -/
theorem cutAnchor?_none_separated {s t : Text} {c : Char} (caseless : IsCaseless c)
    (notIn : c ∉ stem param) (hs : cutAnchor? (anchor param) s = none)
    (ht : cutAnchor? (anchor param) t = none) (bracket : c = '<' → ¬ EndsIn s (stem param)) :
    cutAnchor? (anchor param) (s ++ c :: t) = none := by
  rw [cutAnchor?_none_iff] at hs ht ⊢
  intro above below e ends
  rcases List.append_eq_append_iff.1 e with ⟨more, rfl, tails⟩ | ⟨more, rfl, tails⟩
  · cases more with
    | nil =>
        obtain ⟨isAngle, -⟩ := List.cons.inj tails
        rw [List.append_nil] at ends
        exact bracket isAngle ends
    | cons d more =>
        obtain ⟨rfl, rfl⟩ := List.cons.inj tails
        exact ht more below rfl (endsIn_separated caseless notIn ends)
  · cases more with
    | nil =>
        obtain ⟨isAngle, -⟩ := List.cons.inj tails
        rw [List.append_nil] at bracket
        exact bracket isAngle.symm ends
    | cons d more =>
        obtain ⟨rfl, rfl⟩ := List.cons.inj tails
        exact hs above more rfl ends

theorem cutAnchor?_none_gap {gap t : Text} (inked : Inked token) (blank : isBlankText gap = true)
    (free : cutAnchor? token t = none) : cutAnchor? token (gap ++ t) = none := by
  by_cases none_ : gap = []
  · rw [none_]
    exact free
  · have behind := cutAnchor?_separated (t := t) inked (cutAnchor?_nil inked) none_ blank
    rw [List.nil_append, free] at behind
    exact behind

/-! ## The statements of another builder -/

/-- An entity statement on a builder, without anchor of `param` in its head and its block. -/
structure Statement.IsOn (builder param : Text) (s : Statement) : Prop where
  anchor : s.anchor = Entity.anchor builder
  shaped : s.Shaped (Entity.anchor builder)
  head : cutAnchor? (Entity.anchor param) s.head = none
  inner : cutAnchor? (Entity.anchor param) s.inner = none

/-- Statements, each behind some white space. -/
def spaced (stmts : List (Text × Statement)) : Text :=
  stmts.flatMap fun x => x.1 ++ x.2.text

/-- A statement on a builder whose name does not end in `param` has no anchor of `param`. -/
theorem Statement.IsOn.free {s : Statement} (on : s.IsOn builder param)
    (words : ∀ c ∈ param, isWord c = true) (named : ∀ c ∈ builder, isWord c = true)
    (other : ¬ EndsIn builder param) {more : Text}
    (free : cutAnchor? (Entity.anchor param) more = none) :
    cutAnchor? (Entity.anchor param) (s.text ++ more) = none := by
  obtain ⟨depth, -, ends⟩ := on.shaped.ends
  obtain ⟨tail, last⟩ := List.getLast?_eq_some_iff.1 ends.last
  have text : s.text ++ more = stem builder ++ '<' ::
      (s.head ++ '{' :: (s.inner ++ '}' :: (tail ++ ';' :: more))) := by
    simp [Statement.text, on.anchor, anchor_eq, last]
  have noAngle : '<' ∉ tail := by
    intro m
    rcases mem_isEnd ends (by rw [last]; simp [m] : '<' ∈ s.tail) with blank | e | e
    · revert blank
      decide
    · simp at e
    · simp at e
  have apart {c : Char} (notWord : isWord c = false) (symbol : c ∉ ".Entity".toList) :
      c ∉ stem param := not_mem_stem words notWord symbol
  rw [text]
  refine cutAnchor?_none_separated isCaseless_angle (apart (by decide) (by decide))
    (cutAnchor?_of_no_angle (not_mem_stem named (by decide) (by decide))) ?_
    fun _ ends => other (endsIn_append_same.1 ends)
  refine cutAnchor?_none_separated isCaseless_open (apart (by decide) (by decide)) on.head ?_ (by simp)
  refine cutAnchor?_none_separated isCaseless_close (apart (by decide) (by decide)) on.inner ?_
    (by simp)
  exact cutAnchor?_none_separated isCaseless_semicolon (apart (by decide) (by decide))
    (cutAnchor?_of_no_angle noAngle) free (by simp)

theorem spaced_free {stmts : List (Text × Statement)} {gap : Text}
    (words : ∀ c ∈ param, isWord c = true) (named : ∀ c ∈ builder, isWord c = true)
    (other : ¬ EndsIn builder param)
    (on : ∀ x ∈ stmts, isBlankText x.1 = true ∧ x.2.IsOn builder param)
    (blank : isBlankText gap = true) : cutAnchor? (anchor param) (spaced stmts ++ gap) = none := by
  induction stmts with
  | nil => exact cutAnchor?_of_blank (inked_anchor words) blank
  | cons x stmts ih =>
      have here := on x List.mem_cons_self
      have later := ih fun x m => on x (List.mem_cons_of_mem _ m)
      rw [spaced, List.flatMap_cons, List.append_assoc, List.append_assoc]
      exact cutAnchor?_none_gap (inked_anchor words) here.1 (here.2.free words named other later)

/-- The first place of a character comes before every other. -/
theorem length_le_of_first {a b x y : Text} {c : Char} (e : a ++ c :: x = b ++ c :: y) (ha : c ∉ a) :
    a.length ≤ b.length := by
  rcases List.append_eq_append_iff.1 e with ⟨more, rfl, -⟩ | ⟨more, rfl, tails⟩
  · simp
  · cases more with
    | nil => simp
    | cons d more =>
        obtain ⟨rfl, -⟩ := List.cons.inj tails
        simp at ha

/-- A statement on a builder whose name ends in `param` is read from there. -/
theorem Statement.IsOn.segments_eq {s : Statement} (on : s.IsOn builder param)
    (named : ∀ c ∈ builder, isWord c = true) {gap front found more : Text}
    (blank : isBlankText gap = true) (e : builder = front ++ found) (alike : Alike param found) :
    segments (Entity.anchor param) (gap ++ s.text ++ more) =
      .statement (gap ++ front) { s with anchor := Entity.anchor found } ::
        segments (Entity.anchor param) more := by
  have shaped : Statement.Shaped (Entity.anchor param) { s with anchor := Entity.anchor found } :=
    ⟨alike_append.2 ⟨found, _, rfl, alike, .refl _⟩, on.shaped.closed, on.shaped.ends⟩
  have text : gap ++ s.text ++ more =
      gap ++ front ++ Statement.text { s with anchor := Entity.anchor found } ++ more := by
    simp [Statement.text, on.anchor, Entity.anchor, e]
  rw [text]
  refine shaped.segments_eq (cutAnchor?_eq_some.2 ⟨by simp [Statement.text], shaped.anchor, ?_⟩)
  intro front' found' back alike' same
  obtain ⟨before, rfl, alikeBefore⟩ := alike_anchor.1 alike'
  -- the first angle bracket is that of the statement, and each anchor ends with one
  have noAngle : '<' ∉ gap ++ stem builder := by
    intro m
    rcases List.mem_append.1 m with m | m
    · exact not_mem_of_isBlankText blank (by decide) m
    · exact not_mem_stem named (by decide) (by decide) m
  have angles : gap ++ stem builder ++ '<' :: (s.head ++ '{' :: (s.inner ++ '}' :: (s.tail ++ more))) =
      front' ++ before ++ '<' :: back := by
    rw [← text] at same
    simpa [Statement.text, on.anchor, anchor_eq] using same
  have first := length_le_of_first angles noAngle
  have long := alikeBefore.length_eq
  have long' := alike.length_eq
  simp only [stem, e, List.length_append] at first long ⊢
  omega

/-- What is found has the parameter in front of `.Entity<`, in any case and at the end of a name that
may be longer.  Statements on a builder stay exactly where its name does not end in the parameter. -/
theorem blocks_receiver (words : ∀ c ∈ param, isWord c = true)
    (named : ∀ c ∈ builder, isWord c = true) :
    (∀ body bs, blocks (anchor param) body = .ok bs → ∀ b ∈ bs,
      ∃ front word found dot back, body = front ++ word ++ found ++ dot ++ back ∧
        b.anchorStart = (front ++ word).length ∧ (∀ c ∈ word, isWord c = true) ∧
        (∀ c, front.getLast? = some c → isWord c = false) ∧
        Alike param found ∧ Alike ".Entity<".toList dot) ∧
      ∀ stmts gap, stmts ≠ [] →
        (∀ x ∈ stmts, isBlankText x.1 = true ∧ x.2.IsOn builder param) →
        isBlankText gap = true →
        (strip (anchor param) (spaced stmts ++ gap) = .ok (spaced stmts ++ gap) ↔
          ¬ EndsIn builder param) := by
  constructor
  · intro body bs found b m
    obtain ⟨above, s, below, rfl, shaped, rfl⟩ := shaped_of_mem_blocks found m
    obtain ⟨name, dot, split, alike, dotAlike⟩ := alike_append.1 shaped.anchor
    obtain ⟨front, word, rfl, wordAll, whole⟩ := exists_word_end above
    refine ⟨front, word, name, dot, s.head ++ '{' :: s.inner ++ '}' :: s.tail ++ below, ?_, rfl,
      wordAll, whole, alike, dotAlike⟩
    simp [Statement.text, split]
  · intro stmts gap some_ on blank
    rw [strip_eq_self_iff]
    constructor
    · rintro found ⟨front, name, e, alike⟩
      cases stmts with
      | nil => exact some_ rfl
      | cons x stmts =>
          obtain ⟨spaceBlank, here⟩ := on x List.mem_cons_self
          have first : segments (anchor param) (x.1 ++ x.2.text ++ (spaced stmts ++ gap)) = _ :=
            here.segments_eq named spaceBlank e alike
          rw [spaced, List.flatMap_cons, List.append_assoc, ← spaced] at found
          obtain ⟨-, none_⟩ := blocks_eq_ok.1 found
          rw [first, blocksFrom] at none_
          cases none_
    · intro other
      have none_ := spaced_free words named other on blank
      have rest : segments (anchor param) (spaced stmts ++ gap) = [.rest (spaced stmts ++ gap)] :=
        (Scan.rest none_).segments_eq (inked_anchor words)
      exact blocks_eq_ok.2 (by rw [rest]; exact ⟨rfl, rfl⟩)

def builderStatement : Statement where
  anchor := "builder.Entity<".toList
  head := "Foo>(e => ".toList
  inner := [' ']
  tail := [')', ';']

theorem blocks_receiver_builder :
    strip (anchor "modelBuilder".toList) "builder.Entity<Foo>(e => \x7b \x7d);\n".toList =
      .ok "builder.Entity<Foo>(e => \x7b \x7d);\n".toList := by
  have on : builderStatement.IsOn "builder".toList "modelBuilder".toList :=
    { anchor := rfl
      shaped := ⟨.refl _, by decide, 1, by decide, [], [';'], rfl, ⟨[], rfl, rfl⟩, rfl⟩
      head := by decide
      inner := by decide }
  have other : ¬ EndsIn "builder".toList "modelBuilder".toList := by
    rintro ⟨front, found, e, alike⟩
    have short := congrArg List.length e
    rw [List.length_append, ← alike.length_eq] at short
    have longer : "builder".toList.length < "modelBuilder".toList.length := by decide
    omega
  have words : "modelBuilder".toList.all isWord = true := by decide
  have named : "builder".toList.all isWord = true := by decide
  have stays := (blocks_receiver (List.all_eq_true.1 words) (List.all_eq_true.1 named)).2
  exact (stays [([], builderStatement)] ['\n'] (by simp) (by simpa using on) rfl).2 other

/-- A statement on `mb` is taken for one on `b`: it goes, up to the first letter of the name. -/
theorem blocks_receiver_longer :
    ∃ b : Block, blocks (anchor ['b']) "mb.Entity<Blog>(e => \x7b \x7d);\n".toList = .ok [b] ∧
      b.anchorStart = 1 ∧ isWord 'm' = true ∧ ¬ Alike ['b'] ['m', 'b'] ∧
      strip (anchor ['b']) "mb.Entity<Blog>(e => \x7b \x7d);\n".toList = .ok ['m', '\n'] := by
  refine ⟨⟨1, 10, 21, 23, 26⟩, by decide +kernel, rfl, by decide, fun h => h.2, by decide +kernel⟩

end Regraft.Entity
