import Mathlib.Data.List.Basic
import Regraft.Text.Basic

/-!
# Regraft.Proofs.Text.Cut -- where a literal stands, and where lines start

`cutAt?` finds the first place of a literal and nothing else (`cutAt?_eq_none`, `cutAt?_eq_some`).
A literal without a separator lies on one side of the separator (`infix_separated`), and where none
is cut in two by the end of a text, each lies in that text or behind it (`Unsplit.sides`).
`splitLastLine` is the one cut whose second part has no line feed and whose first part ends with
one (`splitLastLine_eq`).
-/

namespace Regraft.Text

set_option autoImplicit false

theorem after?_eq_none {needle t : Text} : after? needle t = none ↔ ¬ needle <+: t := by
  constructor
  · rintro h ⟨rest, rfl⟩
    simp at h
  · intro h
    cases e : after? needle t with
    | none => rfl
    | some rest => exact absurd ⟨rest, (after?_eq_some.1 e).symm⟩ h

theorem cutAt?_eq_none {needle t : Text} : cutAt? needle t = none ↔ ¬ needle <:+: t := by
  induction t with
  | nil => simp [cutAt?, after?_eq_none]
  | cons c t ih =>
      simp only [cutAt?, List.infix_cons_iff, not_or]
      cases e : after? needle (c :: t) with
      | some rest =>
          have stands : needle <+: c :: t := ⟨rest, (after?_eq_some.1 e).symm⟩
          simp [stands]
      | none => simp [after?_eq_none.1 e, ih]

/-- Nothing before the first place of a literal is a place of it. -/
theorem cutAt?_first {needle t before rest front back : Text}
    (h : cutAt? needle t = some (before, rest)) (e : t = front ++ needle ++ back) :
    before.length ≤ front.length := by
  induction t generalizing before front with
  | nil =>
      have := congrArg List.length (cutAt?_append h)
      simp only [List.length_nil, List.length_append] at this
      omega
  | cons c t ih =>
      simp only [cutAt?] at h
      split at h
      · simp only [Option.some.injEq, Prod.mk.injEq] at h
        simp [← h.1]
      · rename_i absent
        simp only [Option.map_eq_some_iff, Prod.mk.injEq, Prod.exists] at h
        obtain ⟨b, r, found, rfl, rfl⟩ := h
        cases front with
        | nil => exact absurd ⟨back, by simpa using e.symm⟩ (after?_eq_none.1 absent)
        | cons d front =>
            simp only [List.cons_append, List.cons.injEq] at e
            have := ih found e.2
            simp only [List.length_cons]
            omega

theorem cutAt?_eq_some {needle t before rest : Text} :
    cutAt? needle t = some (before, rest) ↔
      t = before ++ needle ++ rest ∧
        ∀ front back, t = front ++ needle ++ back → before.length ≤ front.length := by
  constructor
  · intro h
    exact ⟨cutAt?_append h, fun front back e => cutAt?_first h e⟩
  · rintro ⟨e, first⟩
    cases found : cutAt? needle t with
    | none => exact absurd ⟨before, rest, e.symm⟩ (cutAt?_eq_none.1 found)
    | some cut =>
        obtain ⟨b, r⟩ := cut
        have e' := cutAt?_append found
        have same : b.length = before.length :=
          Nat.le_antisymm (cutAt?_first found e) (first b r e')
        rw [e, List.append_assoc, List.append_assoc] at e'
        obtain ⟨rfl, tails⟩ := List.append_inj e' same.symm
        rw [List.append_cancel_left tails]

/-- What is added behind a text does not move the first place of a literal in it. -/
theorem cutAt?_extend {needle t before rest : Text} (h : cutAt? needle t = some (before, rest))
    (more : Text) : cutAt? needle (t ++ more) = some (before, rest ++ more) := by
  have parts := cutAt?_append h
  refine cutAt?_eq_some.2 ⟨by rw [parts]; simp, fun front back e => Nat.le_of_not_lt fun short => ?_⟩
  have within : front ++ needle <+: t := by
    refine List.prefix_of_prefix_length_le ⟨back, e.symm⟩ (List.prefix_append t more) ?_
    rw [parts]
    simp only [List.length_append]
    omega
  obtain ⟨back', whole⟩ := within
  have := cutAt?_first h whole.symm
  omega

/-- A text up to the first place of a character, and what follows it. -/
theorem cutAt?_char {c : Char} {t before rest : Text} :
    cutAt? [c] t = some (before, rest) ↔ t = before ++ c :: rest ∧ c ∉ before := by
  rw [cutAt?_eq_some]
  constructor
  · rintro ⟨e, first⟩
    refine ⟨by simpa using e, fun m => ?_⟩
    obtain ⟨front, back, rfl⟩ := List.append_of_mem m
    have := first front (back ++ [c] ++ rest) (by simp [e])
    simp only [List.length_append, List.length_cons] at this
    omega
  · rintro ⟨rfl, absent⟩
    refine ⟨by simp, fun front back e => ?_⟩
    refine Nat.le_of_not_lt fun short => absent ?_
    have e' : before ++ c :: rest = front ++ c :: back := by simpa using e
    rcases List.append_eq_append_iff.1 e' with ⟨more, rfl, _⟩ | ⟨more, rfl, tails⟩
    · simp only [List.length_append] at short
      omega
    · cases more with
      | nil => simp at short
      | cons d more =>
          simp only [List.cons_append, List.cons.injEq] at tails
          simp [tails.1]

/-- A text comes apart at the first place of a character in one way. -/
theorem append_char_inj {c : Char} {a b x y : Text} (e : a ++ c :: x = b ++ c :: y) (ha : c ∉ a)
    (hb : c ∉ b) : a = b ∧ x = y := by
  have cut : cutAt? [c] (a ++ c :: x) = some (a, x) := cutAt?_char.2 ⟨rfl, ha⟩
  have cut' : cutAt? [c] (a ++ c :: x) = some (b, y) := cutAt?_char.2 ⟨e, hb⟩
  rw [cut] at cut'
  simpa using cut'

/-- Of two cuts of a text the later one cuts what is behind the other. -/
theorem append_of_length_le {s t x y : Text} (e : s ++ t = x ++ y) (le : s.length ≤ x.length) :
    ∃ more, x = s ++ more ∧ t = more ++ y := by
  rcases List.append_eq_append_iff.1 e with ⟨more, rfl, rfl⟩ | ⟨more, rfl, rfl⟩
  · exact ⟨more, rfl, rfl⟩
  · obtain rfl : more = [] := by
      rw [List.length_append] at le
      exact List.eq_nil_of_length_eq_zero (by omega)
    exact ⟨[], by rw [List.append_nil, List.append_nil], rfl⟩

/-- A part of a text that does not hold a separator lies on one side of it. -/
theorem append_separated {s t front part back : Text} {c : Char}
    (e : s ++ c :: t = front ++ part ++ back) (absent : c ∉ part) :
    (∃ back', s = front ++ part ++ back') ∨
      ∃ front', front = s ++ c :: front' ∧ t = front' ++ part ++ back := by
  rcases List.append_eq_append_iff.1 e with ⟨more, left, right⟩ | ⟨more, left, right⟩
  · cases more with
    | nil => exact Or.inl ⟨[], by simpa using left.symm⟩
    | cons d more =>
        obtain ⟨rfl, right⟩ := List.cons.inj right
        rcases List.append_eq_append_iff.1 left with ⟨inPart, -, rfl⟩ | ⟨inFront, rfl, h⟩
        · simp at absent
        · cases inFront with
          | nil =>
              rw [List.nil_append] at h
              simp [← h] at absent
          | cons d front' =>
              obtain ⟨rfl, rfl⟩ := List.cons.inj h
              exact Or.inr ⟨front', rfl, by simpa using right⟩
  · exact Or.inl ⟨more, left⟩

/-- A literal without a separator stands on one side of the separator. -/
theorem infix_separated {needle s t : Text} {c : Char} (absent : c ∉ needle) :
    needle <:+: s ++ c :: t ↔ needle <:+: s ∨ needle <:+: t := by
  constructor
  · rintro ⟨front, back, e⟩
    rcases append_separated e.symm absent with ⟨back', h⟩ | ⟨front', -, h⟩
    · exact Or.inl ⟨front, back', h.symm⟩
    · exact Or.inr ⟨front', back, h.symm⟩
  · rintro (h | h)
    · exact h.trans List.infix_append_left
    · exact (List.infix_cons h).trans List.infix_append_right

/-! ## Texts that nothing is cut in two by -/

/-- Whether nothing of a kind begins in a text and ends behind it. -/
def Unsplit (kind : Text → Prop) (t : Text) : Prop :=
  ∀ x y, x <:+ t → x ≠ [] → y ≠ [] → ¬ kind (x ++ y)

namespace Unsplit

variable {kind : Text → Prop} {s t u : Text}

theorem suffix (h : Unsplit kind t) (tail : s <:+ t) : Unsplit kind s :=
  fun x y ends => h x y (ends.trans tail)

/-- A text without what a kind starts with. -/
theorem of_head (starts : ∀ u, kind u → ∀ c, u.head? = some c → c ∉ t) : Unsplit kind t := by
  intro x y tail some_ _ isKind
  obtain ⟨c, x, rfl⟩ := List.exists_cons_of_ne_nil some_
  exact starts _ isKind c rfl (tail.subset List.mem_cons_self)

/-- A text that ends in what a kind may only end in. -/
theorem of_last {c : Char} (last : t.getLast? = some c) (ends : ∀ x y, kind (x ++ c :: y) → y = []) :
    Unsplit kind t := by
  intro x y tail some_ more isKind
  obtain ⟨front, rfl⟩ := tail
  obtain ⟨d, hd⟩ := Option.isSome_iff_exists.1 (List.getLast?_isSome.2 some_)
  rw [List.getLast?_append, hd, Option.some_or, Option.some.injEq] at last
  obtain ⟨x', rfl⟩ := List.getLast?_eq_some_iff.1 (last ▸ hd)
  rw [List.append_assoc, List.singleton_append] at isKind
  exact more (ends _ _ isKind)

/-- What is of the kind lies in the text, or behind it. -/
theorem sides {front back : Text} (h : Unsplit kind s) (isKind : kind u) (some_ : u ≠ [])
    (e : s ++ t = front ++ u ++ back) :
    (∃ back', s = front ++ u ++ back') ∨
      ∃ front', front = s ++ front' ∧ t = front' ++ u ++ back := by
  rcases List.append_eq_append_iff.1 e with ⟨more, left, right⟩ | ⟨more, left, -⟩
  · rcases List.append_eq_append_iff.1 left with ⟨x, rfl, rfl⟩ | ⟨x, rfl, rfl⟩
    · -- the text ends in what is of the kind
      cases x with
      | nil => exact Or.inr ⟨[], by simp, by simpa using right⟩
      | cons c x =>
          cases more with
          | nil => exact Or.inl ⟨[], by simp⟩
          | cons d more =>
              exact absurd isKind (h _ _ (List.suffix_append ..) (List.cons_ne_nil c x)
                (List.cons_ne_nil d more))
    · exact Or.inr ⟨x, rfl, right⟩
  · exact Or.inl ⟨more, left⟩

/-- If two texts are cut by nothing of a kind, one behind the other they are not. -/
theorem append (hs : Unsplit kind s) (ht : Unsplit kind t) : Unsplit kind (s ++ t) := by
  rintro x y ⟨front, e⟩ some_ more isKind
  rcases List.append_eq_append_iff.1 e with ⟨x', rfl, rfl⟩ | ⟨x', -, rfl⟩
  · cases x' with
    | nil => exact ht t y List.suffix_rfl (by simpa using some_) more (by simpa using isKind)
    | cons c x' =>
        rw [List.append_assoc] at isKind
        exact hs _ _ (List.suffix_append ..) (List.cons_ne_nil c x') (by simp [more]) isKind
  · exact ht x y (List.suffix_append ..) some_ more isKind

end Unsplit

theorem Unsplit.infix_right {needle s t : Text} (h : Unsplit (· = needle) s) (some_ : needle ≠ [])
    (absent : ¬ needle <:+: s) : needle <:+: s ++ t ↔ needle <:+: t := by
  refine ⟨?_, fun inside => inside.trans List.infix_append_right⟩
  rintro ⟨front, back, e⟩
  rcases h.sides rfl some_ e.symm with ⟨back', here⟩ | ⟨front', -, later⟩
  · exact absurd ⟨front, back', here.symm⟩ absent
  · exact ⟨front', back, later.symm⟩

/-- The first place of a literal lies behind a text without it. -/
theorem Unsplit.cutAt?_right {needle s t before rest : Text} (h : Unsplit (· = needle) s)
    (some_ : needle ≠ []) (absent : ¬ needle <:+: s) (cut : cutAt? needle t = some (before, rest)) :
    cutAt? needle (s ++ t) = some (s ++ before, rest) := by
  refine cutAt?_eq_some.2 ⟨by rw [cutAt?_append cut]; simp, fun front back e => ?_⟩
  rcases h.sides rfl some_ e with ⟨back', here⟩ | ⟨front', rfl, later⟩
  · exact absurd ⟨front, back', here.symm⟩ absent
  · have := cutAt?_first cut later
    simp only [List.length_append]
    omega

/-! ## Lines -/

/-- Whether a place is the start of a line, the text before it being given. -/
def AtLineStart (above : Text) : Prop :=
  above = [] ∨ above.getLast? = some '\n'

instance (above : Text) : Decidable (AtLineStart above) :=
  inferInstanceAs (Decidable (_ ∨ _))

theorem AtLineStart.right {s t : Text} (h : AtLineStart (s ++ t)) : AtLineStart t := by
  cases t with
  | nil => exact Or.inl rfl
  | cons c t =>
      rcases h with none_ | feed
      · simp at none_
      · exact Or.inr (by rwa [List.getLast?_append_cons] at feed)

theorem AtLineStart.getLast?_or {above : Text} (start : AtLineStart above) :
    above.getLast?.or none = none ∨ above.getLast?.or none = some '\n' := by
  rcases start with rfl | feed
  · exact Or.inl rfl
  · exact Or.inr (by rw [feed]; rfl)

theorem splitLastLine_spec (t : Text) :
    '\n' ∉ (splitLastLine t).2 ∧ AtLineStart (splitLastLine t).1 := by
  induction t with
  | nil => simp [splitLastLine, AtLineStart]
  | cons c t ih =>
      simp only [splitLastLine]
      split
      · rename_i h
        simp only [Bool.and_eq_true, List.isEmpty_iff, bne_iff_ne, ne_eq] at h
        exact ⟨by simp [ih.1, Ne.symm h.2], Or.inl rfl⟩
      · rename_i h
        refine ⟨ih.1, Or.inr ?_⟩
        rcases ih.2 with whole | whole
        · have : c = '\n' := by simpa [whole] using h
          simp [whole, this]
        · simp [List.getLast?_cons, whole]

/-- The cut before the last line is the only one of its kind. -/
theorem splitLastLine_eq {t above line : Text} (e : t = above ++ line) (inLine : '\n' ∉ line)
    (start : AtLineStart above) : splitLastLine t = (above, line) := by
  have e' := splitLastLine_append t
  obtain ⟨inLine', start'⟩ := splitLastLine_spec t
  have unique {a l a' l' : Text} (same : a ++ l = a' ++ l') (start : AtLineStart a')
      (inLine : '\n' ∉ l) : a'.length ≤ a.length := by
    refine Nat.le_of_not_lt fun short => ?_
    rcases start with rfl | last
    · simp at short
    · obtain ⟨front, rfl⟩ := List.getLast?_eq_some_iff.1 last
      rw [List.append_assoc] at same
      rcases List.append_eq_append_iff.1 same with ⟨more, rfl, tails⟩ | ⟨more, rfl, tails⟩
      · exact inLine (by rw [tails]; simp)
      · simp only [List.length_append, List.length_cons, List.length_nil] at short
        have : more = [] := List.eq_nil_of_length_eq_zero (by omega)
        subst this
        exact inLine (by simp at tails; rw [← tails]; simp)
  have same : (splitLastLine t).1 ++ (splitLastLine t).2 = above ++ line := e'.trans e
  have length : (splitLastLine t).1.length = above.length :=
    Nat.le_antisymm (unique same.symm start' inLine) (unique same start inLine')
  obtain ⟨first, second⟩ := List.append_inj same length
  exact Prod.ext first second

/-- Behind a line feed, what stands before it does not matter to the last line. -/
theorem splitLastLine_append_of_mem {s t : Text} (m : '\n' ∈ t) :
    splitLastLine (s ++ t) = (s ++ (splitLastLine t).1, (splitLastLine t).2) := by
  obtain ⟨inLine, start⟩ := splitLastLine_spec t
  refine splitLastLine_eq ?_ inLine ?_
  · rw [List.append_assoc, splitLastLine_append]
  · rcases start with whole | last
    · have e : (splitLastLine t).2 = t := by simpa [whole] using splitLastLine_append t
      exact absurd m (e ▸ inLine)
    · exact Or.inr (by simp [List.getLast?_append, last])

/-- A text without line feed is part of the line that it goes on with. -/
theorem splitLastLine_append_of_not_mem {s t : Text} (m : '\n' ∉ t) :
    splitLastLine (s ++ t) = ((splitLastLine s).1, (splitLastLine s).2 ++ t) := by
  obtain ⟨inLine, start⟩ := splitLastLine_spec s
  refine splitLastLine_eq ?_ ?_ start
  · rw [← List.append_assoc, splitLastLine_append]
  · simp [inLine, m]

end Regraft.Text
