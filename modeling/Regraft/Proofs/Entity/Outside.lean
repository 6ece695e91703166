import Regraft.Proofs.Entity.Removal

/-!
# Regraft.Proofs.Entity.Outside -- a text without some ranges of it

`outside` deletes ranges by offset, character by character.  For the ranges of the entity statements
of a body this is what the segments have outside their statements (`outside_blocksFrom`), so offsets
can be forgotten.
-/

namespace Regraft.Entity

set_option autoImplicit false

open Text

/-- The range of a statement, from its anchor to just past its semicolon. -/
def Block.range (b : Block) : Nat × Nat :=
  (b.anchorStart, b.stop)

/-- Whether an offset lies in one of some ranges; a range does not hold its end. -/
def covered (ranges : List (Nat × Nat)) (i : Nat) : Bool :=
  ranges.any fun r => r.1 ≤ i && i < r.2

/-- What a text that stands at an offset has outside some ranges. -/
def outside (ranges : List (Nat × Nat)) (offset : Nat) : Text → Text
  | [] => []
  | c :: t =>
      if covered ranges offset then outside ranges (offset + 1) t
      else c :: outside ranges (offset + 1) t

theorem outside_append (ranges : List (Nat × Nat)) (offset : Nat) (s t : Text) :
    outside ranges offset (s ++ t) =
      outside ranges offset s ++ outside ranges (offset + s.length) t := by
  induction s generalizing offset with
  | nil => rfl
  | cons c s ih =>
      have e : offset + 1 + s.length = offset + (c :: s).length := by
        simp only [List.length_cons]
        omega
      simp only [List.cons_append, outside, ih, e]
      split <;> rfl

/-- Only the ranges that meet a text matter to it. -/
theorem outside_congr {ranges ranges' : List (Nat × Nat)} {offset : Nat} {t : Text}
    (same : ∀ i, offset ≤ i → i < offset + t.length → covered ranges i = covered ranges' i) :
    outside ranges offset t = outside ranges' offset t := by
  induction t generalizing offset with
  | nil => rfl
  | cons c t ih =>
      have later : outside ranges (offset + 1) t = outside ranges' (offset + 1) t :=
        ih fun i low high => same i (by omega) (by simp only [List.length_cons]; omega)
      simp only [outside, later, same offset (Nat.le_refl _) (by simp)]

theorem outside_nil (offset : Nat) (t : Text) : outside [] offset t = t := by
  induction t generalizing offset with
  | nil => rfl
  | cons c t ih => exact congrArg (c :: ·) (ih (offset + 1))

theorem outside_of_not_covered {ranges : List (Nat × Nat)} {offset : Nat} {t : Text}
    (none_ : ∀ i, offset ≤ i → i < offset + t.length → covered ranges i = false) :
    outside ranges offset t = t :=
  (outside_congr none_).trans (outside_nil offset t)

theorem outside_of_covered {ranges : List (Nat × Nat)} {offset : Nat} {t : Text}
    (all : ∀ i, offset ≤ i → i < offset + t.length → covered ranges i = true) :
    outside ranges offset t = [] := by
  induction t generalizing offset with
  | nil => rfl
  | cons c t ih =>
      rw [outside, all offset (Nat.le_refl _) (by simp), if_pos rfl]
      exact ih fun i low high => all i (by omega) (by simp only [List.length_cons]; omega)

theorem isBlankText_outside {ranges : List (Nat × Nat)} {offset : Nat} {t : Text}
    (blank : isBlankText t = true) : isBlankText (outside ranges offset t) = true := by
  induction t generalizing offset with
  | nil => rfl
  | cons c t ih =>
      rw [isBlankText_cons, Bool.and_eq_true] at blank
      rw [outside]
      split
      · exact ih blank.2
      · rw [isBlankText_cons, blank.1, ih blank.2]
        rfl

@[simp] theorem covered_nil (i : Nat) : covered [] i = false := rfl

@[simp] theorem covered_append (ranges more : List (Nat × Nat)) (i : Nat) :
    covered (ranges ++ more) i = (covered ranges i || covered more i) := by
  simp [covered]

theorem covered_iff {ranges : List (Nat × Nat)} {i : Nat} :
    covered ranges i = true ↔ ∃ r ∈ ranges, r.1 ≤ i ∧ i < r.2 := by
  simp [covered]

/-- A place outside of blocks lies before or behind each of them. -/
theorem apart_of_not_covered {bs : List Block} {i : Nat}
    (outside : covered (bs.map Block.range) i = false) {b : Block} (member : b ∈ bs) :
    i ≤ b.anchorStart ∨ b.stop ≤ i := by
  rw [← Bool.not_eq_true, covered_iff] at outside
  refine or_iff_not_imp_left.2 fun early => Nat.le_of_not_lt fun late => outside ?_
  exact ⟨b.range, List.mem_map.2 ⟨b, member, rfl⟩, Nat.le_of_lt (Nat.lt_of_not_le early), late⟩

theorem covered_cons {b : Block} {more : List (Nat × Nat)} {i : Nat} :
    covered (b.range :: more) i = true ↔
      (b.anchorStart ≤ i ∧ i < b.stop) ∨ covered more i = true := by
  simp [covered, Block.range]

/-- The statements among segments stand where the segments stand. -/
theorem mem_blocksFrom {offset : Nat} {segs : List Segment} {b : Block}
    (m : b ∈ blocksFrom offset segs) :
    offset ≤ b.anchorStart ∧ b.anchorStart ≤ b.stop ∧ b.stop ≤ offset + (textOf segs).length := by
  induction segs generalizing offset with
  | nil => simp [blocksFrom] at m
  | cons seg more ih =>
      have later (m : b ∈ blocksFrom (offset + seg.text.length) more) :
          offset ≤ b.anchorStart ∧ b.anchorStart ≤ b.stop ∧
            b.stop ≤ offset + (textOf (seg :: more)).length := by
        obtain ⟨low, mid, high⟩ := ih m
        rw [textOf_cons, List.length_append]
        omega
      cases seg with
      | statement before s =>
          rw [blocksFrom] at m
          rcases List.mem_cons.1 m with rfl | m
          · rw [Statement.block_start, Statement.block_stop, textOf_cons, Segment.text,
              List.length_append, List.length_append]
            omega
          · exact later m
      | _ => exact later m

theorem not_covered_below {offset i : Nat} {segs : List Segment} (low : i < offset) :
    covered ((blocksFrom offset segs).map Block.range) i = false := by
  rw [← Bool.not_eq_true, covered_iff]
  rintro ⟨r, m, start, -⟩
  obtain ⟨b, mb, rfl⟩ := List.mem_map.1 m
  exact absurd (mem_blocksFrom mb).1 (Nat.not_le_of_lt (Nat.lt_of_le_of_lt start low))

theorem blocksFrom_append (offset : Nat) (init tail : List Segment) :
    blocksFrom offset (init ++ tail) =
      blocksFrom offset init ++ blocksFrom (offset + (textOf init).length) tail := by
  induction init generalizing offset with
  | nil => rfl
  | cons seg more ih =>
      have e : offset + seg.text.length + (textOf more).length =
          offset + (textOf (seg :: more)).length := by
        rw [textOf_cons, List.length_append]
        omega
      cases seg <;> simp only [List.cons_append, blocksFrom, ih, e]

/-- Without the ranges of its statements, a body is what its segments have outside them. -/
theorem outside_blocksFrom (offset : Nat) (segs : List Segment) :
    outside ((blocksFrom offset segs).map Block.range) offset (textOf segs) = betweenOf segs := by
  induction segs generalizing offset with
  | nil => rfl
  | cons seg more ih =>
      rw [textOf_cons, outside_append, betweenOf, List.flatMap_cons]
      congr 1
      · cases seg with
        | statement before s =>
            rw [Segment.text, outside_append]
            have first : outside
                ((blocksFrom offset (.statement before s :: more)).map Block.range) offset before =
                before := by
              refine outside_of_not_covered fun i low high => ?_
              rw [← Bool.not_eq_true, blocksFrom, List.map_cons, covered_cons,
                not_covered_below (by rw [Segment.text, List.length_append]; omega),
                Statement.block_start]
              rintro (⟨start, -⟩ | impossible)
              · omega
              · cases impossible
            have second : outside
                ((blocksFrom offset (.statement before s :: more)).map Block.range)
                (offset + before.length) s.text = [] := by
              refine outside_of_covered fun i low high => ?_
              rw [blocksFrom, List.map_cons, covered_cons, Statement.block_start,
                Statement.block_stop]
              exact Or.inl ⟨low, high⟩
            rw [first, second, List.append_nil, Segment.between]
        | _ =>
            refine outside_of_not_covered fun i low high => ?_
            rw [blocksFrom]
            · exact not_covered_below high
            · simp
      · rw [← betweenOf, ← ih (offset + seg.text.length)]
        refine outside_congr fun i low high => ?_
        cases seg with
        | statement before s =>
            rw [Segment.text, List.length_append] at low
            rw [Bool.eq_iff_iff, blocksFrom, List.map_cons, covered_cons, Statement.block_stop]
            constructor
            · rintro (⟨-, stop⟩ | behind)
              · omega
              · exact behind
            · exact Or.inr
        | _ => rfl

end Regraft.Entity
