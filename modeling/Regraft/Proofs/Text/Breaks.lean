import Regraft.Proofs.Text.Layout

/-!
# Regraft.Proofs.Text.Breaks -- line feeds between the characters of a text

Where white space goes, a line feed may go with it and two lines become one.  To say that none do,
line feeds are told apart by the number of solid characters in front of them (`breaks`): two texts
with the same solid characters can be compared by these numbers (`linesApart_iff`).  A cut of a text
holds a line feed where its first part ends with a blank line or its second starts with one
(`mem_breaks_seam`), so a text whose missing line feeds all stood at cuts keeps the lines of another
apart exactly if each cut does (`linesApart_iff_seams`).  `EndsLike` follows whether the last line of
what is left in front of a cut is blank.
-/

namespace Regraft.Text

set_option autoImplicit false

/-- For each line feed of a text how many solid characters stand in front of it, `n` of them in
front of the text. -/
def breaks (n : Nat) : Text → List Nat
  | [] => []
  | c :: t =>
      if c = '\n' then n :: breaks n t
      else if isBlank c then breaks n t
      else breaks (n + 1) t

/-- Whether a line feed stands between two solid characters, these counted from zero. -/
def Parted (t : Text) (i j : Nat) : Prop :=
  ∃ front back, t = front ++ '\n' :: back ∧ i < (solid front).length ∧ (solid front).length ≤ j

/-- Whether the solid characters of a text that stand on two lines of another stand on two lines. -/
def LinesApart (whole kept : Text) : Prop :=
  ∀ i j, j < (solid kept).length → Parted whole i j → Parted kept i j

def EndsBlank (t : Text) : Prop :=
  isBlankText (splitLastLine t).2 = true

def StartsBlank (t : Text) : Prop :=
  isBlankText (t.takeWhile (· ≠ '\n')) = true

theorem breaks_append (n : Nat) (s t : Text) :
    breaks n (s ++ t) = breaks n s ++ breaks (n + (solid s).length) t := by
  induction s generalizing n with
  | nil => rfl
  | cons c s ih =>
      rw [List.cons_append, breaks, breaks, solid_cons]
      split
      · rename_i feed
        rw [ih, feed, if_pos (by decide), List.cons_append]
      · split
        · exact ih n
        · rw [ih, List.length_cons, Nat.add_assoc, Nat.add_comm 1]

theorem exists_of_mem_breaks {n m : Nat} {t : Text} (h : m ∈ breaks n t) :
    ∃ front back, t = front ++ '\n' :: back ∧ m = n + (solid front).length := by
  induction t generalizing n with
  | nil => cases h
  | cons c t ih =>
      have later {k : Nat} (h : m ∈ breaks k t) (here : k = n + (solid [c]).length) :
          ∃ front back, c :: t = front ++ '\n' :: back ∧ m = n + (solid front).length := by
        obtain ⟨front, back, rfl, rfl⟩ := ih h
        refine ⟨c :: front, back, rfl, ?_⟩
        rw [← List.singleton_append, solid_append, List.length_append, here, Nat.add_assoc]
      rw [breaks] at h
      split at h
      · rename_i feed
        rcases List.mem_cons.1 h with rfl | h
        · exact ⟨[], t, by rw [feed]; rfl, rfl⟩
        · exact later h (by rw [feed]; rfl)
      · split at h
        · rename_i blank
          exact later h (by rw [solid_cons, if_pos blank]; rfl)
        · rename_i inked
          exact later h (by rw [solid_cons, if_neg inked]; rfl)

theorem mem_breaks {n m : Nat} {t : Text} :
    m ∈ breaks n t ↔ ∃ front back, t = front ++ '\n' :: back ∧ m = n + (solid front).length := by
  refine ⟨exists_of_mem_breaks, ?_⟩
  rintro ⟨front, back, rfl, rfl⟩
  rw [breaks_append, breaks, if_pos rfl]
  exact List.mem_append_right _ List.mem_cons_self

theorem parted_iff {t : Text} {i j : Nat} : Parted t i j ↔ ∃ n ∈ breaks 0 t, i < n ∧ n ≤ j := by
  constructor
  · rintro ⟨front, back, e, low, high⟩
    exact ⟨_, mem_breaks.2 ⟨front, back, e, (Nat.zero_add _).symm⟩, low, high⟩
  · rintro ⟨n, m, low, high⟩
    obtain ⟨front, back, e, rfl⟩ := mem_breaks.1 m
    rw [Nat.zero_add] at low high
    exact ⟨front, back, e, low, high⟩

instance (t : Text) (i j : Nat) : Decidable (Parted t i j) :=
  decidable_of_iff _ parted_iff.symm

instance (t : Text) : Decidable (EndsBlank t) :=
  inferInstanceAs (Decidable (_ = true))

instance (t : Text) : Decidable (StartsBlank t) :=
  inferInstanceAs (Decidable (_ = true))

theorem mem_breaks_le {n m : Nat} {t : Text} (h : m ∈ breaks n t) :
    n ≤ m ∧ m ≤ n + (solid t).length := by
  obtain ⟨front, back, rfl, rfl⟩ := mem_breaks.1 h
  rw [solid_append, List.length_append]
  omega

theorem breaks_of_no_feed {t : Text} (noFeed : '\n' ∉ t) (n : Nat) : breaks n t = [] := by
  refine List.eq_nil_iff_forall_not_mem.2 fun m h => noFeed ?_
  obtain ⟨front, back, rfl, -⟩ := mem_breaks.1 h
  simp

/-- The line feeds of white space stand where it does. -/
theorem mem_breaks_of_blank {n m : Nat} {t : Text} (blank : isBlankText t = true) :
    m ∈ breaks n t ↔ '\n' ∈ t ∧ m = n := by
  have none_ := solid_eq_nil.2 blank
  constructor
  · intro h
    have bound := mem_breaks_le h
    obtain ⟨front, back, rfl, -⟩ := mem_breaks.1 h
    rw [none_, List.length_nil] at bound
    exact ⟨by simp, by omega⟩
  · rintro ⟨feed, rfl⟩
    obtain ⟨front, back, rfl⟩ := List.append_of_mem feed
    rw [solid_append, List.append_eq_nil_iff] at none_
    exact mem_breaks.2 ⟨front, back, rfl, by rw [none_.1]; rfl⟩

/-! ## Two texts with the same characters -/

/-- Each line feed counts that has solid characters on both sides. -/
theorem linesApart_iff {whole kept : Text} :
    LinesApart whole kept ↔
      ∀ n ∈ breaks 0 whole, 0 < n → n < (solid kept).length → n ∈ breaks 0 kept := by
  constructor
  · intro apart n m low high
    have here : Parted whole (n - 1) n := parted_iff.2 ⟨n, m, by omega, Nat.le_refl n⟩
    obtain ⟨k, mk, above, below⟩ := parted_iff.1 (apart (n - 1) n high here)
    obtain rfl : k = n := by omega
    exact mk
  · intro stays i j high parted
    obtain ⟨n, m, above, below⟩ := parted_iff.1 parted
    exact parted_iff.2 ⟨n, stays n m (by omega) (by omega), above, below⟩

instance (whole kept : Text) : Decidable (LinesApart whole kept) :=
  decidable_of_iff _ linesApart_iff.symm

/-- Only the places of the line feeds count. -/
theorem linesApart_congr {whole kept kept' : Text} (same : solid kept = solid kept')
    (breaks_ : ∀ n, n ∈ breaks 0 kept ↔ n ∈ breaks 0 kept') :
    LinesApart whole kept ↔ LinesApart whole kept' := by
  simp only [linesApart_iff, same, breaks_]

/-! ## Cuts -/

theorem endsBlank_iff {t : Text} (n : Nat) :
    EndsBlank t ↔ solid t = [] ∨ n + (solid t).length ∈ breaks n t := by
  obtain ⟨inLine, start⟩ := splitLastLine_spec t
  have parts := splitLastLine_append t
  rw [EndsBlank]
  generalize (splitLastLine t).1 = above at parts start
  generalize (splitLastLine t).2 = line at parts inLine
  subst parts
  rw [breaks_append, breaks_of_no_feed inLine, List.append_nil, solid_append, List.length_append,
    List.append_eq_nil_iff]
  constructor
  · intro blank
    have none_ := solid_eq_nil.2 blank
    rcases start with rfl | feed
    · exact Or.inl ⟨rfl, none_⟩
    · obtain ⟨above', rfl⟩ := List.getLast?_eq_some_iff.1 feed
      refine Or.inr (mem_breaks.2 ⟨above', [], rfl, ?_⟩)
      rw [none_, solid_append, solid_cons, if_pos (by decide), solid_nil, List.append_nil]
      rfl
  · rintro (⟨-, none_⟩ | m)
    · exact solid_eq_nil.1 none_
    · have bound := mem_breaks_le m
      refine solid_eq_nil.1 (List.length_eq_zero_iff.1 ?_)
      omega

theorem startsBlank_iff {t : Text} (n : Nat) :
    StartsBlank t ↔ solid t = [] ∨ n ∈ breaks n t := by
  have parts := List.takeWhile_append_dropWhile (p := fun c => decide (c ≠ '\n')) (l := t)
  have inLine : '\n' ∉ t.takeWhile fun c => decide (c ≠ '\n') := fun m => by
    simpa using List.mem_takeWhile_imp m
  have next := List.head?_dropWhile_not (fun c => decide (c ≠ '\n')) t
  rw [StartsBlank]
  generalize (t.takeWhile fun c => decide (c ≠ '\n')) = line at parts inLine
  generalize (t.dropWhile fun c => decide (c ≠ '\n')) = below at parts next
  subst parts
  rw [breaks_append, breaks_of_no_feed inLine, List.nil_append, solid_append,
    List.append_eq_nil_iff]
  constructor
  · intro blank
    have none_ := solid_eq_nil.2 blank
    rw [none_]
    cases below with
    | nil => exact Or.inl ⟨rfl, rfl⟩
    | cons c below =>
        obtain rfl : c = '\n' := by simpa using next
        refine Or.inr (mem_breaks.2 ⟨[], below, rfl, rfl⟩)
  · rintro (⟨none_, -⟩ | m)
    · exact solid_eq_nil.1 none_
    · have bound := mem_breaks_le m
      refine solid_eq_nil.1 (List.length_eq_zero_iff.1 ?_)
      omega

theorem endsBlank_append_of_mem {s t : Text} (feed : '\n' ∈ t) : EndsBlank (s ++ t) ↔ EndsBlank t := by
  rw [EndsBlank, EndsBlank, splitLastLine_append_of_mem feed]

theorem endsBlank_append_of_not_mem {s t : Text} (noFeed : '\n' ∉ t) :
    EndsBlank (s ++ t) ↔ EndsBlank s ∧ isBlankText t = true := by
  rw [EndsBlank, EndsBlank, splitLastLine_append_of_not_mem noFeed, isBlankText_append,
    Bool.and_eq_true]

theorem not_endsBlank_of_last {t : Text} {c : Char} (last : t.getLast? = some c)
    (inked : isBlank c = false) : ¬ EndsBlank t := by
  obtain ⟨front, rfl⟩ := List.getLast?_eq_some_iff.1 last
  have noFeed : '\n' ∉ [c] := by
    rw [List.mem_singleton]
    exact ne_of_isBlank (by decide) inked
  rw [endsBlank_append_of_not_mem noFeed]
  simp [inked]

/-- Between the solid characters on both sides of a cut there is a line feed exactly if there is a
blank line at the cut. -/
theorem mem_breaks_seam {above below : Text} (inkAbove : solid above ≠ []) (inkBelow : solid below ≠ []) :
    (solid above).length ∈ breaks 0 (above ++ below) ↔ EndsBlank above ∨ StartsBlank below := by
  rw [breaks_append, List.mem_append, endsBlank_iff 0, startsBlank_iff (0 + (solid above).length),
    or_iff_right inkAbove, or_iff_right inkBelow, Nat.zero_add]

/-- Where the line feeds that a text lost stood at seams of it, it keeps lines apart exactly if its
seams do. -/
theorem linesApart_iff_seams {whole kept : Text} {Seam : Text → Text → Prop}
    (lost : ∀ n ∈ breaks 0 whole,
      n ∈ breaks 0 kept ∨ ∃ above below, Seam above below ∧ n = (solid above).length)
    (seams : ∀ above below, Seam above below →
      kept = above ++ below ∧ (solid above).length ∈ breaks 0 whole) :
    LinesApart whole kept ↔
      ∀ above below, Seam above below → EndsBlank above ∨ StartsBlank below := by
  rw [linesApart_iff]
  constructor
  · intro stays above below seam
    obtain ⟨rfl, m⟩ := seams above below seam
    by_cases blankAbove : solid above = []
    · exact Or.inl ((endsBlank_iff 0).2 (Or.inl blankAbove))
    by_cases blankBelow : solid below = []
    · exact Or.inr ((startsBlank_iff 0).2 (Or.inl blankBelow))
    refine (mem_breaks_seam blankAbove blankBelow).1 (stays _ m ?_ ?_)
    · exact List.length_pos_iff.2 blankAbove
    · have := List.length_pos_iff.2 blankBelow
      rw [solid_append, List.length_append]
      omega
  · intro blank n m low high
    rcases lost n m with stays | ⟨above, below, seam, rfl⟩
    · exact stays
    · obtain ⟨rfl, -⟩ := seams above below seam
      refine (mem_breaks_seam (List.length_pos_iff.1 low) fun none_ => ?_).2 (blank above below seam)
      rw [solid_append, none_, List.append_nil] at high
      exact Nat.lt_irrefl _ high

/-! ## What is left of a front -/

/-- What is left of the front of a text when `n` characters behind it go as well: a last line that is
blank stays blank, and where something goes behind the front its last line is blank. -/
structure EndsLike (front left : Text) (n : Nat) : Prop where
  blank : ∀ next, EndsBlank (front ++ next) → EndsBlank (left ++ next.drop n)
  gone : n ≠ 0 → EndsBlank left

theorem EndsLike.nil : EndsLike [] [] 0 where
  blank _ h := h
  gone h := absurd rfl h

/-- Text that stays, as far as it is not gone already. -/
theorem EndsLike.append {front left text : Text} {n : Nat} (h : EndsLike front left n)
    (bound : n ≤ text.length) : EndsLike (front ++ text) (left ++ text.drop n) 0 where
  blank next ends := by
    rw [List.append_assoc] at ends
    have := h.blank (text ++ next) ends
    rwa [List.drop_append_of_le_length bound, ← List.append_assoc] at this
  gone h := absurd rfl h

/-- Behind a front that ends in ink a blank line starts with a line feed. -/
theorem EndsLike.of_last {front left : Text} {n : Nat} {c : Char} (last : front.getLast? = some c)
    (inked : isBlank c = false) (gone : n ≠ 0 → EndsBlank left) : EndsLike front left n := by
  refine ⟨fun next ends => ?_, gone⟩
  have feed : '\n' ∈ next := by
    by_contra noFeed
    exact not_endsBlank_of_last last inked ((endsBlank_append_of_not_mem noFeed).1 ends).1
  rw [endsBlank_append_of_mem feed] at ends
  by_cases stays : '\n' ∈ next.drop n
  · rw [endsBlank_append_of_mem stays]
    rwa [← List.take_append_drop n next, endsBlank_append_of_mem stays] at ends
  · have some_ : n ≠ 0 := by
      rintro rfl
      exact stays feed
    rw [← List.take_append_drop n next, endsBlank_append_of_not_mem stays] at ends
    rw [endsBlank_append_of_not_mem stays]
    exact ⟨gone some_, ends.2⟩

end Regraft.Text
