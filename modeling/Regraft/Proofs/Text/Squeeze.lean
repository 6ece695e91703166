import Regraft.Proofs.Text.Solid

/-!
# Regraft.Proofs.Text.Squeeze -- texts that differ in the length of their white space only

Two texts have the same squeezed form if they differ in nothing but the length of the runs of white
space in them.  Squeezing goes through a cut that does not part a run (`squeeze_append`), and a cut of
the squeezed text is a cut of the text (`squeeze_eq_append`); so whatever is put together from ink and
runs of white space is found again, part by part, in every text of the same squeezed form
(`squeeze_split`).
-/

namespace Regraft.Text

set_option autoImplicit false

/-- That no character of a fixed text is of a class is computed. -/
theorem not_kind_of_all {kind : Char → Bool} {t : Text} (h : (t.all fun c => !kind c) = true) :
    ∀ c ∈ t, kind c = false := by
  intro c m
  simpa using List.all_eq_true.1 h c m

theorem squeeze_cons_inked {c : Char} (inked : isBlank c = false) (t : Text) :
    squeeze (c :: t) = c :: squeeze t := by
  cases t <;> simp [squeeze, inked]

/-- White space in front of white space belongs to one run with it. -/
theorem squeeze_cons_run {c d : Char} (blank : isBlank c = true) (run : isBlank d = true) (t : Text) :
    squeeze (c :: d :: t) = squeeze (d :: t) := by
  simp [squeeze, blank, run]

/-- A run ends in front of ink. -/
theorem squeeze_cons_gap {c : Char} (blank : isBlank c = true) {t : Text}
    (inked : ∀ d, t.head? = some d → isBlank d = false) : squeeze (c :: t) = ' ' :: squeeze t := by
  cases t with
  | nil => simp [squeeze, blank]
  | cons d t => simp [squeeze, blank, inked d rfl]

/-- A text is nothing, or starts with ink, with white space in a run, or with the end of a run. -/
@[elab_as_elim]
theorem run_induction {motive : Text → Prop} (nil : motive [])
    (ink : ∀ (c : Char) (t : Text), isBlank c = false → motive t → motive (c :: t))
    (run : ∀ (c d : Char) (t : Text), isBlank c = true → isBlank d = true → motive (d :: t) →
      motive (c :: d :: t))
    (gap : ∀ (c : Char) (t : Text), isBlank c = true →
      (∀ d, t.head? = some d → isBlank d = false) → motive t → motive (c :: t)) (t : Text) :
    motive t := by
  induction t with
  | nil => exact nil
  | cons c t ih =>
      cases blank : isBlank c with
      | false => exact ink c t blank ih
      | true =>
          cases t with
          | nil => exact gap c [] blank (by simp) ih
          | cons d t =>
              cases more : isBlank d with
              | false => exact gap c (d :: t) blank (by simpa using more) ih
              | true => exact run c d t blank more ih

theorem squeeze_eq_nil {t : Text} : squeeze t = [] ↔ t = [] := by
  refine ⟨fun none_ => ?_, by rintro rfl; rfl⟩
  induction t using run_induction with
  | nil => rfl
  | ink c t inked =>
      rw [squeeze_cons_inked inked] at none_
      cases none_
  | run c d t blank more ih =>
      rw [squeeze_cons_run blank more] at none_
      cases ih none_
  | gap c t blank inked =>
      rw [squeeze_cons_gap blank inked] at none_
      cases none_

/-- Squeezing leaves the ink alone. -/
@[simp] theorem solid_squeeze (t : Text) : solid (squeeze t) = solid t := by
  have space : isBlank ' ' = true := by decide
  induction t using run_induction with
  | nil => rfl
  | ink c t inked ih => rw [squeeze_cons_inked inked, solid_cons, solid_cons, ih]
  | run c d t blank more ih => rw [squeeze_cons_run blank more, ih, solid_cons c, if_pos blank]
  | gap c t blank inked ih =>
      rw [squeeze_cons_gap blank inked, solid_cons, solid_cons, if_pos space, if_pos blank, ih]

theorem mem_squeeze {c : Char} (inked : isBlank c = false) {t : Text} : c ∈ squeeze t ↔ c ∈ t := by
  have same := mem_solid (c := c) (t := squeeze t)
  rw [solid_squeeze, mem_solid] at same
  simpa [inked] using same.symm

theorem isBlankText_squeeze (t : Text) : isBlankText (squeeze t) = isBlankText t := by
  rw [Bool.eq_iff_iff, ← solid_eq_nil, ← solid_eq_nil, solid_squeeze]

@[simp] theorem squeeze_squeeze (t : Text) : squeeze (squeeze t) = squeeze t := by
  induction t using run_induction with
  | nil => rfl
  | ink c t inked ih => rw [squeeze_cons_inked inked, squeeze_cons_inked inked, ih]
  | run c d t blank more ih => rw [squeeze_cons_run blank more, ih]
  | gap c t blank inked ih =>
      have next : ∀ d, (squeeze t).head? = some d → isBlank d = false := by
        cases t with
        | nil => simp [squeeze]
        | cons d t =>
            rw [squeeze_cons_inked (inked d rfl)]
            simpa using inked d rfl
      rw [squeeze_cons_gap blank inked, squeeze_cons_gap (by decide) next, ih]

/-- Squeezing goes through a cut behind ink or in front of ink. -/
theorem squeeze_append {s t : Text}
    (ink : (∀ c, s.getLast? = some c → isBlank c = false) ∨ ∀ c, t.head? = some c → isBlank c = false) :
    squeeze (s ++ t) = squeeze s ++ squeeze t := by
  have tail {c : Char} {s : Text} (last : ∀ d, (c :: s).getLast? = some d → isBlank d = false) :
      ∀ d, s.getLast? = some d → isBlank d = false := fun d here =>
    last d (by rw [List.getLast?_cons, here]; rfl)
  induction s using run_induction with
  | nil => rfl
  | ink c s inked ih =>
      rw [List.cons_append, squeeze_cons_inked inked, squeeze_cons_inked inked, ih (ink.imp_left tail)]
      rfl
  | run c d s blank more ih =>
      rw [List.cons_append, List.cons_append, squeeze_cons_run blank more, squeeze_cons_run blank more,
        ← List.cons_append, ih (ink.imp_left tail)]
  | gap c s blank inked ih =>
      have next : ∀ d, (s ++ t).head? = some d → isBlank d = false := by
        cases s with
        | nil =>
            rcases ink with last | next
            · rw [last c rfl] at blank
              cases blank
            · exact next
        | cons e s => exact inked
      rw [List.cons_append, squeeze_cons_gap blank next, squeeze_cons_gap blank inked,
        ih (ink.imp_left tail)]
      rfl

/-- A cut of the squeezed text is a cut of the text. -/
theorem squeeze_eq_append {t a b : Text} (h : squeeze t = a ++ b) :
    ∃ s u, t = s ++ u ∧ squeeze s = a ∧ squeeze u = b := by
  induction t using run_induction generalizing a with
  | nil =>
      obtain ⟨rfl, rfl⟩ := List.nil_eq_append_iff.1 h
      exact ⟨[], [], rfl, rfl, rfl⟩
  | ink c t inked ih =>
      cases a with
      | nil => exact ⟨[], c :: t, rfl, rfl, h⟩
      | cons e a =>
          rw [squeeze_cons_inked inked] at h
          obtain ⟨rfl, later⟩ := List.cons.inj h
          obtain ⟨s, u, rfl, rfl, rfl⟩ := ih later
          exact ⟨c :: s, u, rfl, squeeze_cons_inked inked s, rfl⟩
  | run c d t blank more ih =>
      cases a with
      | nil => exact ⟨[], c :: d :: t, rfl, rfl, h⟩
      | cons e a =>
          rw [squeeze_cons_run blank more] at h
          obtain ⟨s, u, parts, front, rfl⟩ := ih h
          cases s with
          | nil => cases front
          | cons first s =>
              obtain ⟨rfl, rfl⟩ := List.cons.inj parts
              exact ⟨c :: d :: s, u, rfl, by rw [squeeze_cons_run blank more, front], rfl⟩
  | gap c t blank inked ih =>
      cases a with
      | nil => exact ⟨[], c :: t, rfl, rfl, h⟩
      | cons e a =>
          rw [squeeze_cons_gap blank inked] at h
          obtain ⟨rfl, later⟩ := List.cons.inj h
          obtain ⟨s, u, rfl, rfl, rfl⟩ := ih later
          refine ⟨c :: s, u, rfl, squeeze_cons_gap blank fun d here => inked d ?_, rfl⟩
          rw [List.head?_append, here]
          rfl

/-- A cut behind ink or in front of ink is found again in every text of the same squeezed form. -/
theorem squeeze_split {s u t : Text} (same : squeeze (s ++ u) = squeeze t)
    (ink : (∀ c, s.getLast? = some c → isBlank c = false) ∨ ∀ c, u.head? = some c → isBlank c = false) :
    ∃ s' u', t = s' ++ u' ∧ squeeze s = squeeze s' ∧ squeeze u = squeeze u' := by
  rw [squeeze_append ink] at same
  obtain ⟨s', u', rfl, front, back⟩ := squeeze_eq_append same.symm
  exact ⟨s', u', rfl, front.symm, back.symm⟩

theorem squeeze_of_inked {t : Text} (inked : ∀ c ∈ t, isBlank c = false) : squeeze t = t := by
  induction t with
  | nil => rfl
  | cons c t ih =>
      rw [List.forall_mem_cons] at inked
      rw [squeeze_cons_inked inked.1, ih inked.2]

/-- White space leaves a space behind. -/
theorem inked_of_squeeze {t : Text} (inked : ∀ c ∈ squeeze t, isBlank c = false) :
    ∀ c ∈ t, isBlank c = false := by
  induction t using run_induction with
  | nil => simp
  | ink c t ink ih =>
      rw [squeeze_cons_inked ink, List.forall_mem_cons] at inked
      exact List.forall_mem_cons.2 ⟨ink, ih inked.2⟩
  | run c d t blank more ih =>
      rw [squeeze_cons_run blank more] at inked
      have ink := ih inked d List.mem_cons_self
      rw [more] at ink
      cases ink
  | gap c t blank next =>
      rw [squeeze_cons_gap blank next] at inked
      cases inked ' ' List.mem_cons_self

/-- A text without white space is the only one of its squeezed form. -/
theorem eq_of_squeeze {s t : Text} (same : squeeze s = squeeze t)
    (inked : ∀ c ∈ s, isBlank c = false) : t = s := by
  rw [squeeze_of_inked inked] at same
  rw [same]
  exact (squeeze_of_inked (inked_of_squeeze (same ▸ inked))).symm

/-- A text without white space in front is found again as it is. -/
theorem squeeze_split_inked {s u t : Text} (same : squeeze (s ++ u) = squeeze t)
    (inked : ∀ c ∈ s, isBlank c = false) : ∃ u', t = s ++ u' ∧ squeeze u = squeeze u' := by
  obtain ⟨s', u', rfl, front, back⟩ :=
    squeeze_split same (Or.inl fun c last => inked c (List.mem_of_getLast? last))
  rw [eq_of_squeeze front inked]
  exact ⟨u', rfl, back⟩

end Regraft.Text
