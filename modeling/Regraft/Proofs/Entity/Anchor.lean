import Regraft.Entity.Segment
import Regraft.Proofs.Text.Cut
import Regraft.Proofs.Text.Fold

/-!
# Regraft.Proofs.Entity.Anchor -- where the anchor of an entity statement stands

`cutAnchor?` finds the first place at which the token stands in any case (`cutAnchor?_eq_some`,
`cutAnchor?_eq_none`).  From this it follows what an edit elsewhere does to the place: what comes
after the anchor does not move it (`cutAnchor?_swap`), a part of what comes before it has none
(`cutAnchor?_front`), a text that cuts no anchor in two does not have it either (`cutAnchor?_unsplit`),
and white space keeps the two sides of it apart (`cutAnchor?_separated`).
-/

namespace Regraft.Entity

set_option autoImplicit false

open Text

/-- No character of a token is white space, and there is one. -/
structure Inked (token : Text) : Prop where
  ne_nil : token ≠ []
  not_blank : ∀ a ∈ token, isBlank a = false

theorem inked_anchor {param : Text} (words : ∀ c ∈ param, isWord c = true) :
    Inked (anchor param) where
  ne_nil := by simp [anchor]
  not_blank := by
    intro c m
    rcases List.mem_append.1 m with m | m
    · exact isBlank_of_isWord (words c m)
    · have symbols : ".Entity<".toList.all (fun c => !isBlank c) = true := by decide
      simpa using List.all_eq_true.1 symbols c m

theorem afterFolded?_eq_none {token t : Text} :
    afterFolded? token t = none ↔ ∀ found rest, Alike token found → t ≠ found ++ rest := by
  constructor
  · intro h found rest alike e
    have := afterFolded?_eq_some.2 ⟨found, alike, e⟩
    rw [h] at this
    cases this
  · intro h
    cases e : afterFolded? token t with
    | none => rfl
    | some rest =>
        obtain ⟨found, alike, e⟩ := afterFolded?_eq_some.1 e
        exact absurd e (h found rest alike)

/-- No anchor stands before the first one. -/
theorem cutAnchor?_first {token t before found rest front found' back : Text}
    (h : cutAnchor? token t = some (before, found, rest)) (e : t = front ++ found' ++ back)
    (alike : Alike token found') : before.length ≤ front.length := by
  induction t generalizing before front with
  | nil =>
      have := congrArg List.length (cutAnchor?_append h)
      simp only [List.length_nil, List.length_append] at this
      omega
  | cons c t ih =>
      simp only [cutAnchor?] at h
      split at h
      · simp only [Option.some.injEq, Prod.mk.injEq] at h
        simp [← h.1]
      · rename_i absent
        simp only [Option.map_eq_some_iff, Prod.mk.injEq, Prod.exists] at h
        obtain ⟨b, f, r, later, rfl, rfl, rfl⟩ := h
        cases front with
        | nil => exact absurd e (afterFolded?_eq_none.1 absent found' back alike)
        | cons d front =>
            simp only [List.cons_append, List.cons.injEq] at e
            have := ih later e.2
            simp only [List.length_cons]
            omega

theorem cutAnchor?_eq_none {token t : Text} :
    cutAnchor? token t = none ↔
      ∀ front found back, Alike token found → t ≠ front ++ found ++ back := by
  induction t with
  | nil =>
      simp only [cutAnchor?, Option.map_eq_none_iff, afterFolded?_eq_none]
      constructor
      · intro h front found back alike e
        have parts := List.append_eq_nil_iff.1 (List.append_assoc front .. ▸ e).symm
        exact h found back alike parts.2.symm
      · intro h found rest alike e
        exact h [] found rest alike e
  | cons c t ih =>
      simp only [cutAnchor?]
      cases here : afterFolded? token (c :: t) with
      | some rest =>
          obtain ⟨found, alike, e⟩ := afterFolded?_eq_some.1 here
          simp only [reduceCtorEq, false_iff]
          exact fun h => h [] found rest alike e
      | none =>
          simp only [Option.map_eq_none_iff, ih]
          constructor
          · intro h front found back alike e
            cases front with
            | nil => exact afterFolded?_eq_none.1 here found back alike e
            | cons d front =>
                simp only [List.cons_append, List.cons.injEq] at e
                exact h front found back alike e.2
          · intro h front found back alike e
            exact h (c :: front) found back alike (by rw [e]; rfl)

theorem cutAnchor?_eq_some {token t before found rest : Text} :
    cutAnchor? token t = some (before, found, rest) ↔
      t = before ++ found ++ rest ∧ Alike token found ∧
        ∀ front found' back, Alike token found' → t = front ++ found' ++ back →
          before.length ≤ front.length := by
  constructor
  · intro h
    exact ⟨cutAnchor?_append h, cutAnchor?_alike h, fun _ _ _ alike e => cutAnchor?_first h e alike⟩
  · rintro ⟨e, alike, first⟩
    cases h : cutAnchor? token t with
    | none => exact absurd e (cutAnchor?_eq_none.1 h before found rest alike)
    | some cut =>
        obtain ⟨b, f, r⟩ := cut
        have e' := cutAnchor?_append h
        have alike' := cutAnchor?_alike h
        have same : b.length = before.length :=
          Nat.le_antisymm (cutAnchor?_first h e alike) (first b f r alike' e')
        rw [e, List.append_assoc, List.append_assoc] at e'
        obtain ⟨rfl, tails⟩ := List.append_inj e' same.symm
        obtain ⟨rfl, rfl⟩ := List.append_inj tails (alike.length_eq.symm.trans alike'.length_eq)
        rfl

/-- What comes after an anchor may be anything else. -/
theorem cutAnchor?_swap {token t before found rest : Text}
    (h : cutAnchor? token t = some (before, found, rest)) (rest' : Text) :
    cutAnchor? token (before ++ found ++ rest') = some (before, found, rest') := by
  obtain ⟨e, alike, first⟩ := cutAnchor?_eq_some.1 h
  refine cutAnchor?_eq_some.2 ⟨rfl, alike, fun front found' back alike' e' => ?_⟩
  refine Nat.le_of_not_lt fun short => ?_
  -- an earlier anchor ends before the first one does, so it stands in the old text as well
  have fits : front ++ found' <+: before ++ found := by
    refine @List.prefix_of_prefix_length_le Char _ _ (before ++ found ++ rest')
      (e' ▸ List.prefix_append ..) (List.prefix_append ..) ?_
    have := alike.length_eq.symm.trans alike'.length_eq
    simp only [List.length_append]
    omega
  obtain ⟨more, same⟩ := fits
  have := first front found' (more ++ rest) alike' (by rw [e, ← same]; simp)
  omega

theorem cutAnchor?_append_right {token t before found rest : Text}
    (h : cutAnchor? token t = some (before, found, rest)) (more : Text) :
    cutAnchor? token (t ++ more) = some (before, found, rest ++ more) := by
  rw [cutAnchor?_append h, List.append_assoc]
  exact cutAnchor?_swap h (rest ++ more)

/-- In front of the first anchor there is none. -/
theorem cutAnchor?_front {token t before found rest front more : Text} (inked : Inked token)
    (h : cutAnchor? token t = some (before, found, rest)) (e : before = front ++ more) :
    cutAnchor? token front = none := by
  obtain ⟨e', alike, first⟩ := cutAnchor?_eq_some.1 h
  refine cutAnchor?_eq_none.2 fun front' found' back' alike' same => ?_
  have := first front' found' (back' ++ more ++ found ++ rest) alike' (by rw [e', e, same]; simp)
  have long : 0 < found'.length := by
    rw [← alike'.length_eq]
    exact List.length_pos_iff.2 inked.ne_nil
  rw [e, same] at this
  simp only [List.length_append] at this
  omega

/-- Without the start of what is before it, the first anchor is still the first. -/
theorem cutAnchor?_drop {token front t more found rest : Text}
    (h : cutAnchor? token (front ++ t) = some (front ++ more, found, rest)) :
    cutAnchor? token t = some (more, found, rest) := by
  obtain ⟨e, alike, first⟩ := cutAnchor?_eq_some.1 h
  refine cutAnchor?_eq_some.2 ⟨by simpa using e, alike, ?_⟩
  intro front' found' back' alike' same
  have := first (front ++ front') found' back' alike' (by rw [same]; simp)
  simp only [List.length_append] at this
  omega

/-- A text comes apart before its first anchor: there is none in the first part, and it is the first
of the second part. -/
theorem cutAnchor?_split {token s t before found rest : Text} (inked : Inked token)
    (h : cutAnchor? token (s ++ t) = some (before, found, rest)) (early : s.length ≤ before.length) :
    ∃ more, before = s ++ more ∧ cutAnchor? token s = none ∧
      cutAnchor? token t = some (more, found, rest) := by
  obtain ⟨more, rfl, -⟩ : ∃ more, before = s ++ more ∧ t = more ++ (found ++ rest) := by
    refine append_of_length_le ?_ early
    rw [cutAnchor?_append h, List.append_assoc]
  exact ⟨more, rfl, cutAnchor?_front inked h rfl, cutAnchor?_drop h⟩

theorem cutAnchor?_none_parts {token s t : Text} (h : cutAnchor? token (s ++ t) = none) :
    cutAnchor? token s = none ∧ cutAnchor? token t = none := by
  have absent := cutAnchor?_eq_none.1 h
  constructor
  · refine cutAnchor?_eq_none.2 fun front found back alike e => ?_
    exact absent front found (back ++ t) alike (by rw [e]; simp)
  · refine cutAnchor?_eq_none.2 fun front found back alike e => ?_
    exact absent (s ++ front) found back alike (by rw [e]; simp)

theorem cutAnchor?_nil {token : Text} (inked : Inked token) : cutAnchor? token [] = none := by
  refine cutAnchor?_eq_none.2 fun front found back alike e => inked.ne_nil ?_
  have short : found = [] := (List.append_eq_nil_iff.1 (List.append_eq_nil_iff.1 e.symm).1).2
  exact List.eq_nil_of_length_eq_zero (by rw [alike.length_eq, short]; rfl)

/-- Behind a text without anchor that cuts none in two, the first anchor is that of what follows. -/
theorem cutAnchor?_unsplit {token s : Text} (some_ : token ≠ []) (none_ : cutAnchor? token s = none)
    (unsplit : Unsplit (Alike token) s) (t : Text) :
    cutAnchor? token (s ++ t) =
      (cutAnchor? token t).map fun (before, found, rest) => (s ++ before, found, rest) := by
  have side {front found back : Text} (alike : Alike token found) (e : s ++ t = front ++ found ++ back) :
      ∃ front', front = s ++ front' ∧ t = front' ++ found ++ back := by
    have long : found ≠ [] := by
      rintro rfl
      exact some_ (List.eq_nil_of_length_eq_zero alike.length_eq)
    rcases unsplit.sides alike long e with ⟨back', here⟩ | later
    · exact absurd here (cutAnchor?_eq_none.1 none_ front found back' alike)
    · exact later
  cases h : cutAnchor? token t with
  | none =>
      refine cutAnchor?_eq_none.2 fun front found back alike e => ?_
      obtain ⟨front', -, e'⟩ := side alike e
      exact cutAnchor?_eq_none.1 h front' found back alike e'
  | some cut =>
      obtain ⟨before, found, rest⟩ := cut
      obtain ⟨e, alike, first⟩ := cutAnchor?_eq_some.1 h
      refine cutAnchor?_eq_some.2 ⟨by simp [e], alike, fun front found' back alike' e' => ?_⟩
      obtain ⟨front', rfl, inTail⟩ := side alike' e'
      have := first front' found' back alike' inTail
      simp only [List.length_append]
      omega

/-- One character of white space keeps the text before it out of an anchor behind it. -/
theorem cutAnchor?_blank {token s t : Text} {c : Char} (inked : Inked token)
    (none_ : cutAnchor? token s = none) (blank : isBlank c = true) :
    cutAnchor? token (s ++ c :: t) =
      (cutAnchor? token t).map fun (before, found, rest) => (s ++ c :: before, found, rest) := by
  have absent {found : Text} (alike : Alike token found) : c ∉ found := by
    intro m
    have := alike.not_blank inked.not_blank c m
    rw [blank] at this
    cases this
  have unsplit : Unsplit (Alike token) (s ++ [c]) :=
    .of_last (List.getLast?_concat ..) fun x y alike => absurd (by simp) (absent alike)
  have alone : cutAnchor? token (s ++ [c]) = none := by
    refine cutAnchor?_eq_none.2 fun front found back alike e => ?_
    rcases append_separated e (absent alike) with ⟨back', h⟩ | ⟨front', -, h⟩
    · exact cutAnchor?_eq_none.1 none_ front found back' alike h
    · exact cutAnchor?_eq_none.1 (cutAnchor?_nil inked) front' found back alike h
  have whole := cutAnchor?_unsplit inked.ne_nil alone unsplit t
  simpa using whole

/-- White space keeps the text before it out of an anchor behind it. -/
theorem cutAnchor?_separated {token s gap t : Text} (inked : Inked token)
    (none_ : cutAnchor? token s = none) (some_ : gap ≠ []) (blank : isBlankText gap = true) :
    cutAnchor? token (s ++ gap ++ t) =
      (cutAnchor? token t).map fun (before, found, rest) => (s ++ gap ++ before, found, rest) := by
  induction gap generalizing s with
  | nil => exact absurd rfl some_
  | cons c gap ih =>
      simp only [isBlankText_cons, Bool.and_eq_true] at blank
      cases gap with
      | nil => simpa using cutAnchor?_blank (t := t) inked none_ blank.1
      | cons d gap =>
          have later := ih (cutAnchor?_nil inked) (by simp) blank.2
          have here := cutAnchor?_blank (t := d :: gap ++ t) inked none_ blank.1
          rw [List.nil_append] at later
          rw [later] at here
          simpa [Function.comp_def] using here

end Regraft.Entity
