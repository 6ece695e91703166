import Regraft.Entity.Strip
import Regraft.Proofs.Local
import Regraft.Proofs.Text.Layout

/-!
# Regraft.Proofs.Entity.Collapse -- runs of line ends made two

Collapsing touches line ends only (`solid_collapse`), so it goes through a text piece by piece where
the pieces do not share a run (`collapse_append`, `collapse_append_of_last`).  `collapse_cases` is
the recursion that the inductions follow.
-/

namespace Regraft.Entity

set_option autoImplicit false

open Text Reader

theorem lineEnds_suffixed : Suffixed lineEnds :=
  suffixed_bind suffixed_lineEnd fun _ => suffixed_bind suffixed_lineEnd fun _ =>
    suffixed_bind suffixed_lineEnd fun _ => suffixed_bind (suffixed_star suffixed_lineEnd) fun _ =>
      suffixed_pure _

theorem mem_star_lineEnd {values : List Text} {t rest : Text}
    (m : (values, rest) ∈ star lineEnd t) : ∃ run, t = run ++ rest ∧ isBlankText run = true := by
  induction values generalizing t with
  | nil =>
      rcases mem_star.1 m with ⟨-, rfl⟩ | ⟨a, mid, more, -, -, -, e⟩
      · exact ⟨[], rfl, rfl⟩
      · cases e
  | cons v values ih =>
      rcases mem_star.1 m with ⟨e, -⟩ | ⟨a, mid, more, found, -, later, e⟩
      · cases e
      · obtain ⟨rfl, rfl⟩ := List.cons.inj e
        obtain ⟨ends, rfl⟩ := mem_lineEnd.1 found
        obtain ⟨run, rfl, blank⟩ := ih later
        exact ⟨v ++ run, by simp, by simp [isBlankText_of_isLineEnd ends, blank]⟩

/-- A run starts with the line end that decides on its style, and more white space follows. -/
theorem mem_lineEnds {first t rest : Text} (m : (first, rest) ∈ lineEnds t) :
    ∃ more, IsLineEnd first ∧ isBlankText more = true ∧ t = first ++ more ++ rest := by
  simp only [lineEnds, mem_bind] at m
  obtain ⟨e₁, t₁, m₁, e₂, t₂, m₂, e₃, t₃, m₃, m⟩ := m
  obtain ⟨values, t₄, m₄, m⟩ := mem_bind.1 m
  obtain ⟨rfl, rfl⟩ := mem_pure.1 m
  obtain ⟨ends₁, rfl⟩ := mem_lineEnd.1 m₁
  obtain ⟨ends₂, rfl⟩ := mem_lineEnd.1 m₂
  obtain ⟨ends₃, rfl⟩ := mem_lineEnd.1 m₃
  obtain ⟨run, rfl, blank⟩ := mem_star_lineEnd m₄
  refine ⟨e₂ ++ e₃ ++ run, ends₁, ?_, by simp⟩
  simp [isBlankText_of_isLineEnd ends₂, isBlankText_of_isLineEnd ends₃, blank]

theorem collapse_nil : collapse [] = [] := by
  rw [collapse, replace, cuts_nil]
  rfl

/-- A character that starts no run stays, and a run becomes two line ends. -/
theorem collapse_cases (c : Char) (t : Text) :
    collapse (c :: t) = c :: collapse t ∨
      ∃ first more rest, IsLineEnd first ∧ isBlankText more = true ∧
        c :: t = first ++ more ++ rest ∧ rest.length < (c :: t).length ∧
        collapse (c :: t) = first ++ first ++ collapse rest := by
  simp only [collapse, replace]
  cases found : first? lineEnds (c :: t) with
  | none =>
      have here : lineEnds (c :: t) = [] := first?_eq_none.1 found
      rw [cuts_plain (r := fun _ => lineEnds) here, cuts_const _ _ none]
      exact Or.inl rfl
  | some p =>
      obtain ⟨first, rest⟩ := p
      obtain ⟨more, ends, blank, e⟩ := mem_lineEnds (mem_of_first? found)
      have shorter : rest.length < (c :: t).length := by
        rw [e]
        rcases ends with rfl | rfl <;> simp only [List.length_append, List.length_cons] <;> omega
      rw [cuts_hit (r := fun _ => lineEnds) found shorter, cuts_const _ _ none]
      exact Or.inr ⟨first, more, rest, ends, blank, e, shorter, rfl⟩

theorem collapse_cons {c : Char} (apart : c ≠ '\r' ∧ c ≠ '\n') (t : Text) :
    collapse (c :: t) = c :: collapse t := by
  rcases collapse_cases c t with e | ⟨first, more, rest, ends, -, e, -, -⟩
  · exact e
  · rcases ends with rfl | rfl
    · exact absurd (List.cons.inj e).1 apart.1
    · exact absurd (List.cons.inj e).1 apart.2

theorem solid_collapse (t : Text) : solid (collapse t) = solid t := by
  induction length : t.length using Nat.strongRecOn generalizing t with
  | ind n ih =>
      cases t with
      | nil => rw [collapse_nil]
      | cons c t =>
          rcases collapse_cases c t with e | ⟨first, more, rest, ends, blank, parts, shorter, e⟩
          · rw [e, solid_cons, solid_cons, ih t.length (by simp at length; omega) t rfl]
          · have none_ : solid first = [] := solid_eq_nil.2 (isBlankText_of_isLineEnd ends)
            rw [e, parts, solid_append, solid_append, solid_append, solid_append, none_,
              solid_eq_nil.2 blank, ih rest.length (by omega) rest rfl]

theorem local_lineEnds {stop : Text} (apart : ∀ e, IsLineEnd e → ¬ e <+: stop) :
    Local stop lineEnds :=
  local_bind (local_lineEnd apart) fun _ => local_bind (local_lineEnd apart) fun _ =>
    local_bind (local_lineEnd apart) fun _ => local_bind (local_star (local_lineEnd apart)) fun _ =>
      local_pure _

/-- In front of a text that does not start with a line end the text comes apart. -/
theorem collapse_append {t : Text} (apart : ∀ e, IsLineEnd e → ¬ e <+: t) (s : Text) :
    collapse (s ++ t) = collapse s ++ collapse t := by
  simp only [collapse, replace]
  rw [cuts_append_of_local (local_lineEnds apart), List.flatMap_append]

/-- A text that starts with ink does not start with a line end. -/
theorem apart_of_inked {c : Char} (inked : isBlank c = false) (t : Text) :
    ∀ e, IsLineEnd e → ¬ e <+: c :: t := by
  rintro e ends ⟨rest, same⟩
  rcases ends with rfl | rfl <;> obtain ⟨rfl, -⟩ := List.cons.inj same <;> revert inked <;> decide

/-- So it does behind a character that is no white space. -/
theorem collapse_append_of_last {s : Text} {c : Char} (last : s.getLast? = some c)
    (inked : isBlank c = false) (t : Text) : collapse (s ++ t) = collapse s ++ collapse t := by
  obtain ⟨front, rfl⟩ := List.getLast?_eq_some_iff.1 last
  have other : c ≠ '\r' ∧ c ≠ '\n' := by
    constructor <;> rintro rfl <;> revert inked <;> decide
  rw [List.append_assoc, List.singleton_append, collapse_append (apart_of_inked inked t),
    collapse_append (apart_of_inked inked []),
    collapse_cons other, collapse_cons other, collapse_nil]
  simp

/-- A text without three line ends in a row is left as it is. -/
theorem collapse_of_occurrences {t : Text} (none_ : occurrences (fun _ => lineEnds) t = []) :
    collapse t = t := by
  have plain := occurrencesFrom_eq_nil.1 none_
  rw [collapse, replace]
  conv => rhs; rw [← cuts_text (fun _ => lineEnds_suffixed) none t]
  rw [List.flatMap_def, List.flatMap_def]
  congr 1
  refine List.map_congr_left fun p m => ?_
  obtain ⟨c, rfl⟩ := plain p m
  rfl

/-- Collapsing keeps the layout plain. -/
theorem plainBlanks_collapse {t : Text} (plain : plainBlanks t = true) :
    plainBlanks (collapse t) = true ∧
      (t.head? = some '\n' → (collapse t).head? = some '\n') := by
  induction length : t.length using Nat.strongRecOn generalizing t with
  | ind n ih =>
      cases t with
      | nil => simp [collapse_nil, plainBlanks]
      | cons c t =>
          rcases collapse_cases c t with e | ⟨first, more, rest, ends, -, parts, shorter, e⟩
          · rw [plainBlanks, Bool.and_eq_true] at plain
            obtain ⟨later, head⟩ := ih t.length (by simp at length; omega) plain.2 rfl
            rw [e]
            refine ⟨?_, id⟩
            rw [plainBlanks, Bool.and_eq_true]
            refine ⟨?_, later⟩
            have here := plain.1
            simp only [Bool.or_eq_true, Bool.and_eq_true, beq_iff_eq] at here ⊢
            exact here.imp id fun h => ⟨h.1, head h.2⟩
          · rw [parts] at plain
            obtain ⟨later, -⟩ := ih rest.length (by omega) (plainBlanks_right plain) rfl
            rw [e]
            refine ⟨plainBlanks_append ?_ later, fun head => ?_⟩
            · rcases ends with rfl | rfl <;> decide
            · rw [parts] at head
              rcases ends with rfl | rfl
              · simp at head
              · rfl

theorem eq_nil_of_collapse {t : Text} (none_ : collapse t = []) : t = [] := by
  cases t with
  | nil => rfl
  | cons c t =>
      rcases collapse_cases c t with e | ⟨first, more, rest, ends, -, -, -, e⟩
      · rw [e] at none_
        cases none_
      · rw [e] at none_
        rcases ends with rfl | rfl <;> cases none_

/-- Collapsing keeps a line feed at the end. -/
theorem atLineStart_collapse {t : Text} (start : AtLineStart t) : AtLineStart (collapse t) := by
  rcases start with rfl | feed
  · exact Or.inl collapse_nil
  · refine Or.inr ?_
    induction length : t.length using Nat.strongRecOn generalizing t with
    | ind n ih =>
        cases t with
        | nil => simp at feed
        | cons c t =>
            rcases collapse_cases c t with e | ⟨first, more, rest, ends, -, parts, shorter, e⟩
            · rw [e]
              cases t with
              | nil => rwa [collapse_nil]
              | cons d t =>
                  have := ih (d :: t).length (by simp at length ⊢; omega)
                    (by rwa [List.getLast?_cons_cons] at feed) rfl
                  rw [List.getLast?_cons, this]
                  rfl
            · rw [e, List.getLast?_append]
              cases rest with
              | nil =>
                  rw [collapse_nil]
                  rcases ends with rfl | rfl <;> rfl
              | cons d rest =>
                  rw [parts, List.getLast?_append] at feed
                  have last : (d :: rest).getLast? = some '\n' := by
                    rw [List.getLast?_cons] at feed ⊢
                    exact feed
                  rw [ih (d :: rest).length (by omega) last rfl]
                  rfl

/-! ## Tidying up -/

/-- A text after a number of statements were taken out of it. -/
def tidy (count : Nat) (t : Text) : Text :=
  if count = 0 then t else collapse t

theorem strip_eq {token body : Text} (closed : failureFrom? 0 (segments token body) = none) :
    strip token body =
      .ok (tidy (statementCount (segments token body)) (removeFrom 0 (segments token body))) := by
  rw [strip]
  simp only [closed, tidy]

theorem tidy_congr {n k : Nat} (same : n = 0 ↔ k = 0) (t : Text) : tidy n t = tidy k t := by
  rw [tidy, tidy]
  exact if_congr same rfl rfl

theorem solid_tidy (n : Nat) (t : Text) : solid (tidy n t) = solid t := by
  rw [tidy]
  split
  · rfl
  · exact solid_collapse t

theorem isBlankText_tidy {n : Nat} {t : Text} (blank : isBlankText t = true) :
    isBlankText (tidy n t) = true := by
  rw [← solid_eq_nil, solid_tidy, solid_eq_nil, blank]

theorem eq_nil_of_tidy {n : Nat} {t : Text} (none_ : tidy n t = []) : t = [] := by
  rw [tidy] at none_
  split at none_
  · exact none_
  · exact eq_nil_of_collapse none_

theorem plainBlanks_tidy {n : Nat} {t : Text} (plain : plainBlanks t = true) :
    plainBlanks (tidy n t) = true := by
  rw [tidy]
  split
  · exact plain
  · exact (plainBlanks_collapse plain).1

theorem atLineStart_tidy {n : Nat} {t : Text} (start : AtLineStart t) : AtLineStart (tidy n t) := by
  rw [tidy]
  split
  · exact start
  · exact atLineStart_collapse start

theorem tidy_append {t : Text} (apart : ∀ e, IsLineEnd e → ¬ e <+: t) (n : Nat) (s : Text) :
    tidy n (s ++ t) = tidy n s ++ tidy n t := by
  rw [tidy, tidy, tidy]
  split
  · rfl
  · exact collapse_append apart s

theorem tidy_append_of_last {s : Text} {c : Char} (last : s.getLast? = some c)
    (inked : isBlank c = false) (n : Nat) (t : Text) :
    tidy n (s ++ t) = tidy n s ++ tidy n t := by
  rw [tidy, tidy, tidy]
  split
  · rfl
  · exact collapse_append_of_last last inked t

theorem tidy_of_occurrences {t : Text} (none_ : occurrences (fun _ => lineEnds) t = []) (n : Nat) :
    tidy n t = t := by
  rw [tidy]
  split
  · rfl
  · exact collapse_of_occurrences none_

end Regraft.Entity
