import Regraft.Proofs.Text.Solid
import Regraft.Text.Fold
import Regraft.Text.Word

/-!
# Regraft.Proofs.Text.Fold -- characters that have no case

White space, the semicolon, the angle bracket, the parentheses and the braces have no case: only the
character itself is alike to one of them (`eq_of_foldEq`), so a needle without white space is found
only where there is none.  Word characters are no white space (`isBlank_of_isWord`).
-/

namespace Regraft.Text

set_option autoImplicit false

def blankRanges : List (Nat × Nat) :=
  [(0x09, 0x0D), (0x1C, 0x20), (0x85, 0x85), (0xA0, 0xA0), (0x1680, 0x1680), (0x2000, 0x200A),
    (0x2028, 0x2029), (0x202F, 0x202F), (0x205F, 0x205F), (0x3000, 0x3000)]

/-- The code points of white space, the semicolon, the angle bracket, the parentheses and the braces. -/
def caselessRanges : List (Nat × Nat) :=
  (0x3B, 0x3C) :: (0x7B, 0x7D) :: (0x28, 0x29) :: blankRanges

def InRanges (ranges : List (Nat × Nat)) (n : Nat) : Prop :=
  ∃ r ∈ ranges, r.1 ≤ n ∧ n ≤ r.2

instance (ranges : List (Nat × Nat)) (n : Nat) : Decidable (InRanges ranges n) :=
  inferInstanceAs (Decidable (∃ r ∈ ranges, r.1 ≤ n ∧ n ≤ r.2))

theorem isBlank_iff {c : Char} : isBlank c = true ↔ InRanges blankRanges c.toNat := by
  simp only [isBlank, InRanges, blankRanges, Bool.or_eq_true, Bool.and_eq_true,
    decide_eq_true_eq, beq_iff_eq, List.mem_cons, List.not_mem_nil, or_false, exists_eq_or_imp,
    exists_eq_left]
  omega

/-- Whether a character is one without case. -/
def IsCaseless (c : Char) : Prop :=
  InRanges caselessRanges c.toNat

theorem isCaseless_of_isBlank {c : Char} (blank : isBlank c = true) : IsCaseless c := by
  obtain ⟨r, m, within⟩ := isBlank_iff.1 blank
  exact ⟨r, List.mem_cons_of_mem _ (List.mem_cons_of_mem _ (List.mem_cons_of_mem _ m)), within⟩

theorem isCaseless_semicolon : IsCaseless ';' := ⟨_, List.mem_cons_self, by decide⟩

theorem isCaseless_angle : IsCaseless '<' := ⟨_, List.mem_cons_self, by decide⟩

theorem isCaseless_closeParen : IsCaseless ')' :=
  ⟨_, List.mem_cons_of_mem _ (List.mem_cons_of_mem _ List.mem_cons_self), by decide⟩

theorem isCaseless_open : IsCaseless '{' :=
  ⟨_, List.mem_cons_of_mem _ List.mem_cons_self, by decide⟩

theorem isCaseless_close : IsCaseless '}' :=
  ⟨_, List.mem_cons_of_mem _ List.mem_cons_self, by decide⟩

/-- No run of capitals holds a character without case, and none is lowered to one. -/
theorem lowerRuns_apart : ∀ run ∈ lowerRuns, ∀ r ∈ caselessRanges,
    (run.2.1 < r.1 ∨ r.2 < run.1) ∧
      (run.2.2.2 + (run.2.1 - run.1) < r.1 ∨ r.2 < run.2.2.2) := by
  decide +kernel

theorem caseClasses_apart : ∀ letters ∈ caseClasses, ∀ n ∈ letters, ∀ r ∈ caselessRanges,
    n < r.1 ∨ r.2 < n := by
  decide

theorem lowerCode_ascii : ∀ n < 128,
    InRanges caselessRanges (lowerCode (Char.ofNat n)) ∨ InRanges caselessRanges n →
      lowerCode (Char.ofNat n) = n := by
  decide +kernel

/-- A character without case is its own lower case, and that of no other. -/
theorem lowerCode_caseless {c : Char}
    (h : InRanges caselessRanges (lowerCode c) ∨ IsCaseless c) : lowerCode c = c.toNat := by
  by_cases ascii : c.toNat < 128
  · have := lowerCode_ascii c.toNat ascii
    rw [Char.ofNat_toNat] at this
    exact this h
  · simp only [lowerCode, if_neg ascii] at h ⊢
    split
    · rename_i first last step lower found
      -- a run neither holds such a character nor leads to one
      have inRun := List.find?_some found
      have apart := lowerRuns_apart _ (List.mem_of_find?_eq_some found)
      simp only [Bool.and_eq_true, decide_eq_true_eq, beq_iff_eq] at inRun apart
      exfalso
      rw [found] at h
      rcases h with ⟨r, m, low, high⟩ | ⟨r, m, low, high⟩
      · have := apart r m
        simp only at low high
        omega
      · have := apart r m
        omega
    · rfl

/-- Only the character itself is alike to a character without case. -/
theorem eq_of_foldEq {a c : Char} (same : foldEq a c = true) (caseless : IsCaseless a ∨ IsCaseless c) :
    a = c := by
  simp only [foldEq, sameLetter, Bool.or_eq_true, beq_iff_eq, List.any_eq_true, Bool.and_eq_true,
    List.contains_iff_mem] at same
  have code : InRanges caselessRanges (lowerCode a) ∨ InRanges caselessRanges (lowerCode c) := by
    rcases caseless with h | h
    · exact Or.inl (by rw [lowerCode_caseless (Or.inr h)]; exact h)
    · exact Or.inr (by rw [lowerCode_caseless (Or.inr h)]; exact h)
  rcases same with rfl | same | ⟨letters, m, inA, inC⟩
  · rfl
  · rw [same, or_self] at code
    have ea : lowerCode a = a.toNat := lowerCode_caseless (Or.inl (same ▸ code))
    have ec : lowerCode c = c.toNat := lowerCode_caseless (Or.inl code)
    have codes : a.toNat = c.toNat := by rw [← ea, ← ec, same]
    rw [← Char.ofNat_toNat a, codes, Char.ofNat_toNat]
  · rcases code with ⟨r, mr, low, high⟩ | ⟨r, mr, low, high⟩
    · have := caseClasses_apart letters m _ inA r mr
      omega
    · have := caseClasses_apart letters m _ inC r mr
      omega

theorem Alike.refl (t : Text) : Alike t t := by
  induction t with
  | nil => trivial
  | cons c t ih => exact ⟨foldEq_refl c, ih⟩

/-- Two texts one after the other are alike to their parts one after the other. -/
theorem alike_append {s t found : Text} :
    Alike (s ++ t) found ↔ ∃ a b, found = a ++ b ∧ Alike s a ∧ Alike t b := by
  induction s generalizing found with
  | nil =>
      constructor
      · intro h
        exact ⟨[], found, rfl, trivial, h⟩
      · rintro ⟨a, b, rfl, none_, h⟩
        rwa [List.eq_nil_of_length_eq_zero none_.length_eq.symm]
  | cons c s ih =>
      cases found with
      | nil =>
          constructor
          · exact False.elim
          · rintro ⟨a, b, e, h, -⟩
            rw [(List.append_eq_nil_iff.1 e.symm).1] at h
            exact h.elim
      | cons d found =>
          constructor
          · rintro ⟨same, h⟩
            obtain ⟨a, b, rfl, hs, ht⟩ := ih.1 h
            exact ⟨d :: a, b, rfl, ⟨same, hs⟩, ht⟩
          · rintro ⟨a, b, e, hs, ht⟩
            cases a with
            | nil => exact hs.elim
            | cons d' a =>
                obtain ⟨rfl, rfl⟩ := List.cons.inj e
                exact ⟨hs.1, ih.2 ⟨a, b, rfl, hs.2, ht⟩⟩

theorem Alike.mem {s t : Text} (h : Alike s t) {c : Char} (m : c ∈ t) :
    ∃ a ∈ s, foldEq a c = true := by
  fun_induction Alike s t with
  | case1 => simp at m
  | case2 a s b t ih =>
      rcases List.mem_cons.1 m with rfl | m
      · exact ⟨a, by simp, h.1⟩
      · obtain ⟨d, md, same⟩ := ih h.2 m
        exact ⟨d, by simp [md], same⟩
  | case3 => exact h.elim

/-- A character without case is found where the needle has it. -/
theorem Alike.caseless_mem {needle found : Text} (h : Alike needle found) {c : Char}
    (caseless : IsCaseless c) : c ∈ needle ↔ c ∈ found := by
  constructor
  · intro m
    fun_induction Alike needle found with
    | case1 => cases m
    | case2 a s b t ih =>
        rcases List.mem_cons.1 m with rfl | m
        · rw [eq_of_foldEq h.1 (Or.inl caseless)]
          exact List.mem_cons_self
        · exact List.mem_cons_of_mem _ (ih h.2 m)
    | case3 => exact h.elim
  · intro m
    obtain ⟨a, ma, same⟩ := h.mem m
    rwa [← eq_of_foldEq same (Or.inr caseless)]

/-- A needle without white space is found only where there is none. -/
theorem Alike.not_blank {needle found : Text} (h : Alike needle found)
    (inked : ∀ a ∈ needle, isBlank a = false) : ∀ c ∈ found, isBlank c = false := by
  intro c m
  cases e : isBlank c with
  | false => rfl
  | true =>
      have := inked c ((h.caseless_mem (isCaseless_of_isBlank e)).2 m)
      rw [e] at this
      cases this

/-! ## Words -/

theorem wordRanges_not_blank : ∀ w ∈ wordRanges, ∀ r ∈ blankRanges, w.2 < r.1 ∨ r.2 < w.1 := by
  decide +kernel

theorem isWord_ascii_not_blank : ∀ n < 128,
    isWord (Char.ofNat n) = true → isBlank (Char.ofNat n) = false := by
  decide +kernel

/-- Word characters are no white space. -/
theorem isBlank_of_isWord {c : Char} (word : isWord c = true) : isBlank c = false := by
  by_cases ascii : c.toNat < 128
  · have := isWord_ascii_not_blank c.toNat ascii
    rw [Char.ofNat_toNat] at this
    exact this word
  · rw [isWord, if_neg ascii, List.any_eq_true] at word
    obtain ⟨w, mw, inWord⟩ := word
    simp only [Bool.and_eq_true, decide_eq_true_eq] at inWord
    rw [← Bool.not_eq_true, isBlank_iff]
    rintro ⟨r, mr, inBlank⟩
    have := wordRanges_not_blank w mw r mr
    omega

/-- White space is no part of a word. -/
theorem isWord_of_isBlank {c : Char} (blank : isBlank c = true) : isWord c = false :=
  Bool.eq_false_iff.2 fun word => ne_of_isBlank blank (isBlank_of_isWord word) rfl

theorem isWord_of_isIdentStart {c : Char} (start : isIdentStart c = true) : isWord c = true := by
  simp only [isIdentStart, Bool.or_eq_true, beq_iff_eq] at start
  rcases start with letter | rfl
  · exact isWord_of_isAlphanum (by simp [Char.isAlphanum, letter])
  · decide

end Regraft.Text
