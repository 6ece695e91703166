import Mathlib.Data.List.TakeWhile
import Regraft.Text.Blank

/-!
# Regraft.Proofs.Text.Solid -- the characters of a text that are no white space

`solid` forgets layout: two texts with the same solid characters differ in white space only.
Trimming leaves the solid characters alone (`solid_trimEnd`), a text without any is blank
(`solid_eq_nil`), and a cut of the solid characters is a cut of the text (`solid_eq_append`).
-/

namespace Regraft.Text

set_option autoImplicit false

/-- The characters of a text that are no white space, in order. -/
def solid (t : Text) : Text :=
  t.filter fun c => !isBlank c

@[simp] theorem solid_nil : solid [] = [] := rfl

@[simp] theorem solid_append (s t : Text) : solid (s ++ t) = solid s ++ solid t := by
  simp [solid]

theorem solid_cons (c : Char) (t : Text) :
    solid (c :: t) = if isBlank c then solid t else c :: solid t := by
  by_cases h : isBlank c <;> simp [solid, h]

theorem mem_solid {c : Char} {t : Text} : c ∈ solid t ↔ c ∈ t ∧ isBlank c = false := by
  simp [solid]

theorem isBlankText_iff {t : Text} : isBlankText t = true ↔ ∀ c ∈ t, isBlank c = true := by
  simp [isBlankText]

@[simp] theorem isBlankText_append (s t : Text) :
    isBlankText (s ++ t) = (isBlankText s && isBlankText t) := by
  simp [isBlankText]

@[simp] theorem isBlankText_cons (c : Char) (t : Text) :
    isBlankText (c :: t) = (isBlank c && isBlankText t) := by
  simp [isBlankText]

@[simp] theorem isBlankText_nil : isBlankText [] = true := rfl

theorem solid_eq_nil {t : Text} : solid t = [] ↔ isBlankText t = true := by
  simp [solid, isBlankText]

theorem ne_of_isBlank {c d : Char} (blank : isBlank c = true) (inked : isBlank d = false) : c ≠ d := by
  rintro rfl
  rw [blank] at inked
  cases inked

theorem isBlank_of_isIndent {c : Char} (h : isIndent c = true) : isBlank c = true := by
  simp only [isIndent, Bool.or_eq_true, beq_iff_eq] at h
  rcases h with rfl | rfl <;> decide

/-- A solid character is no indentation. -/
theorem isIndent_of_inked {c : Char} (inked : isBlank c = false) : isIndent c = false :=
  Bool.eq_false_iff.2 fun h => ne_of_isBlank (isBlank_of_isIndent h) inked rfl

/-- A solid character stands in no blank text. -/
theorem not_mem_of_isBlankText {t : Text} {c : Char} (blank : isBlankText t = true)
    (inked : isBlank c = false) : c ∉ t :=
  fun m => ne_of_isBlank (isBlankText_iff.1 blank c m) inked rfl

/-- Indentation stays on its line. -/
theorem noFeed_of_all_isIndent {t : Text} (h : ∀ c ∈ t, isIndent c = true) : '\n' ∉ t :=
  fun m => absurd (h _ m) (by decide)

theorem noFeed_indent_lead {lead ind : Text} (noFeed : '\n' ∉ lead)
    (hi : ∀ c ∈ ind, isIndent c = true) : '\n' ∉ ind ++ lead := by
  rw [List.mem_append, not_or]
  exact ⟨noFeed_of_all_isIndent hi, noFeed⟩

theorem isBlankText_of_all_isIndent {t : Text} (h : ∀ c ∈ t, isIndent c = true) :
    isBlankText t = true :=
  isBlankText_iff.2 fun c m => isBlank_of_isIndent (h c m)

/-- A cut of the solid characters is a cut of the text. -/
theorem solid_eq_append {t a b : Text} (h : solid t = a ++ b) :
    ∃ s u, t = s ++ u ∧ solid s = a ∧ solid u = b := by
  obtain ⟨s, u, e, left, right⟩ := List.filter_eq_append_iff.1 h
  exact ⟨s, u, e, left, right⟩

/-- Where characters of a class come first, the cut before the others is unique. -/
theorem append_inj_of_kind {kind : Char → Bool} {a b x y : Text} (e : a ++ x = b ++ y)
    (ha : ∀ c ∈ a, kind c = true) (hb : ∀ c ∈ b, kind c = true)
    (hx : ∀ c, x.head? = some c → kind c = false) (hy : ∀ c, y.head? = some c → kind c = false) :
    a = b ∧ x = y := by
  have none_ {t : Text} (ht : ∀ c, t.head? = some c → kind c = false) :
      t.takeWhile kind = [] := by
    cases t with
    | nil => rfl
    | cons c t => rw [List.takeWhile_cons_of_neg (by simp [ht c rfl])]
  have front := congrArg (List.takeWhile kind) e
  rw [List.takeWhile_append_of_pos ha, List.takeWhile_append_of_pos hb, none_ hx, none_ hy,
    List.append_nil, List.append_nil] at front
  rw [front] at e
  exact ⟨front, List.append_cancel_left e⟩

/-- Where characters of a class come last, the cut behind the others is unique. -/
theorem append_inj_of_kind_right {kind : Char → Bool} {a b x y : Text} (e : x ++ a = y ++ b)
    (ha : ∀ c ∈ a, kind c = true) (hb : ∀ c ∈ b, kind c = true)
    (hx : ∀ c, x.getLast? = some c → kind c = false) (hy : ∀ c, y.getLast? = some c → kind c = false) :
    x = y ∧ a = b := by
  have turned : a.reverse ++ x.reverse = b.reverse ++ y.reverse := by
    rw [← List.reverse_append, ← List.reverse_append, e]
  have parts := append_inj_of_kind turned (by simpa using ha) (by simpa using hb)
    (by simpa using hx) (by simpa using hy)
  exact ⟨List.reverse_inj.1 parts.2, List.reverse_inj.1 parts.1⟩

/-! ## Trimming -/

/-- A text is its trimmed form and white space. -/
theorem trimEnd_append (t : Text) : ∃ tail, t = trimEnd t ++ tail ∧ isBlankText tail = true := by
  refine ⟨(t.reverse.takeWhile isBlank).reverse, ?_, ?_⟩
  · rw [trimEnd, ← List.reverse_append, List.takeWhile_append_dropWhile, List.reverse_reverse]
  · simp only [isBlankText, List.all_reverse, List.all_eq_true]
    intro c m
    exact List.mem_takeWhile_imp m

@[simp] theorem solid_trimEnd (t : Text) : solid (trimEnd t) = solid t := by
  obtain ⟨tail, e, blank⟩ := trimEnd_append t
  conv => rhs; rw [e]
  rw [solid_append, solid_eq_nil.2 blank, List.append_nil]

/-- The last character of a trimmed text is no white space. -/
theorem trimEnd_last {t : Text} {c : Char} (h : (trimEnd t).getLast? = some c) :
    isBlank c = false := by
  simp only [trimEnd, List.getLast?_reverse] at h
  exact List.head?_dropWhile_not isBlank t.reverse |> fun k => by simpa [h] using k

theorem getLast?_trimEnd (t : Text) : (trimEnd t).getLast? = (solid t).getLast? := by
  rw [← solid_trimEnd]
  rcases List.eq_nil_or_concat (trimEnd t) with none_ | ⟨front, c, e⟩
  · rw [none_, solid_nil]
  · rw [List.concat_eq_append] at e
    have inked : isBlank c = false := trimEnd_last (t := t) (by rw [e]; simp)
    rw [e, solid_append, solid_cons, inked]
    simp

theorem trimEnd_append_blank (t : Text) {tail : Text} (blank : isBlankText tail = true) :
    trimEnd (t ++ tail) = trimEnd t := by
  have all : ∀ c ∈ tail.reverse, isBlank c = true := by
    intro c m
    exact isBlankText_iff.1 blank c (List.mem_reverse.1 m)
  simp only [trimEnd, List.reverse_append]
  rw [List.dropWhile_append_of_pos all]

/-- Trimming a text is trimming its end. -/
theorem trimEnd_append_congr (s : Text) {t t' : Text} (h : trimEnd t = trimEnd t') :
    trimEnd (s ++ t) = trimEnd (s ++ t') := by
  obtain ⟨tail, e, blank⟩ := trimEnd_append t
  obtain ⟨tail', e', blank'⟩ := trimEnd_append t'
  rw [e, e', h, ← List.append_assoc, ← List.append_assoc, trimEnd_append_blank _ blank,
    trimEnd_append_blank _ blank']

theorem trimEnd_of_last {t : Text} {c : Char} (last : t.getLast? = some c)
    (solidLast : isBlank c = false) : trimEnd t = t := by
  obtain ⟨front, rfl⟩ := List.getLast?_eq_some_iff.1 last
  simp [trimEnd, solidLast]

theorem trimEnd_of_blank {t : Text} (blank : isBlankText t = true) : trimEnd t = [] := by
  exact trimEnd_append_blank [] blank

theorem trimStart_append_of_blank {s : Text} (blank : isBlankText s = true) (t : Text) :
    trimStart (s ++ t) = trimStart t :=
  List.dropWhile_append_of_pos (isBlankText_iff.1 blank)

theorem trimStart_eq_cons {t rest : Text} {c : Char} (h : trimStart t = c :: rest) :
    ∃ gap, t = gap ++ c :: rest ∧ isBlankText gap = true ∧ isBlank c = false := by
  refine ⟨t.takeWhile isBlank, ?_, isBlankText_iff.2 fun d m => List.mem_takeWhile_imp m, ?_⟩
  · rw [← h, trimStart, List.takeWhile_append_dropWhile]
  · have := List.head?_dropWhile_not isBlank t
    rw [← trimStart, h] at this
    simpa using this

theorem trimStart_gap {gap : Text} {c : Char} (blank : isBlankText gap = true)
    (inked : isBlank c = false) (rest : Text) : trimStart (gap ++ c :: rest) = c :: rest := by
  rw [trimStart_append_of_blank blank]
  simp [trimStart, inked]

theorem trimStart_eq_nil {t : Text} (h : trimStart t = []) : isBlankText t = true := by
  rw [trimStart, List.dropWhile_eq_nil_iff] at h
  exact isBlankText_iff.2 h

end Regraft.Text
