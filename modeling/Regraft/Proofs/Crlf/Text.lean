import Regraft.Proofs.Text.Solid

/-!
# Regraft.Proofs.Crlf.Text -- texts with carriage returns

`crlf` puts a carriage return before every line feed.  White space stays white space and the last
character stays the last, a text of one line stays as it is, and cuts at characters other than line
feeds cut the converted text in the converted pieces (`cutAt?_crlf`, `splitLastLine_crlf`).
-/

namespace Regraft.Text

set_option autoImplicit false

/-- A text with a carriage return before every line feed. -/
def crlf (t : Text) : Text :=
  t.flatMap fun c => if c = '\n' then ['\r', '\n'] else [c]

/-- Whether a text has no characters of a line end. -/
def OneLine (t : Text) : Prop :=
  ∀ c ∈ t, c ≠ '\r' ∧ c ≠ '\n'

instance (t : Text) : Decidable (OneLine t) :=
  List.decidableBAll (fun c => c ≠ '\r' ∧ c ≠ '\n') t

@[simp] theorem crlf_nil : crlf [] = [] := rfl

@[simp] theorem crlf_feed (t : Text) : crlf ('\n' :: t) = '\r' :: '\n' :: crlf t := rfl

theorem crlf_cons {c : Char} (other : c ≠ '\n') (t : Text) : crlf (c :: t) = c :: crlf t := by
  simp [crlf, other]

@[simp] theorem crlf_append (s t : Text) : crlf (s ++ t) = crlf s ++ crlf t := by
  simp [crlf]

/-- A text of one line has no line feed to convert. -/
theorem crlf_of_oneLine {t : Text} (line : OneLine t) : crlf t = t := by
  induction t with
  | nil => rfl
  | cons c t ih =>
      rw [crlf_cons (line c List.mem_cons_self).2, ih fun d m => line d (List.mem_cons_of_mem c m)]

theorem crlf_eq_nil {t : Text} : crlf t = [] ↔ t = [] := by
  cases t with
  | nil => simp
  | cons c t =>
      by_cases feed : c = '\n'
      · simp [feed]
      · simp [crlf_cons feed]

theorem crlf_head? {c : Char} {t : Text} (h : (crlf t).head? = some c) :
    c = '\r' ∧ t.head? = some '\n' ∨ c ≠ '\n' ∧ t.head? = some c := by
  cases t with
  | nil => cases h
  | cons d t =>
      by_cases feed : d = '\n'
      · subst feed
        exact Or.inl ⟨(Option.some.inj h).symm, rfl⟩
      · rw [crlf_cons feed] at h
        obtain rfl := Option.some.inj h
        exact Or.inr ⟨feed, rfl⟩

/-- A converted text does not start inside of a line end. -/
theorem crlf_head?_ne (t : Text) : (crlf t).head? ≠ some '\n' := by
  intro h
  rcases crlf_head? h with ⟨h, -⟩ | ⟨h, -⟩
  · cases h
  · exact h rfl

theorem crlf_inj {s t : Text} (hs : '\r' ∉ s) (ht : '\r' ∉ t) : crlf s = crlf t ↔ s = t := by
  refine ⟨fun same => ?_, congrArg crlf⟩
  induction s generalizing t with
  | nil => exact (crlf_eq_nil.1 same.symm).symm
  | cons c s ih =>
      cases t with
      | nil => exact crlf_eq_nil.1 same
      | cons d t =>
          simp only [List.mem_cons, not_or] at hs ht
          by_cases feed : c = '\n' <;> by_cases feed' : d = '\n'
          · subst feed feed'
            simp only [crlf_feed, List.cons.injEq, true_and] at same
            rw [ih hs.2 ht.2 same]
          · rw [feed, crlf_feed, crlf_cons feed', List.cons.injEq] at same
            exact absurd same.1 ht.1
          · rw [feed', crlf_feed, crlf_cons feed, List.cons.injEq] at same
            exact absurd same.1.symm hs.1
          · rw [crlf_cons feed, crlf_cons feed', List.cons.injEq] at same
            rw [same.1, ih hs.2 ht.2 same.2]

/-- Ends of a text are converted to shorter texts exactly if they are shorter. -/
theorem crlf_length_lt {s t : Text} (h : s <:+ t) :
    (crlf s).length < (crlf t).length ↔ s.length < t.length := by
  obtain ⟨front, rfl⟩ := h
  rw [crlf_append, List.length_append, List.length_append]
  have some_ : 0 < (crlf front).length ↔ 0 < front.length := by
    rw [List.length_pos_iff, List.length_pos_iff, ne_eq, ne_eq, crlf_eq_nil]
  omega

theorem crlf_getLast? (t : Text) : (crlf t).getLast? = t.getLast? := by
  rcases List.eq_nil_or_concat t with rfl | ⟨front, c, rfl⟩
  · rfl
  · rw [List.concat_eq_append, crlf_append, List.getLast?_append, List.getLast?_append]
    by_cases feed : c = '\n'
    · subst feed
      rfl
    · rw [crlf_cons feed]
      rfl

theorem isBlankText_crlf (t : Text) : isBlankText (crlf t) = isBlankText t := by
  induction t with
  | nil => rfl
  | cons c t ih =>
      by_cases feed : c = '\n'
      · subst feed
        simp only [crlf_feed, isBlankText_cons, ih]
        rfl
      · rw [crlf_cons feed, isBlankText_cons, isBlankText_cons, ih]

theorem taken_crlf {t rest : Text} (h : rest <:+ t) :
    taken (crlf t) (crlf rest) = crlf (taken t rest) := by
  obtain ⟨front, rfl⟩ := h
  rw [crlf_append, taken_append, taken_append]

/-- What the first characters of a text become does not stand in the rest. -/
theorem crlf_drop (t : Text) (n : Nat) :
    (crlf t).drop (crlf (t.take n)).length = crlf (t.drop n) := by
  have parts : crlf t = crlf (t.take n) ++ crlf (t.drop n) := by
    rw [← crlf_append, List.take_append_drop]
  rw [parts, List.drop_left]

/-- The same for a start of the text, which may be shorter than what goes. -/
theorem crlf_drop_prefix {s t : Text} (h : s <+: t) (n : Nat) :
    (crlf s).drop (crlf (t.take n)).length = crlf (s.drop n) := by
  obtain ⟨back, rfl⟩ := h
  rcases Nat.le_total n s.length with short | long
  · rw [List.take_append_of_le_length short, crlf_drop]
  · rw [List.take_append, List.take_of_length_le long, crlf_append,
      List.drop_eq_nil_of_le (by simp), List.drop_eq_nil_of_le long, crlf_nil]

/-! ## Cuts -/

theorem after?_crlf {needle : Text} (line : OneLine needle) (t : Text) :
    after? needle (crlf t) = (after? needle t).map crlf := by
  induction needle generalizing t with
  | nil => rfl
  | cons a needle ih =>
      obtain ⟨ret, feed⟩ := line a List.mem_cons_self
      cases t with
      | nil => rfl
      | cons c t =>
          by_cases same : a = c
          · subst same
            simp only [crlf_cons feed, after?, if_true]
            exact ih (fun d m => line d (List.mem_cons_of_mem a m)) t
          · by_cases other : c = '\n'
            · subst other
              simp [after?, ret, feed]
            · simp [crlf_cons other, after?, same]

theorem cutAt?_crlf {needle : Text} (line : OneLine needle) (some_ : needle ≠ []) (t : Text) :
    cutAt? needle (crlf t) = (cutAt? needle t).map fun (before, rest) => (crlf before, crlf rest) := by
  induction t with
  | nil =>
      cases needle with
      | nil => exact absurd rfl some_
      | cons a needle => rfl
  | cons c t ih =>
      have here := after?_crlf line (c :: t)
      by_cases feed : c = '\n'
      · subst feed
        have apart (d : Char) (ht : d = '\r' ∨ d = '\n') (rest : Text) :
            after? needle (d :: rest) = none := by
          cases needle with
          | nil => exact absurd rfl some_
          | cons a needle =>
              obtain ⟨ret, feed⟩ := line a List.mem_cons_self
              rcases ht with rfl | rfl
              · simp [after?, ret]
              · simp [after?, feed]
        simp only [crlf_feed, cutAt?, apart _ (Or.inl rfl), apart _ (Or.inr rfl), ih]
        cases cutAt? needle t <;> simp
      · rw [crlf_cons feed] at here ⊢
        simp only [cutAt?, here]
        cases after? needle (c :: t) with
        | some rest => rfl
        | none =>
            simp only [Option.map_none, ih]
            cases cutAt? needle t <;> simp [crlf_cons feed]

theorem splitLastLine_crlf (t : Text) :
    splitLastLine (crlf t) = (crlf (splitLastLine t).1, crlf (splitLastLine t).2) := by
  induction t with
  | nil => rfl
  | cons c t ih =>
      have empty : (crlf (splitLastLine t).1).isEmpty = (splitLastLine t).1.isEmpty := by
        rw [Bool.eq_iff_iff, List.isEmpty_iff, List.isEmpty_iff, crlf_eq_nil]
      by_cases feed : c = '\n'
      · subst feed
        simp [splitLastLine, ih]
      · simp only [crlf_cons feed, splitLastLine, ih, empty]
        split
        · simp [crlf_cons feed]
        · simp [crlf_cons feed]

theorem trimStart_crlf (t : Text) : trimStart (crlf t) = crlf (trimStart t) := by
  induction t with
  | nil => rfl
  | cons c t ih =>
      by_cases feed : c = '\n'
      · subst feed
        rw [crlf_feed]
        exact ih
      · rw [crlf_cons feed]
        by_cases blank : isBlank c = true
        · simpa [trimStart, blank] using ih
        · simp [trimStart, blank, crlf_cons feed]

theorem trimEnd_crlf (t : Text) : trimEnd (crlf t) = crlf (trimEnd t) := by
  obtain ⟨tail, parts, blank⟩ := trimEnd_append t
  conv => lhs; rw [parts, crlf_append]
  rw [trimEnd_append_blank _ (by rwa [isBlankText_crlf])]
  cases last : (trimEnd t).getLast? with
  | none =>
      rw [List.getLast?_eq_none_iff] at last
      rw [last]
      rfl
  | some c =>
      exact trimEnd_of_last (by rw [crlf_getLast?, last]) (trimEnd_last last)

end Regraft.Text
