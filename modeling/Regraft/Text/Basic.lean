/-!
# Regraft.Text.Basic -- text as the list of its characters

A text is the list of its code points, so an offset is the length of what stands before it and
every cut is a list equation.  `after?` reads a literal off the front, `cutAt?` splits at the
first place where a literal stands, `splitLastLine` separates the line in which a text ends.
Each comes with the equation that puts the pieces together again (`after?_eq_some`,
`cutAt?_append`, `splitLastLine_append`).
-/

namespace Regraft

set_option autoImplicit false

/-- A text, one entry for each code point. -/
abbrev Text := List Char

namespace Text

/-- The rest of a text after a literal that stands at its front. -/
def after? : Text → Text → Option Text
  | [], t => some t
  | _ :: _, [] => none
  | a :: needle, c :: t => if a = c then after? needle t else none

@[simp] theorem after?_append (needle t : Text) : after? needle (needle ++ t) = some t := by
  induction needle with
  | nil => rfl
  | cons a needle ih => simp [after?, ih]

theorem after?_eq_some {needle t rest : Text} :
    after? needle t = some rest ↔ t = needle ++ rest := by
  constructor
  · intro h
    fun_induction after? needle t with
    | case1 t => simpa using h
    | case2 => simp at h
    | case3 needle c t ih => simp [ih h]
    | case4 => simp at h
  · rintro rfl
    exact after?_append needle rest

/-- Split at the first place where a literal stands: what comes before it and what follows it. -/
def cutAt? (needle : Text) : Text → Option (Text × Text)
  | [] => (after? needle []).map fun rest => ([], rest)
  | c :: t =>
      match after? needle (c :: t) with
      | some rest => some ([], rest)
      | none => (cutAt? needle t).map fun (before, rest) => (c :: before, rest)

theorem cutAt?_append {needle t before rest : Text} (h : cutAt? needle t = some (before, rest)) :
    t = before ++ needle ++ rest := by
  induction t generalizing before with
  | nil =>
      simp only [cutAt?, Option.map_eq_some_iff, Prod.mk.injEq] at h
      obtain ⟨r, found, rfl, rfl⟩ := h
      simpa using after?_eq_some.1 found
  | cons c t ih =>
      simp only [cutAt?] at h
      split at h
      · rename_i r found
        simp only [Option.some.injEq, Prod.mk.injEq] at h
        obtain ⟨rfl, rfl⟩ := h
        simpa using after?_eq_some.1 found
      · simp only [Option.map_eq_some_iff, Prod.mk.injEq, Prod.exists] at h
        obtain ⟨b, r, found, rfl, rfl⟩ := h
        simp [ih found]

/-- A text cut in two where its last line starts: right after its last line feed. -/
def splitLastLine : Text → Text × Text
  | [] => ([], [])
  | c :: t =>
      let (before, last) := splitLastLine t
      if before.isEmpty && c != '\n' then ([], c :: last) else (c :: before, last)

theorem splitLastLine_append (t : Text) : (splitLastLine t).1 ++ (splitLastLine t).2 = t := by
  induction t with
  | nil => rfl
  | cons c t ih =>
      simp only [splitLastLine]
      split
      · rename_i h
        simp only [Bool.and_eq_true, List.isEmpty_iff] at h
        rw [h.1] at ih
        simpa using ih
      · simpa using ih

/-- Whether a character is a space or a tab, the only indentation there is. -/
def isIndent (c : Char) : Bool :=
  c == ' ' || c == '\t'

/-- The spaces and tabs a text starts with. -/
def indentation (t : Text) : Text :=
  t.takeWhile isIndent

/-- What a reader took off the front of `t` when it left `rest`. -/
def taken (t rest : Text) : Text :=
  t.take (t.length - rest.length)

theorem taken_append (front rest : Text) : taken (front ++ rest) rest = front := by
  simp [taken]

end Text

end Regraft
