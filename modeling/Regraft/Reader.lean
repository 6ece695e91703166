import Regraft.Text.Blank
import Regraft.Text.Word

/-!
# Regraft.Reader -- readers that list every way to read

A reader takes a value off the front of a text.  It lists all the ways to do so, the most wanted
first, each with the text it leaves; an empty list is a refusal.  Sequencing tries the ways in
order, so the head of the list is the reading that a search with backtracking finds first, while
membership in the list says what can be read at all, whatever the order (`mem_bind`,
`mem_literal`).

`cuts` walks over a text and takes the first reading wherever one exists, starting over after
it; `cuts_text` says that the pieces are the text again.
-/

namespace Regraft

set_option autoImplicit false

/-- The ways to read a value off the front of a text, each with the text that is left. -/
def Reader (α : Type) : Type := Text → List (α × Text)

namespace Reader

variable {α β : Type}

instance : Monad Reader where
  pure a := fun t => [(a, t)]
  bind r f := fun t => (r t).flatMap fun p => f p.1 p.2

theorem mem_pure {a b : α} {t rest : Text} :
    (b, rest) ∈ (pure a : Reader α) t ↔ b = a ∧ rest = t := by
  simp [pure]

theorem mem_bind {r : Reader α} {f : α → Reader β} {b : β} {t rest : Text} :
    (b, rest) ∈ (r >>= f) t ↔ ∃ a mid, (a, mid) ∈ r t ∧ (b, rest) ∈ f a mid := by
  simp [bind, List.mem_flatMap, Prod.exists]

def first? (r : Reader α) (t : Text) : Option (α × Text) :=
  (r t).head?

theorem first?_eq_none {r : Reader α} {t : Text} : first? r t = none ↔ r t = [] :=
  List.head?_eq_none_iff

theorem mem_of_first? {r : Reader α} {t : Text} {p : α × Text} (found : first? r t = some p) :
    p ∈ r t :=
  List.mem_of_head? found

theorem first?_of_cons {r : Reader α} {t : Text} {p : α × Text} {others : List (α × Text)}
    (readings : r t = p :: others) : first? r t = some p := by
  rw [first?, readings, List.head?_cons]

/-- Read nothing; only where the text ahead fits. -/
def when (fits : Text → Bool) : Reader Unit := fun t => if fits t then [((), t)] else []

/-- Read one character of a class. -/
def one (kind : Char → Bool) : Reader Char
  | [] => []
  | c :: t => if kind c then [(c, t)] else []

def literal (needle : Text) : Reader Unit := fun t =>
  match Text.after? needle t with
  | some rest => [((), rest)]
  | none => []

theorem mem_literal {needle t rest : Text} :
    ((), rest) ∈ literal needle t ↔ t = needle ++ rest := by
  rw [← Text.after?_eq_some]
  cases h : Text.after? needle t <;> simp [literal, h, eq_comm]

/-- The ways to read characters of a class, the longest first, in front of the ways in `fewer`.
Each value is what was read on top of `taken`, the last character first. -/
def manyFrom (kind : Char → Bool) (taken : Text) (fewer : List (Text × Text)) :
    Text → List (Text × Text)
  | [] => (taken, []) :: fewer
  | c :: t =>
      if kind c then manyFrom kind (c :: taken) ((taken, c :: t) :: fewer) t
      else (taken, c :: t) :: fewer

/-- Read characters of a class, as many as there are or fewer; the value is what was read, the
last character first. -/
def manyBack (kind : Char → Bool) : Reader Text :=
  manyFrom kind [] []

/-- Read characters of a class, as many as there are or fewer. -/
def many (kind : Char → Bool) : Reader Text := fun t =>
  (manyBack kind t).map fun p => (p.1.reverse, p.2)

/-- Pass over characters of a class, as many as there are or fewer. -/
def skip (kind : Char → Bool) : Reader Unit := fun t =>
  (manyBack kind t).map fun p => ((), p.2)

theorem manyFrom_eq (kind : Char → Bool) (taken : Text) (fewer : List (Text × Text)) (t : Text) :
    manyFrom kind taken fewer t =
      (manyBack kind t).map (fun p => (p.1 ++ taken, p.2)) ++ fewer := by
  induction t generalizing taken fewer with
  | nil => simp [manyFrom, manyBack]
  | cons c t ih =>
      by_cases h : kind c
      · simp [manyFrom, manyBack, h, ih (c :: taken), ih [c]]
      · simp [manyFrom, manyBack, h]

theorem many_nil (kind : Char → Bool) : many kind [] = [([], [])] := rfl

/-- A character of the class is read before others or not at all. -/
theorem many_cons (kind : Char → Bool) (c : Char) (t : Text) :
    many kind (c :: t) =
      (if kind c then (many kind t).map fun p => (c :: p.1, p.2) else []) ++ [([], c :: t)] := by
  by_cases h : kind c
  · simp [many, manyBack, manyFrom, h, manyFrom_eq kind [c], Function.comp_def]
  · simp [many, manyBack, manyFrom, h]

theorem mem_many {kind : Char → Bool} {taken t rest : Text} :
    (taken, rest) ∈ many kind t ↔ t = taken ++ rest ∧ ∀ c ∈ taken, kind c = true := by
  induction t generalizing taken with
  | nil =>
      simp only [many_nil, List.mem_singleton, Prod.mk.injEq, List.nil_eq_append_iff]
      constructor
      · rintro ⟨rfl, rfl⟩; simp
      · rintro ⟨h, -⟩; exact h
  | cons c t ih =>
      simp only [many_cons, List.mem_append, List.mem_singleton, Prod.mk.injEq]
      constructor
      · rintro (member | ⟨rfl, rfl⟩)
        · split at member
          · rename_i inClass
            simp only [List.mem_map, Prod.mk.injEq, Prod.exists] at member
            obtain ⟨a, r, member, rfl, rfl⟩ := member
            obtain ⟨rfl, all⟩ := ih.1 member
            exact ⟨rfl, by simpa [inClass] using all⟩
          · simp at member
        · simp
      · rintro ⟨e, all⟩
        cases taken with
        | nil => exact Or.inr ⟨rfl, by simpa using e.symm⟩
        | cons d taken =>
            simp only [List.cons_append, List.cons.injEq] at e
            have inClass : kind c = true := e.1 ▸ all d (by simp)
            have member := ih.2 ⟨e.2, fun x m => all x (by simp [m])⟩
            left
            simp only [inClass, if_true, List.mem_map, Prod.mk.injEq, Prod.exists]
            exact ⟨taken, rest, member, by rw [e.1], rfl⟩

theorem mem_skip {kind : Char → Bool} {t rest : Text} :
    ((), rest) ∈ skip kind t ↔ ∃ taken, t = taken ++ rest ∧ ∀ c ∈ taken, kind c = true := by
  have e : skip kind t = (many kind t).map fun p => ((), p.2) := by
    simp [skip, many, Function.comp_def]
  simp only [e, List.mem_map, Prod.mk.injEq, true_and, Prod.exists, exists_eq_right, mem_many]

def many1 (kind : Char → Bool) : Reader Text := do
  let c ← one kind
  let more ← many kind
  return c :: more

def orElse (r s : Reader α) : Reader α := fun t => r t ++ s t

def optional (r : Reader α) : Reader (Option α) :=
  orElse (some <$> r) (pure none)

/-- Read something again and again, as often as it takes characters, or less often. -/
def star (r : Reader α) (t : Text) : List (List α × Text) :=
  ((r t).attach.flatMap fun ⟨(a, rest), _⟩ =>
    if _shorter : rest.length < t.length then
      (star r rest).map fun p => (a :: p.1, p.2)
    else []) ++ [([], t)]
termination_by t.length

/-- Pass over white space, or nothing. -/
def blanks : Reader Unit := skip Text.isBlank

/-- Pass over white space. -/
def blanks1 : Reader Unit := do
  let _ ← one Text.isBlank
  blanks

/-- Pass over spaces and tabs, or nothing. -/
def indent : Reader Unit := skip Text.isIndent

def ident : Reader Text := do
  let c ← one Text.isIdentStart
  let more ← many Text.isWord
  return c :: more

/-- Read a line feed, with or without a carriage return before it. -/
def lineEnd : Reader Text :=
  orElse (do literal ['\r', '\n']; return ['\r', '\n']) (do literal ['\n']; return ['\n'])

/-- Read nothing, at the end of the text. -/
def textEnd : Reader Unit := when List.isEmpty

/-! ## Walking over a text -/

/-- A piece of a text: a character that starts no reading, or what a reading took. -/
inductive Piece (α : Type) where
  | plain (c : Char)
  | hit (taken : Text) (value : α)

/-- The text of a piece. -/
def Piece.text : Piece α → Text
  | .plain c => [c]
  | .hit taken _ => taken

/-- The pieces of a text for a reader that may look at the character before its place.  The
walk takes the first reading at the first place that has one, and goes on after it; a reading
that takes nothing is passed over. -/
def cuts (r : Option Char → Reader α) (before : Option Char) : Text → List (Piece α)
  | [] => []
  | c :: t =>
      match first? (r before) (c :: t) with
      | none => .plain c :: cuts r (some c) t
      | some (a, rest) =>
          if _shorter : rest.length < (c :: t).length then
            let front := Text.taken (c :: t) rest
            .hit front a :: cuts r (front.getLast?) rest
          else .plain c :: cuts r (some c) t
termination_by t => t.length
decreasing_by
  · exact Nat.lt_succ_self _
  · exact _shorter
  · exact Nat.lt_succ_self _

/-- What a reader leaves is an end of what it was given. -/
def Suffixed (r : Reader α) : Prop :=
  ∀ t p, p ∈ r t → p.2 <:+ t

theorem suffixed_pure (a : α) : Suffixed (pure a : Reader α) := by
  rintro t ⟨b, rest⟩ h
  obtain ⟨-, rfl⟩ := mem_pure.1 h
  exact List.suffix_refl rest

theorem suffixed_bind {r : Reader α} {f : α → Reader β} (hr : Suffixed r)
    (hf : ∀ a, Suffixed (f a)) : Suffixed (r >>= f) := by
  intro t p h
  obtain ⟨a, mid, first, second⟩ := mem_bind.1 h
  exact (hf a mid p second).trans (hr t (a, mid) first)

theorem suffixed_when (fits : Text → Bool) : Suffixed (when fits) := by
  intro t p h
  simp only [when] at h
  split at h <;> simp_all

theorem suffixed_literal (needle : Text) : Suffixed (literal needle) := by
  intro t p h
  rw [mem_literal.1 h]
  exact List.suffix_append ..

theorem suffixed_many (kind : Char → Bool) : Suffixed (many kind) := by
  intro t p h
  rw [(mem_many.1 h).1]
  exact List.suffix_append ..

theorem suffixed_skip (kind : Char → Bool) : Suffixed (skip kind) := by
  intro t p h
  obtain ⟨taken, e, -⟩ := mem_skip.1 h
  exact ⟨taken, e.symm⟩

theorem suffixed_one (kind : Char → Bool) : Suffixed (one kind) := by
  intro t p h
  cases t with
  | nil => simp [one] at h
  | cons c t =>
      simp only [one] at h
      split at h
      · simp only [List.mem_singleton] at h
        subst h
        exact List.suffix_cons ..
      · simp at h

theorem suffixed_orElse {r s : Reader α} (hr : Suffixed r) (hs : Suffixed s) :
    Suffixed (orElse r s) := by
  intro t p h
  rcases List.mem_append.1 h with h | h
  · exact hr t p h
  · exact hs t p h

theorem suffixed_lineEnd : Suffixed lineEnd :=
  suffixed_orElse (suffixed_bind (suffixed_literal _) fun _ => suffixed_pure _)
    (suffixed_bind (suffixed_literal _) fun _ => suffixed_pure _)

theorem cuts_text {r : Option Char → Reader α} (ends : ∀ before, Suffixed (r before))
    (before : Option Char) (t : Text) : (cuts r before t).flatMap Piece.text = t := by
  fun_induction cuts r before t with
  | case1 => rfl
  | case2 before c t _ ih => simp [Piece.text, ih]
  | case3 before c t a rest found shorter front ih =>
      obtain ⟨h, e⟩ := ends before (c :: t) (a, rest) (mem_of_first? found)
      simp only [List.flatMap_cons, Piece.text, ih]
      simp only [front, ← e, Text.taken_append]
  | case4 before c t _ _ _ _ ih => simp [Piece.text, ih]

def replace (r : Option Char → Reader α) (swap : Text → α → Text) (t : Text) : Text :=
  (cuts r none t).flatMap fun
    | .plain c => [c]
    | .hit taken a => swap taken a

def remove (r : Option Char → Reader α) (t : Text) : Text :=
  replace r (fun _ _ => []) t

theorem remove_sublist {r : Option Char → Reader α} (ends : ∀ before, Suffixed (r before))
    (t : Text) : (remove r t).Sublist t := by
  conv => rhs; rw [← cuts_text ends none t]
  simp only [remove, replace]
  induction cuts r none t with
  | nil => exact List.Sublist.refl _
  | cons p more ih =>
      simp only [List.flatMap_cons]
      cases p with
      | plain c => exact (List.Sublist.refl _).append ih
      | hit front a => exact (List.nil_sublist _).append ih

/-- A reading and the offsets between which it stands. -/
structure Occurrence (α : Type) where
  start : Nat
  stop : Nat
  value : α

/-- The readings among pieces, the first piece standing at an offset. -/
def occurrencesFrom (offset : Nat) : List (Piece α) → List (Occurrence α)
  | [] => []
  | .plain _ :: more => occurrencesFrom (offset + 1) more
  | .hit taken a :: more =>
      ⟨offset, offset + taken.length, a⟩ :: occurrencesFrom (offset + taken.length) more

/-- The readings in a text, in order; no two of them overlap. -/
def occurrences (r : Option Char → Reader α) (t : Text) : List (Occurrence α) :=
  occurrencesFrom 0 (cuts r none t)

end Reader

end Regraft
