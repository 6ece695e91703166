import Regraft.Span

/-!
# Regraft.Brace -- curly braces by depth

Braces are counted over raw text: one in a string literal or a comment counts like any other.
`closeBlock` reads a block whose brace is already open and returns what it encloses and what
follows; the pieces are the text again (`closeBlock_append`).  `isBalanced` says that every
brace has its partner.
-/

namespace Regraft.Brace

set_option autoImplicit false

/-- Read up to the brace that closes an open block, `depth` further blocks being open in it:
what comes before that brace and what follows it, or, where the text ends first, the number of
blocks that are still open. -/
def closeBlock (depth : Nat) : Text → Except Nat (Text × Text)
  | [] => .error (depth + 1)
  | c :: t =>
      if c = '{' then (closeBlock (depth + 1) t).map fun (inner, rest) => (c :: inner, rest)
      else if c = '}' then
        match depth with
        | 0 => .ok ([], t)
        | outer + 1 => (closeBlock outer t).map fun (inner, rest) => (c :: inner, rest)
      else (closeBlock depth t).map fun (inner, rest) => (c :: inner, rest)

/-- A block that ends behind one more character ends where it did. -/
theorem closeBlock_of_map_cons {depth : Nat} {c : Char} {t inner rest : Text}
    (h : (closeBlock depth t).map (fun p => (c :: p.1, p.2)) = .ok (inner, rest)) :
    ∃ inner', closeBlock depth t = .ok (inner', rest) ∧ inner = c :: inner' := by
  cases e : closeBlock depth t with
  | error n => simp [e, Except.map] at h
  | ok p =>
      simp only [e, Except.map, Except.ok.injEq, Prod.mk.injEq] at h
      obtain ⟨rfl, rfl⟩ := h
      exact ⟨p.1, rfl, rfl⟩

theorem closeBlock_append {depth : Nat} {t inner rest : Text}
    (h : closeBlock depth t = .ok (inner, rest)) : t = inner ++ '}' :: rest := by
  induction t generalizing depth inner with
  | nil => simp [closeBlock] at h
  | cons c t ih =>
      have step {d : Nat}
          (h : (closeBlock d t).map (fun p => (c :: p.1, p.2)) = .ok (inner, rest)) :
          c :: t = inner ++ '}' :: rest := by
        obtain ⟨inner', closes, rfl⟩ := closeBlock_of_map_cons h
        rw [ih closes, List.cons_append]
      simp only [closeBlock] at h
      split at h
      · exact step h
      · split at h
        · rename_i closes
          split at h
          · simp only [Except.ok.injEq, Prod.mk.injEq] at h
            obtain ⟨rfl, rfl⟩ := h
            simp [closes]
          · exact step h
        · exact step h

/-- Whether a text closes all of its blocks, `depth` blocks being open before it, and closes
none that was not opened. -/
def balancedFrom (depth : Nat) : Text → Bool
  | [] => depth == 0
  | c :: t =>
      if c = '{' then balancedFrom (depth + 1) t
      else if c = '}' then
        match depth with
        | 0 => false
        | outer + 1 => balancedFrom outer t
      else balancedFrom depth t

/-- Whether every closing brace of a text closes an earlier one and none stays open. -/
def isBalanced (t : Text) : Bool :=
  balancedFrom 0 t

/-- Why there is no matching brace: no block opens at the offset, or the one that opens there
is open at the end of the text, together with the blocks counted by `depth`. -/
inductive Error where
  | noBrace (offset : Int)
  | unclosed (offset depth : Nat)

def unclosedMessage (offset depth : Nat) : String :=
  "Unbalanced braces: '\x7b' at offset " ++ toString offset ++ " is never closed (depth " ++
    toString depth ++ " at end of text)"

def Error.message : Error → String
  | .noBrace offset => "No '\x7b' at offset " ++ toString offset
  | .unclosed offset depth => unclosedMessage offset depth

/-- The span between the brace at a given offset and its partner, both excluded. -/
def inside (t : Text) (offset : Int) : Except Error Span :=
  match offset, t.drop offset.toNat with
  | .ofNat start, '{' :: after =>
      match closeBlock 0 after with
      | .ok (inner, _) => .ok ⟨start + 1, start + 1 + inner.length, Nat.le_add_right ..⟩
      | .error depth => .error (.unclosed start depth)
  | _, _ => .error (.noBrace offset)

/-- The offset of the brace that closes the one at a given offset. -/
def matching (t : Text) (offset : Int) : Except Error Nat :=
  (inside t offset).map Span.stop

end Regraft.Brace
