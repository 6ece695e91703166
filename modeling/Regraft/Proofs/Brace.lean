import Regraft.Brace

/-!
# Regraft.Proofs.Brace -- depth as a function of the text read

`depthAfter` follows the depth over a text, or stops where a brace closes nothing.  It goes through
sequences (`depthAfter_append`), a text is balanced when it comes back to depth zero
(`balancedFrom_iff`), and `closeBlock` cuts a text at the one brace before which it is balanced
(`closeBlock_eq_ok`).  Where there is none the block is never closed (`closeBlock_eq_error`), which
does not happen in a balanced text (`exists_close`).  What `matching` answers for a brace is what
`closeBlock` says about the text behind it (`matching_of_closed`, `matching_of_open`).
-/

namespace Regraft.Brace

set_option autoImplicit false

/-- The number of open blocks after a text, `depth` of them being open before it; nothing where a
brace closes no block. -/
def depthAfter (depth : Nat) : Text → Option Nat
  | [] => some depth
  | c :: t =>
      if c = '{' then depthAfter (depth + 1) t
      else if c = '}' then
        match depth with
        | 0 => none
        | outer + 1 => depthAfter outer t
      else depthAfter depth t

theorem balancedFrom_iff {depth : Nat} {t : Text} :
    balancedFrom depth t = true ↔ depthAfter depth t = some 0 := by
  induction t generalizing depth with
  | nil => simp [balancedFrom, depthAfter]
  | cons c t ih =>
      simp only [balancedFrom, depthAfter]
      split
      · exact ih
      · split
        · split
          · simp
          · exact ih
        · exact ih

theorem isBalanced_iff {t : Text} : isBalanced t = true ↔ depthAfter 0 t = some 0 :=
  balancedFrom_iff

theorem depthAfter_append (depth : Nat) (s t : Text) :
    depthAfter depth (s ++ t) = (depthAfter depth s).bind fun d => depthAfter d t := by
  induction s generalizing depth with
  | nil => rfl
  | cons c s ih =>
      simp only [List.cons_append, depthAfter]
      split
      · exact ih _
      · split
        · split
          · rfl
          · exact ih _
        · exact ih _

/-- Blocks that are open around a text stay open. -/
theorem depthAfter_add {depth d : Nat} {t : Text} (h : depthAfter depth t = some d) (more : Nat) :
    depthAfter (depth + more) t = some (d + more) := by
  induction t generalizing depth with
  | nil =>
      simp only [depthAfter, Option.some.injEq] at h ⊢
      omega
  | cons c t ih =>
      simp only [depthAfter] at h ⊢
      split at h
      · rename_i opens
        have := ih h
        rw [if_pos opens]
        rwa [Nat.add_right_comm] at this
      · rename_i other
        rw [if_neg other]
        split at h
        · rename_i closes
          rw [if_pos closes]
          cases depth with
          | zero => simp at h
          | succ outer =>
              rw [Nat.add_right_comm]
              exact ih h
        · rename_i plain
          rw [if_neg plain]
          exact ih h

theorem depthAfter_of_isBalanced {t : Text} (h : isBalanced t = true) (depth : Nat) :
    depthAfter depth t = some depth := by
  have := depthAfter_add (isBalanced_iff.1 h) depth
  rwa [Nat.zero_add] at this

/-- A text without braces leaves the depth as it is. -/
theorem isBalanced_of_no_brace {t : Text} (noOpen : '{' ∉ t) (noClose : '}' ∉ t) :
    isBalanced t = true := by
  rw [isBalanced_iff]
  induction t with
  | nil => rfl
  | cons c t ih =>
      simp only [List.mem_cons, not_or] at noOpen noClose
      rw [depthAfter, if_neg (Ne.symm noOpen.1), if_neg (Ne.symm noClose.1)]
      exact ih noOpen.2 noClose.2

/-- A balanced text may be put anywhere or taken from anywhere. -/
theorem depthAfter_insert {t : Text} (h : isBalanced t = true) (depth : Nat) (front back : Text) :
    depthAfter depth (front ++ t ++ back) = depthAfter depth (front ++ back) := by
  simp only [depthAfter_append, Option.bind_assoc, depthAfter_of_isBalanced h, Option.bind_some]

theorem isBalanced_insert {t : Text} (h : isBalanced t = true) (front back : Text) :
    isBalanced (front ++ t ++ back) = isBalanced (front ++ back) := by
  rw [Bool.eq_iff_iff, isBalanced_iff, isBalanced_iff, depthAfter_insert h]

/-- What stands before the brace at which a block ends closes all it opens. -/
theorem depthAfter_of_closeBlock {depth : Nat} {t inner rest : Text}
    (h : closeBlock depth t = .ok (inner, rest)) : depthAfter depth inner = some 0 := by
  induction t generalizing depth inner with
  | nil => simp [closeBlock] at h
  | cons c t ih =>
      have step {d : Nat}
          (h : (closeBlock d t).map (fun p => (c :: p.1, p.2)) = .ok (inner, rest)) :
          ∃ inner', inner = c :: inner' ∧ depthAfter d inner' = some 0 := by
        obtain ⟨inner', closes, rfl⟩ := closeBlock_of_map_cons h
        exact ⟨inner', rfl, ih closes⟩
      simp only [closeBlock] at h
      split at h
      · rename_i opens
        obtain ⟨inner', rfl, inside⟩ := step h
        simp only [depthAfter, if_pos opens, inside]
      · rename_i other
        split at h
        · rename_i closes
          split at h
          · simp only [Except.ok.injEq, Prod.mk.injEq] at h
            rw [← h.1, depthAfter]
          · obtain ⟨inner', rfl, inside⟩ := step h
            rw [depthAfter, if_neg other, if_pos closes]
            exact inside
        · rename_i plain
          obtain ⟨inner', rfl, inside⟩ := step h
          simp only [depthAfter, if_neg other, if_neg plain, inside]

theorem closeBlock_of_depthAfter {depth : Nat} {inner : Text}
    (inside : depthAfter depth inner = some 0) (rest : Text) :
    closeBlock depth (inner ++ '}' :: rest) = .ok (inner, rest) := by
  induction inner generalizing depth with
  | nil =>
      simp only [depthAfter, Option.some.injEq] at inside
      subst inside
      rfl
  | cons c inner ih =>
      simp only [depthAfter] at inside
      simp only [List.cons_append, closeBlock]
      split at inside
      · rename_i opens
        rw [if_pos opens, ih inside]
        rfl
      · rename_i other
        rw [if_neg other]
        split at inside
        · rename_i closes
          rw [if_pos closes]
          cases depth with
          | zero => simp at inside
          | succ outer =>
              simp only [ih inside]
              rfl
        · rename_i plain
          rw [if_neg plain, ih inside]
          rfl

/-- A block ends at the one closing brace before which it is balanced. -/
theorem closeBlock_eq_ok {depth : Nat} {t inner rest : Text} :
    closeBlock depth t = .ok (inner, rest) ↔
      t = inner ++ '}' :: rest ∧ depthAfter depth inner = some 0 := by
  constructor
  · intro h
    exact ⟨closeBlock_append h, depthAfter_of_closeBlock h⟩
  · rintro ⟨rfl, inside⟩
    exact closeBlock_of_depthAfter inside rest

/-! ## Blocks that are never closed -/

/-- What is read in front of a block that is never closed changes nothing. -/
theorem eq_error_of_map {block : Except Nat (Text × Text)} {c : Char} {open_ : Nat}
    (h : block.map (fun p => (c :: p.1, p.2)) = .error open_) : block = .error open_ := by
  cases block with
  | error n => simpa [Except.map] using h
  | ok p => simp [Except.map] at h

/-- The blocks that are open at the end are those opened and not closed. -/
theorem count_of_closeBlock {depth open_ : Nat} {t : Text} (h : closeBlock depth t = .error open_) :
    open_ + t.count '}' = t.count '{' + depth + 1 := by
  induction t generalizing depth with
  | nil =>
      simp only [closeBlock, Except.error.injEq] at h
      simp [← h]
  | cons c t ih =>
      simp only [closeBlock] at h
      split at h
      · rename_i opens
        have := ih (eq_error_of_map h)
        rw [opens, List.count_cons_self, List.count_cons_of_ne (by decide)]
        omega
      · rename_i other
        split at h
        · rename_i closes
          cases depth with
          | zero => cases h
          | succ outer =>
              have := ih (eq_error_of_map h)
              rw [closes, List.count_cons_self, List.count_cons_of_ne (by decide)]
              omega
        · rename_i plain
          have := ih (eq_error_of_map h)
          rw [List.count_cons_of_ne other, List.count_cons_of_ne plain]
          exact this

/-- A block that is never closed is one of those that are open at the end. -/
theorem pos_of_closeBlock {depth open_ : Nat} {t : Text} (h : closeBlock depth t = .error open_) :
    1 ≤ open_ := by
  induction t generalizing depth with
  | nil =>
      simp only [closeBlock, Except.error.injEq] at h
      omega
  | cons c t ih =>
      simp only [closeBlock] at h
      split at h
      · exact ih (eq_error_of_map h)
      · split at h
        · cases depth with
          | zero => cases h
          | succ outer => exact ih (eq_error_of_map h)
        · exact ih (eq_error_of_map h)

/-- A block is never closed exactly if what precedes no closing brace is balanced. -/
theorem closeBlock_eq_error {t : Text} {open_ : Nat} :
    closeBlock 0 t = .error open_ ↔
      (∀ inner rest, t = inner ++ '}' :: rest → isBalanced inner = false) ∧
        open_ + t.count '}' = t.count '{' + 1 := by
  constructor
  · intro h
    refine ⟨fun inner rest e => ?_, count_of_closeBlock h⟩
    rw [← Bool.not_eq_true, isBalanced_iff]
    intro inside
    rw [closeBlock_eq_ok.2 ⟨e, inside⟩] at h
    cases h
  · rintro ⟨never, count⟩
    cases e : closeBlock 0 t with
    | ok p =>
        obtain ⟨parts, inside⟩ := closeBlock_eq_ok.1 e
        have := never p.1 p.2 parts
        rw [isBalanced_iff.2 inside] at this
        cases this
    | error n =>
        have := count_of_closeBlock e
        rw [show n = open_ by omega]

/-- A block that stands inside others is closed where these are. -/
theorem exists_closeBlock {depth around rest : Nat} {t : Text}
    (ends : depthAfter (depth + 1 + around) t = some rest) (closed : rest ≤ around) :
    ∃ p, closeBlock depth t = .ok p := by
  induction t generalizing depth with
  | nil =>
      simp only [depthAfter, Option.some.injEq] at ends
      omega
  | cons c t ih =>
      simp only [depthAfter] at ends
      simp only [closeBlock]
      split at ends
      · rename_i opens
        rw [Nat.add_right_comm] at ends
        obtain ⟨p, inside⟩ := @ih (depth + 1) ends
        exact ⟨_, by rw [if_pos opens, inside]; rfl⟩
      · rename_i other
        rw [if_neg other]
        split at ends
        · rename_i closes
          rw [if_pos closes]
          cases depth with
          | zero => exact ⟨_, rfl⟩
          | succ outer =>
              have ends : depthAfter (outer + 1 + around) t = some rest := by
                rwa [show outer + 1 + 1 + around = outer + 1 + around + 1 by omega] at ends
              obtain ⟨p, inside⟩ := ih ends
              exact ⟨_, by simp only [inside]; rfl⟩
        · rename_i plain
          obtain ⟨p, inside⟩ := ih ends
          exact ⟨_, by rw [if_neg plain, inside]; rfl⟩

/-- Every block of a balanced text is closed. -/
theorem exists_close {front after : Text} (balanced : isBalanced (front ++ '{' :: after) = true) :
    ∃ inner rest, after = inner ++ '}' :: rest ∧ isBalanced inner = true := by
  rw [isBalanced_iff, depthAfter_append, Option.bind_eq_some_iff] at balanced
  obtain ⟨around, -, ends⟩ := balanced
  simp only [depthAfter, if_pos] at ends
  rw [Nat.add_comm around, ← Nat.zero_add 1] at ends
  obtain ⟨⟨inner, rest⟩, closes⟩ := exists_closeBlock ends (Nat.zero_le _)
  obtain ⟨e, inside⟩ := closeBlock_eq_ok.1 closes
  exact ⟨inner, rest, e, isBalanced_iff.2 inside⟩

/-! ## Partners by offset -/

/-- The span between an opening brace that stands behind `front` and its partner. -/
theorem inside_append (front block : Text) :
    inside (front ++ '{' :: block) front.length =
      match closeBlock 0 block with
      | .ok (inner, _) =>
          .ok ⟨front.length + 1, front.length + 1 + inner.length, Nat.le_add_right ..⟩
      | .error depth => .error (.unclosed front.length depth) := by
  have drop : (front ++ '{' :: block).drop ((front.length : Int).toNat) = '{' :: block := by
    rw [Int.toNat_natCast, List.drop_left]
  unfold inside
  rw [drop]
  rfl

theorem matching_of_closed {front block inner rest : Text}
    (closes : closeBlock 0 block = .ok (inner, rest)) :
    matching (front ++ '{' :: block) front.length = .ok (front.length + 1 + inner.length) := by
  rw [matching, inside_append, closes]
  rfl

theorem matching_of_open {front block : Text} {depth : Nat}
    (stays : closeBlock 0 block = .error depth) :
    matching (front ++ '{' :: block) front.length = .error (.unclosed front.length depth) := by
  rw [matching, inside_append, stays]
  rfl

end Regraft.Brace
