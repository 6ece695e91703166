import Mathlib.Data.List.Infix
import Regraft.Proofs.Brace

/-!
# Regraft.Proofs.Dyck -- the braces of a text as words of paired braces

`Dyck` has the grammar of paired braces: nothing, or a pair around such a word with such a word behind
it.  A text is balanced exactly if its braces are a word of that grammar (`isBalanced_iff_dyck`): in one
direction the depth comes back to where it was over every word, in the other a word is cut at the first
brace at which the depth does.  The partner of a brace is the one closing brace up to which the text is
balanced (`Closes`), so what stands behind it does not matter, and where no brace has that property the
search tells how many blocks are open at the end (`matching_dyck`).
-/

namespace Regraft.Brace

set_option autoImplicit false

def isBrace (c : Char) : Bool :=
  c == '{' || c == '}'

inductive Dyck : Text → Prop where
  | nil : Dyck []
  | pair {inner rest : Text} : Dyck inner → Dyck rest → Dyck ('{' :: (inner ++ '}' :: rest))

/-- The depth is a matter of the braces alone. -/
theorem depthAfter_filter (depth : Nat) (t : Text) :
    depthAfter depth (t.filter isBrace) = depthAfter depth t := by
  induction t generalizing depth with
  | nil => rfl
  | cons c t ih =>
      by_cases opens : c = '{'
      · subst opens
        exact ih (depth + 1)
      by_cases closes : c = '}'
      · subst closes
        cases depth with
        | zero => rfl
        | succ outer => exact ih outer
      have plain : isBrace c = false := by simp [isBrace, opens, closes]
      rw [List.filter_cons_of_neg (by simp [plain]), ih]
      simp only [depthAfter, if_neg opens, if_neg closes]

/-- Over a word of paired braces the depth comes back to what it was. -/
theorem Dyck.depthAfter {w : Text} (h : Dyck w) (depth : Nat) :
    Brace.depthAfter depth w = some depth := by
  induction h generalizing depth with
  | nil => rfl
  | @pair inner rest _ _ ihInner ihRest =>
      show Brace.depthAfter (depth + 1) (inner ++ '}' :: rest) = some depth
      rw [depthAfter_append, ihInner]
      exact ihRest depth

/-- Braces over which the depth comes back to zero are paired: the first one opens, and the word
behind it is cut where the depth is first what it was. -/
theorem dyck_of_isBalanced {w : Text} (braces : ∀ c ∈ w, isBrace c = true)
    (balanced : isBalanced w = true) : Dyck w := by
  induction length : w.length using Nat.strongRecOn generalizing w with
  | ind n ih =>
      cases w with
      | nil => exact .nil
      | cons c w =>
          have first : c = '{' := by
            have brace := braces c List.mem_cons_self
            simp only [isBrace, Bool.or_eq_true, beq_iff_eq] at brace
            rcases brace with opens | rfl
            · exact opens
            · cases balanced
          subst first
          have opened : isBalanced ([] ++ '{' :: w) = true := balanced
          obtain ⟨inner, rest, rfl, inside⟩ := exists_close opened
          have behind : isBalanced rest = true := by
            have whole := isBalanced_iff.1 balanced
            have pair : isBalanced ('{' :: (inner ++ ['}'])) = true := by
              rw [isBalanced_iff]
              show Brace.depthAfter 1 (inner ++ ['}']) = some 0
              rw [depthAfter_append, depthAfter_of_isBalanced inside]
              rfl
            have parts : '{' :: (inner ++ '}' :: rest) = [] ++ '{' :: (inner ++ ['}']) ++ rest := by
              simp
            rwa [parts, depthAfter_insert pair, List.nil_append, ← isBalanced_iff] at whole
          simp only [List.length_cons, List.length_append] at length
          refine .pair (ih inner.length (by omega) (fun d m => braces d ?_) inside rfl)
            (ih rest.length (by omega) (fun d m => braces d ?_) behind rfl)
          · simp [m]
          · simp [m]

theorem isBalanced_iff_dyck {t : Text} : isBalanced t = true ↔ Dyck (t.filter isBrace) := by
  rw [isBalanced_iff, ← depthAfter_filter, ← isBalanced_iff]
  constructor
  · exact dyck_of_isBalanced fun c m => (List.mem_filter.1 m).2
  · exact fun h => isBalanced_iff.2 (h.depthAfter 0)

/-! ## The partner of a brace -/

/-- A character at an offset stands behind as many characters. -/
theorem getElem?_eq_some_iff_append {t : Text} {i : Nat} {c : Char} :
    t[i]? = some c ↔ ∃ front back, t = front ++ c :: back ∧ i = front.length := by
  constructor
  · intro here
    obtain ⟨bound, rfl⟩ := List.getElem?_eq_some_iff.1 here
    refine ⟨t.take i, t.drop (i + 1), ?_, ?_⟩
    · rw [List.getElem_cons_drop, List.take_append_drop]
    · rw [List.length_take]
      omega
  · rintro ⟨front, back, rfl, rfl⟩
    simp

/-- A closing brace behind an offset up to which a text is balanced. -/
def Closes (t : Text) (start stop : Nat) : Prop :=
  start < stop ∧ t[stop]? = some '}' ∧ isBalanced ((t.take stop).drop (start + 1)) = true

/-- The brace that closes an opened block stands behind what the block encloses. -/
theorem closes_append {front block : Text} {stop : Nat} :
    Closes (front ++ '{' :: block) front.length stop ↔
      ∃ inner rest, closeBlock 0 block = .ok (inner, rest) ∧
        stop = front.length + 1 + inner.length := by
  have between {inner more : Text} :
      ((front ++ '{' :: (inner ++ more)).take (front.length + 1 + inner.length)).drop
        (front.length + 1) = inner := by
    have parts : front ++ '{' :: (inner ++ more) = (front ++ ['{'] ++ inner) ++ more := by simp
    have length : front.length + 1 = (front ++ ['{']).length := by simp
    rw [parts, length, ← List.length_append, List.take_left, List.drop_left]
  constructor
  · rintro ⟨later, closing, balanced⟩
    have behind : block[stop - (front.length + 1)]? = some '}' := by
      rw [List.getElem?_append_right (by omega), show stop - front.length =
        stop - (front.length + 1) + 1 by omega, List.getElem?_cons_succ] at closing
      exact closing
    obtain ⟨inner, rest, rfl, offset⟩ := getElem?_eq_some_iff_append.1 behind
    obtain rfl : stop = front.length + 1 + inner.length := by omega
    rw [between] at balanced
    exact ⟨inner, rest, closeBlock_eq_ok.2 ⟨rfl, isBalanced_iff.1 balanced⟩, rfl⟩
  · rintro ⟨inner, rest, closes, rfl⟩
    obtain ⟨rfl, inside⟩ := closeBlock_eq_ok.1 closes
    refine ⟨by omega, getElem?_eq_some_iff_append.2 ⟨front ++ '{' :: inner, rest, by simp, ?_⟩, ?_⟩
    · simp only [List.length_append, List.length_cons]
      omega
    · rw [between]
      exact isBalanced_iff.2 inside

variable {t : Text} {start : Nat}

/-- The search for the partner of a brace finds the brace that closes it. -/
theorem matching_eq_ok (opens : t[start]? = some '{') {stop : Nat} :
    matching t start = .ok stop ↔ Closes t start stop := by
  obtain ⟨front, block, rfl, rfl⟩ := getElem?_eq_some_iff_append.1 opens
  rw [closes_append]
  cases closed : closeBlock 0 block with
  | ok p =>
      obtain ⟨inner, rest⟩ := p
      rw [matching_of_closed closed]
      constructor
      · rintro ⟨⟩
        exact ⟨inner, rest, rfl, rfl⟩
      · rintro ⟨_, _, same, rfl⟩
        obtain ⟨rfl, rfl⟩ := Prod.mk.inj (Except.ok.inj same)
        rfl
  | error depth =>
      rw [matching_of_open closed]
      constructor
      · rintro ⟨⟩
      · rintro ⟨_, _, ⟨⟩, -⟩

/-- The search fails exactly if no brace closes the one at the offset; then the blocks that are open at
the end are those opened from there on and not closed. -/
theorem matching_eq_error (opens : t[start]? = some '{') {e : Error} :
    matching t start = .error e ↔ (∀ stop, ¬ Closes t start stop) ∧
      ∃ depth, e = .unclosed start depth ∧ 1 ≤ depth ∧
        (depth : Int) = (t.drop start).count '{' - (t.drop start).count '}' := by
  obtain ⟨front, block, rfl, rfl⟩ := getElem?_eq_some_iff_append.1 opens
  simp only [closes_append]
  rw [List.drop_left, List.count_cons_self, List.count_cons_of_ne (by decide)]
  cases closed : closeBlock 0 block with
  | ok p =>
      obtain ⟨inner, rest⟩ := p
      rw [matching_of_closed closed]
      constructor
      · rintro ⟨⟩
      · rintro ⟨never, -⟩
        exact absurd ⟨inner, rest, rfl, rfl⟩ (never _)
  | error depth =>
      have count := count_of_closeBlock closed
      rw [matching_of_open closed]
      constructor
      · rintro ⟨⟩
        refine ⟨?_, depth, rfl, ?_, by omega⟩
        · rintro stop ⟨_, _, ⟨⟩, -⟩
        · exact pos_of_closeBlock closed
      · rintro ⟨-, depth', rfl, -, count'⟩
        rw [show depth = depth' by omega]

/-- Only what stands up to the partner of a brace counts. -/
theorem Closes.of_take {stop : Nat} (h : Closes t start stop) {u : Text}
    (same : u.take (stop + 1) = t.take (stop + 1)) : Closes u start stop := by
  obtain ⟨later, closing, balanced⟩ := h
  have front : u.take stop = t.take stop := by
    have := congrArg (List.take stop) same
    rwa [List.take_take, List.take_take, Nat.min_eq_left (Nat.le_succ stop)] at this
  have here : u[stop]? = t[stop]? := by
    rw [← List.getElem?_take_of_lt (Nat.lt_succ_self stop), same,
      List.getElem?_take_of_lt (Nat.lt_succ_self stop)]
  exact ⟨later, here.trans closing, front ▸ balanced⟩

/-- A text is balanced exactly if its braces are a word of paired braces.  The search for the partner of
an opening brace finds the closing brace behind it up to which the text is balanced; there is at most
one, whatever stands behind it.  Where there is none the search fails, and tells where the block opens
and how many blocks are open at the end. -/
theorem matching_dyck (t : Text) :
    (isBalanced t = true ↔ Dyck (t.filter isBrace)) ∧
      ∀ start : Nat, t[start]? = some '{' →
        (∀ stop, matching t start = .ok stop ↔ Closes t start stop) ∧
        (∀ stop stop', Closes t start stop → Closes t start stop' → stop = stop') ∧
        (∀ stop u, Closes t start stop → u.take (stop + 1) = t.take (stop + 1) →
          matching u start = .ok stop) ∧
        ((∃ e, matching t start = .error e) ↔ ∀ stop, ¬ Closes t start stop) ∧
        ∀ e, matching t start = .error e → ∃ depth, e = .unclosed start depth ∧ 1 ≤ depth ∧
          (depth : Int) = (t.drop start).count '{' - (t.drop start).count '}' := by
  refine ⟨isBalanced_iff_dyck, fun start opens => ⟨fun stop => matching_eq_ok opens, ?_, ?_, ?_, ?_⟩⟩
  · intro stop stop' closes closes'
    have found := (matching_eq_ok opens).2 closes
    rw [(matching_eq_ok opens).2 closes'] at found
    exact (Except.ok.inj found).symm
  · intro stop u closes same
    have opens' : u[start]? = some '{' := by
      have before : start < stop + 1 := Nat.lt_succ_of_lt closes.1
      rw [← List.getElem?_take_of_lt before, same, List.getElem?_take_of_lt before, opens]
    exact (matching_eq_ok opens').2 (closes.of_take same)
  · constructor
    · rintro ⟨e, failed⟩
      exact ((matching_eq_error opens).1 failed).1
    · intro never
      cases answer : matching t start with
      | ok stop => exact absurd ((matching_eq_ok opens).1 answer) (never stop)
      | error e => exact ⟨e, rfl⟩
  · intro e failed
    exact ((matching_eq_error opens).1 failed).2

/-- Two blocks of which the second is never closed: `a{b{}c}{d`. -/
def brokenText : Text :=
  "a\x7bb\x7b\x7dc\x7d\x7bd".toList

theorem matching_dyck_broken :
    brokenText[1]? = some '{' ∧ brokenText[7]? = some '{' ∧ ¬ Dyck (brokenText.filter isBrace) ∧
      Closes brokenText 1 6 ∧ (∀ stop, Closes brokenText 1 stop → stop = 6) ∧
      matching brokenText 7 = .error (.unclosed 7 1) ∧ ∀ stop, ¬ Closes brokenText 7 stop := by
  have first : brokenText[1]? = some '{' := rfl
  have second : brokenText[7]? = some '{' := rfl
  obtain ⟨balanced, partners⟩ := matching_dyck brokenText
  obtain ⟨found, unique, -⟩ := partners 1 first
  obtain ⟨-, -, -, never, -⟩ := partners 7 second
  have closes : Closes brokenText 1 6 := (found 6).1 rfl
  exact ⟨first, second, fun word => absurd (balanced.2 word) (by decide), closes,
    fun stop h => unique stop 6 h closes, rfl, never.1 ⟨_, rfl⟩⟩

end Regraft.Brace
