import Regraft.Proofs.CallText
import Regraft.Proofs.Insertion

/-!
# Regraft.Proofs.Splicing -- a method with something put into its body

Balanced text may be put anywhere into the body of a located method: the same declaration is found
again, with the same block around the longer body (`locate_splice`).  A planned insertion lies in the
body, and it stands before the first forwarding call, with white space between them, exactly if the
body has one (`FirstCall`, `anchored_iff`, `exists_firstCall`).  `splice_shape` has both for every
new text, all carry-over and all rules that allow several declarations.
-/

namespace Regraft

set_option autoImplicit false

open Text Reader

/-- The first hit of a walk is the first reading at its place, and no reading starts before it. -/
theorem Reader.cuts_eq_hit {α : Type} {r : Option Char → Reader α}
    (ends : ∀ before, Suffixed (r before)) (consuming : Consuming r) {before : Option Char}
    {t front taken : Text} {a : α} {more : List (Piece α)}
    (pieces : cuts r before t = front.map .plain ++ .hit taken a :: more) :
    ∃ rest, t = front ++ (taken ++ rest) ∧
      first? (r (front.getLast?.or before)) (taken ++ rest) = some (a, rest) ∧
      SilentBefore r before front (taken ++ rest) := by
  induction front generalizing before t with
  | nil =>
      cases t with
      | nil => simp [cuts_nil] at pieces
      | cons c t =>
          rcases cuts_cases consuming before c t with ⟨-, e⟩ | ⟨b, rest, found, -, e⟩
          · rw [e] at pieces
            cases pieces
          · rw [e] at pieces
            obtain ⟨rfl, rfl⟩ := Piece.hit.inj (List.cons.inj pieces).1
            obtain ⟨hit, whole⟩ := ends before (c :: t) (b, rest) (mem_of_first? found)
            have text : Text.taken (c :: t) rest ++ rest = c :: t := by
              rw [← whole, taken_append]
            refine ⟨rest, text.symm, by rw [text]; exact found, ?_⟩
            intro x d y e
            simp at e
  | cons d front ih =>
      cases t with
      | nil => simp [cuts_nil] at pieces
      | cons c t =>
          rcases cuts_cases consuming before c t with ⟨here, e⟩ | ⟨b, rest, -, -, e⟩
          · rw [e] at pieces
            obtain ⟨same, later⟩ := List.cons.inj pieces
            obtain rfl := Piece.plain.inj same
            obtain ⟨rest, rfl, found, silent⟩ := ih later
            exact ⟨rest, rfl, by rwa [getLast?_or_cons], .cons here silent⟩
          · rw [e] at pieces
            cases pieces

/-! ## The first forwarding call -/

namespace Rules

variable {r : Rules} {param : Text}

/-- The first forwarding call of a body: it is what is read behind `front`, without the spaces and
tabs before it, and nothing is read at a place before that. -/
structure FirstCall (r : Rules) (param front ind call rest : Text) : Prop where
  reads : first? (r.forwardingCall param front.getLast?) (ind ++ call ++ rest) = some ((), rest)
  first : SilentBefore (r.forwardingCall param) none front (ind ++ call ++ rest)
  indent : ∀ c ∈ ind, isIndent c = true
  starts : ∀ c, call.head? = some c → isIndent c = false

/-- Whether the name of the forwarding call starts with something other than a space or a tab. -/
def Named (r : Rules) : Prop :=
  ∃ c more, r.forward = c :: more ∧ isIndent c = false

/-- The first forwarding call reaches from its receiver or its name to its semicolon, and on to the end
of its line if nothing else is there. -/
theorem FirstCall.isCall {front ind call rest : Text} (h : FirstCall r param front ind call rest)
    (named : r.Named) :
    ∃ whole tail, r.IsCall param whole ∧ IsCallTail tail ∧ call = whole ++ tail := by
  have read : ((), rest) ∈ r.forwardingCall param front.getLast? (ind ++ call ++ rest) :=
    mem_of_first? h.reads
  obtain ⟨ind', this, bare, tail, hi, hthis, hbare, htail, -, e⟩ := mem_forwardingCall.1 read
  have starts : ∀ c, (this ++ bare ++ tail).head? = some c → isIndent c = false := by
    intro c head
    rcases hthis with rfl | ⟨left, right, -, -, rfl⟩
    · obtain ⟨w₁, w₂, w₃, w₄, -, -, -, -, rfl⟩ := hbare
      obtain ⟨d, more, name, inked⟩ := named
      obtain rfl : d = c := by simpa [name] using head
      exact inked
    · obtain rfl : 't' = c := by simpa using head
      decide
  have whole : ind ++ call ++ rest = ind' ++ (this ++ bare ++ tail) ++ rest := by
    rw [e]
    simp
  have same : ind ++ call = ind' ++ (this ++ bare ++ tail) := List.append_cancel_right whole
  obtain ⟨-, rfl⟩ := append_inj_of_kind same h.indent hi h.starts starts
  exact ⟨this ++ bare, tail, ⟨this, bare, hthis, hbare, rfl⟩, htail, rfl⟩

theorem firstCall_of_eq_some {body found : Text} {start : Nat}
    (h : r.firstCall? param body = some (start, found)) :
    ∃ front call rest, body = front ++ (indentation found ++ call ++ rest) ∧
      start = front.length ∧ r.FirstCall param front (indentation found) call rest := by
  obtain ⟨front, back, more, parts, begins, pieces⟩ := CarryOver.firstCall?_eq_some h
  obtain ⟨rest, e, reads, silent⟩ :=
    cuts_eq_hit (r.forwardingCall_suffixed param) (r.forwardingCall_consuming param) pieces
  have whole : indentation found ++ found.dropWhile isIndent = found :=
    List.takeWhile_append_dropWhile
  refine ⟨front, found.dropWhile isIndent, rest, by rw [whole, e], begins, ?_⟩
  rw [Option.or_none] at reads
  refine ⟨by rwa [whole], by rwa [whole], fun c m => CarryOver.mem_indentation m, fun c head => ?_⟩
  have stops := List.head?_dropWhile_not isIndent found
  rw [head] at stops
  simpa using stops

/-- No call is found exactly if none is read behind any start of the body. -/
theorem firstCall?_eq_none {body : Text} :
    r.firstCall? param body = none ↔
      ∀ front back, body = front ++ back → r.forwardingCall param front.getLast? back = [] := by
  rw [firstCall?_eq_none_iff_silent]
  constructor
  · rintro silent front back rfl
    cases back with
    | nil =>
        refine List.eq_nil_iff_forall_not_mem.2 fun p read => ?_
        have := r.forwardingCall_consuming param _ _ p read
        simp at this
    | cons c back =>
        have here := silent front c back rfl
        rwa [List.append_nil, Option.or_none] at here
  · intro absent front c back e
    rw [List.append_nil, Option.or_none]
    exact absent front (c :: back) e

end Rules

namespace CarryOver

variable {r : Rules} {source : String} {new preserved : Text} {m : Method}

theorem anchored_planIn (r : Rules) (m : Method) (preserved : Text) :
    (planIn r m preserved).anchored = (r.firstCall? m.param m.body).isSome := by
  rw [planIn]
  cases r.firstCall? m.param m.body with
  | none => rfl
  | some found =>
      simp only [planAtCall]
      split <;> rfl

/-- A plan is anchored exactly if a forwarding call is read somewhere in the body. -/
theorem anchored_iff (r : Rules) (m : Method) (preserved : Text) :
    (planIn r m preserved).anchored = true ↔
      ∃ front back, m.body = front ++ back ∧ r.forwardingCall m.param front.getLast? back ≠ [] := by
  rw [anchored_planIn, Option.isSome_iff_ne_none, ne_eq, Rules.firstCall?_eq_none]
  simp only [not_forall, exists_prop, ne_eq]

/-- An anchored plan puts its text before the first forwarding call, only white space between. -/
theorem exists_firstCall (anchored : (planIn r m preserved).anchored = true) :
    ∃ front ind call rest gap, m.body = front ++ (ind ++ call ++ rest) ∧
      r.FirstCall m.param front ind call rest ∧ isBlankText gap = true ∧
      m.body.drop ((planIn r m preserved).offset - m.bodyStart) = gap ++ (call ++ rest) ∧
      (r.Named → ∃ whole tail,
        r.IsCall m.param whole ∧ Rules.IsCallTail tail ∧ call = whole ++ tail) := by
  have place := place_planIn r m preserved
  generalize planIn r m preserved = p at anchored place
  cases place with
  | @ownLine start found whole line rest some_ parts length blank inLine above =>
      obtain ⟨front, call, behind, e, rfl, first⟩ := Rules.firstCall_of_eq_some some_
      refine ⟨front, indentation found, call, behind, line, e, first, blank, ?_, first.isCall⟩
      have same : whole ++ line ++ rest = front ++ indentation found ++ (call ++ behind) := by
        rw [← parts, e]
        simp
      obtain ⟨-, rfl⟩ := List.append_inj same (by rw [length, List.length_append])
      rw [Nat.add_sub_cancel_left, parts, List.append_assoc, List.drop_left]
  | @inLine start found before rest indent some_ parts length ind =>
      obtain ⟨front, call, behind, e, rfl, first⟩ := Rules.firstCall_of_eq_some some_
      refine ⟨front, indentation found, call, behind, [], e, first, rfl, ?_, first.isCall⟩
      have same : before ++ rest = front ++ indentation found ++ (call ++ behind) := by
        rw [← parts, e]
        simp
      obtain ⟨-, rfl⟩ := List.append_inj same (by rw [length, List.length_append])
      rw [Nat.add_sub_cancel_left, parts, List.drop_left, List.nil_append]
  | atEnd => cases anchored

/-- With balanced text put into its body a method is found again, and nothing else of it changes. -/
theorem locate_splice (loose : r.strict = false) (method : '{' ∉ r.signature.method)
    (builder : '{' ∉ r.signature.builder) (found : (locate r source new).outcome = .ok m)
    {x y insertion : Text} (parts : m.body = x ++ y)
    (balanced : Brace.isBalanced insertion = true) :
    (locate r source (m.heading ++ '{' :: (x ++ insertion ++ y ++ '}' :: m.after))).outcome =
      .ok { m with body := x ++ insertion ++ y } := by
  have located := locate_eq_ok.1 found
  have inside : Brace.isBalanced (x ++ insertion ++ y) = true := by
    rw [Brace.isBalanced_insert balanced, ← parts]
    exact isBalanced_of_locate found
  have closed : Brace.closeBlock 0 (x ++ insertion ++ y ++ '}' :: m.after) =
      .ok (x ++ insertion ++ y, m.after) :=
    Brace.closeBlock_eq_ok.2 ⟨rfl, Brace.isBalanced_iff.1 inside⟩
  rw [loose] at located
  rw [locate_eq_ok, loose, Method.locate_swap method builder located, closed]

/-- Carry-over goes into the body of the method of the new text: before its first forwarding call, if
there is one, with only white space between the two.  If what is put there is balanced, the same
declaration is found in the merged text, with the insertion in its body and no other change, so the
check at the end passes. -/
theorem splice_shape (loose : r.strict = false) (method : '{' ∉ r.signature.method)
    (builder : '{' ∉ r.signature.builder) (found : (locate r source new).outcome = .ok m)
    (inked : isBlankText preserved = false) :
    ∃ p, (plan r source preserved new).outcome = .ok (some p) ∧
      m.bodyStart ≤ p.offset ∧ p.offset ≤ m.closeBrace ∧
      (p.anchored = true ↔ ∃ front back, m.body = front ++ back ∧
        r.forwardingCall m.param front.getLast? back ≠ []) ∧
      (p.anchored = true → ∃ front ind call rest gap, m.body = front ++ (ind ++ call ++ rest) ∧
        r.FirstCall m.param front ind call rest ∧ isBlankText gap = true ∧
        m.body.drop (p.offset - m.bodyStart) = gap ++ (call ++ rest) ∧
        (r.Named → ∃ whole tail,
          r.IsCall m.param whole ∧ Rules.IsCallTail tail ∧ call = whole ++ tail)) ∧
      (Brace.isBalanced p.insertion = true →
        (∃ m', (locate r source (p.apply new)).outcome = .ok m' ∧
          m'.start = m.start ∧ m'.stop = m.stop ∧ m'.param = m.param ∧
          m'.openBrace = m.openBrace ∧
          m'.body = m.body.take (p.offset - m.bodyStart) ++ p.insertion ++
            m.body.drop (p.offset - m.bodyStart)) ∧
        (Merge.validate r source (p.apply new)).outcome = .ok ()) := by
  obtain ⟨x, y, -, -, -, parts, offset, -⟩ := (place_planIn r m preserved).insertion
  refine ⟨planIn r m preserved, by rw [plan_eq found, inked]; rfl, ?_, ?_,
    anchored_iff r m preserved, exists_firstCall, fun balanced => ?_⟩
  · rw [offset]
    exact Nat.le_add_right _ _
  · rw [offset, Method.closeBrace, parts, List.length_append]
    omega
  · have spliced := locate_splice loose method builder found parts balanced
    rw [← apply_splice parts offset, text_of_locate found] at spliced
    have inBody : (planIn r m preserved).offset - m.bodyStart = x.length := by
      rw [offset, Nat.add_sub_cancel_left]
    refine ⟨⟨_, spliced, rfl, rfl, rfl, rfl, ?_⟩, ?_⟩
    · rw [inBody, parts, List.take_left, List.drop_left]
    · rw [Merge.validate_eq, spliced]
      rfl

/-- A generated context in one line, its forwarding call in a block. -/
def nestedScaffold : Text :=
  ("protected override void OnModelCreating(ModelBuilder b) \x7b if (on) \x7b " ++
    "this.OnModelCreatingPartial(b); \x7d \x7d").toList

def nestedMethod : Method where
  before := []
  declaration := "protected override void OnModelCreating(ModelBuilder b)".toList
  gap := [' ']
  body := " if (on) \x7b this.OnModelCreatingPartial(b); \x7d ".toList
  after := []
  param := ['b']

def guardedSeed : Text :=
  "if (off) \x7b Seed(b); \x7d".toList

theorem splice_shape_nested :
    (locate .standard "" nestedScaffold).outcome = .ok nestedMethod ∧
      isBlankText guardedSeed = false ∧
      ∃ p, (plan .standard "" guardedSeed nestedScaffold).outcome = .ok (some p) ∧
        nestedMethod.bodyStart ≤ p.offset ∧ p.offset ≤ nestedMethod.closeBrace ∧
        (∃ front ind call rest gap, nestedMethod.body = front ++ (ind ++ call ++ rest) ∧
          Rules.standard.FirstCall nestedMethod.param front ind call rest ∧
          isBlankText gap = true ∧
          nestedMethod.body.drop (p.offset - nestedMethod.bodyStart) = gap ++ (call ++ rest) ∧
          (Rules.standard.Named → ∃ whole tail, Rules.standard.IsCall nestedMethod.param whole ∧
            Rules.IsCallTail tail ∧ call = whole ++ tail)) ∧
        Brace.isBalanced p.insertion = true ∧
        (∃ m', (locate .standard "" (p.apply nestedScaffold)).outcome = .ok m' ∧
          m'.start = nestedMethod.start ∧ m'.stop = nestedMethod.stop ∧
          m'.param = nestedMethod.param ∧ m'.openBrace = nestedMethod.openBrace ∧
          m'.body = nestedMethod.body.take (p.offset - nestedMethod.bodyStart) ++ p.insertion ++
            nestedMethod.body.drop (p.offset - nestedMethod.bodyStart)) ∧
        (Merge.validate .standard "" (p.apply nestedScaffold)).outcome = .ok () := by
  obtain ⟨found, inked, balanced, anchored⟩ :
      (locate .standard "" nestedScaffold).outcome = .ok nestedMethod ∧
        isBlankText guardedSeed = false ∧
        Brace.isBalanced (planIn .standard nestedMethod guardedSeed).insertion = true ∧
        (planIn .standard nestedMethod guardedSeed).anchored = true := by
    decide +kernel
  obtain ⟨p, planned, low, high, -, call, shape⟩ :=
    splice_shape rfl (by decide) (by decide) found inked
  obtain rfl : planIn .standard nestedMethod guardedSeed = p := by
    rw [plan_eq found, inked] at planned
    simpa using planned
  obtain ⟨again, valid⟩ := shape balanced
  exact ⟨found, inked, _, planned, low, high, call anchored, balanced, again, valid⟩

end CarryOver

end Regraft
