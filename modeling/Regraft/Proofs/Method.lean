import Regraft.CarryOver
import Regraft.Proofs.Brace
import Regraft.Proofs.Entity.Anchor
import Regraft.Proofs.Local

/-!
# Regraft.Proofs.Method -- located methods

What a located method is (`cut_eq_some`), and that the place of its declaration does not depend on
its block: with another text behind the opening brace the same declaration is found, and the block
is closed in the new text (`locate_swap`).
-/

namespace Regraft

set_option autoImplicit false

open Text Reader

/-! ## Declarations -/

namespace Signature

def IsIdent (t : Text) : Prop :=
  ∃ c more, t = c :: more ∧ isIdentStart c = true ∧ ∀ d ∈ more, isWord d = true

theorem IsIdent.ne_nil {t : Text} (h : IsIdent t) : t ≠ [] := by
  obtain ⟨c, more, rfl, -, -⟩ := h
  exact List.cons_ne_nil c more

theorem IsIdent.words {t : Text} (h : IsIdent t) : ∀ c ∈ t, isWord c = true := by
  obtain ⟨c, more, rfl, start, words⟩ := h
  intro d member
  rcases List.mem_cons.1 member with rfl | member
  · exact isWord_of_isIdentStart start
  · exact words d member

theorem yields_ident : Yields IsIdent ident := by
  rintro t ⟨name, rest⟩ m
  obtain ⟨c, more, e, -, start, words⟩ := mem_ident.1 m
  exact ⟨c, more, e, start, words⟩

/-- The parameter of a declaration is an identifier. -/
theorem yields_declaration (s : Signature) : Yields IsIdent s.declaration := by
  rw [declaration]
  iterate 13 refine yields_then fun _ => ?_
  refine yields_bind yields_ident fun name isIdent => ?_
  iterate 2 refine yields_then fun _ => ?_
  exact yields_pure isIdent

theorem suffixed_qualifier : Suffixed qualifier :=
  suffixed_bind suffixed_ident fun _ => suffixed_bind (suffixed_skip _) fun _ =>
    suffixed_bind (suffixed_literal _) fun _ => suffixed_skip _

theorem suffixed_declaration (s : Signature) : Suffixed s.declaration := by
  rw [declaration]
  refine suffixed_bind (suffixed_literal _) fun _ => suffixed_bind suffixed_blanks1 fun _ => ?_
  refine suffixed_bind (suffixed_literal _) fun _ => suffixed_bind suffixed_blanks1 fun _ => ?_
  refine suffixed_bind (suffixed_literal _) fun _ => suffixed_bind suffixed_blanks1 fun _ => ?_
  refine suffixed_bind (suffixed_literal _) fun _ => suffixed_bind (suffixed_skip _) fun _ => ?_
  refine suffixed_bind (suffixed_literal _) fun _ => suffixed_bind (suffixed_skip _) fun _ => ?_
  refine suffixed_bind (suffixed_star suffixed_qualifier) fun _ => ?_
  refine suffixed_bind (suffixed_literal _) fun _ => suffixed_bind suffixed_blanks1 fun _ => ?_
  refine suffixed_bind suffixed_ident fun _ => suffixed_bind (suffixed_skip _) fun _ => ?_
  exact suffixed_bind (suffixed_literal _) fun _ => suffixed_pure _

/-- A declaration is read in front of an opening brace as if the text ended there. -/
theorem local_declaration {s : Signature} (method : '{' ∉ s.method) (builder : '{' ∉ s.builder)
    (v : Text) : Local ('{' :: v) s.declaration := by
  have blank : ∀ c, ('{' :: v).head? = some c → isBlank c = false := by
    intro c same
    obtain rfl := Option.some.inj same
    decide
  have word : ∀ c, ('{' :: v).head? = some c → isWord c = false := by
    intro c same
    obtain rfl := Option.some.inj same
    decide
  have start : ∀ c, ('{' :: v).head? = some c → isIdentStart c = false := by
    intro c same
    obtain rfl := Option.some.inj same
    decide
  have apart {needle : Text} (absent : '{' ∉ needle) :
      ∀ c ∈ needle, ('{' :: v).head? ≠ some c := by
    intro c m same
    obtain rfl := Option.some.inj same
    exact absent m
  have fixed (needle : Text) (absent : '{' ∉ needle) : Local ('{' :: v) (literal needle) :=
    local_literal (apart absent)
  have gap : Local ('{' :: v) blanks := local_blanks blank
  have gap1 : Local ('{' :: v) blanks1 := local_blanks1 blank
  have name : Local ('{' :: v) ident := local_ident word start
  have qualified : Local ('{' :: v) qualifier :=
    local_bind name fun _ => local_bind gap fun _ =>
      local_bind (fixed _ (by decide)) fun _ => gap
  rw [declaration]
  refine local_bind (fixed _ (by decide)) fun _ => local_bind gap1 fun _ => ?_
  refine local_bind (fixed _ (by decide)) fun _ => local_bind gap1 fun _ => ?_
  refine local_bind (fixed _ (by decide)) fun _ => local_bind gap1 fun _ => ?_
  refine local_bind (fixed _ method) fun _ => local_bind gap fun _ => ?_
  refine local_bind (fixed _ (by decide)) fun _ => local_bind gap fun _ => ?_
  refine local_bind (local_star qualified) fun _ => ?_
  refine local_bind (fixed _ builder) fun _ => local_bind gap1 fun _ => ?_
  refine local_bind name fun _ => local_bind gap fun _ => ?_
  exact local_bind (fixed _ (by decide)) fun _ => local_pure _

/-- The first declaration of a text, in a walk over it. -/
theorem occurrences_eq_cons {s : Signature} {t : Text} {first : Occurrence Text}
    {others : List (Occurrence Text)} (h : s.occurrences t = first :: others) :
    ∃ (front taken : Text) (more : List (Piece Text)),
      cuts (fun _ => s.declaration) none t =
          front.map .plain ++ .hit taken first.value :: more ∧
        first.start = front.length ∧ first.stop = first.start + taken.length := by
  obtain ⟨front, taken, more, pieces, start, stop⟩ := occurrencesFrom_eq_cons h
  exact ⟨front, taken, more, pieces, by omega, stop⟩

end Signature

/-! ## Locating -/

namespace Method

/-- The text up to the opening brace. -/
def heading (m : Method) : Text :=
  m.before ++ m.declaration ++ m.gap

theorem text_eq (m : Method) : m.text = m.heading ++ '{' :: (m.body ++ '}' :: m.after) := by
  simp [text, heading]

theorem openBrace_eq (m : Method) : m.openBrace = m.heading.length := by
  simp only [openBrace, stop, start, heading, List.length_append]

/-- A method is cut at the first brace behind the declaration. -/
theorem cut_eq_some {t : Text} {found : Occurrence Text} {m : Method} :
    cut t found = .ok (some m) ↔
      m.before = t.take found.start ∧ m.declaration = (t.take found.stop).drop found.start ∧
        m.param = found.value ∧ t.drop found.stop = m.gap ++ '{' :: (m.body ++ '}' :: m.after) ∧
        '{' ∉ m.gap ∧ Brace.isBalanced m.body = true := by
  rw [cut]
  constructor
  · intro h
    split at h
    · simp at h
    · rename_i gap block opened
      obtain ⟨parts, absent⟩ := cutAt?_char.1 opened
      split at h
      · simp at h
      · rename_i body after closed
        obtain ⟨rfl, inside⟩ := Brace.closeBlock_eq_ok.1 closed
        simp only [Except.ok.injEq, Option.some.injEq] at h
        subst h
        exact ⟨rfl, rfl, rfl, parts, absent, Brace.isBalanced_iff.2 inside⟩
  · rintro ⟨before, declaration, param, parts, absent, inside⟩
    rw [cutAt?_char.2 ⟨parts, absent⟩]
    simp only
    rw [Brace.closeBlock_eq_ok.2 ⟨rfl, Brace.isBalanced_iff.1 inside⟩]
    simp only [← before, ← declaration, ← param]

/-- The offsets at which a method is cut are lengths of its parts. -/
theorem cut_length {t : Text} {found : Occurrence Text} {m : Method}
    (ordered : found.start ≤ found.stop) (h : cut t found = .ok (some m)) :
    m.before.length = found.start ∧ (m.before ++ m.declaration).length = found.stop := by
  obtain ⟨before, declaration, -, parts, -, -⟩ := cut_eq_some.1 h
  have bound : found.stop ≤ t.length := by
    refine Nat.le_of_not_lt fun short => ?_
    rw [List.drop_eq_nil_of_le (by omega)] at parts
    simp at parts
  have front : m.before ++ m.declaration = t.take found.stop := by
    have := List.take_append_drop found.start (t.take found.stop)
    rwa [List.take_take, Nat.min_eq_left ordered, ← before, ← declaration] at this
  constructor
  · rw [before, List.length_take]
    omega
  · rw [front, List.length_take, Nat.min_eq_left bound]

/-- With another text behind the opening brace, the declaration stays and the new block counts. -/
theorem cut_swap {t v : Text} {found : Occurrence Text} {m : Method}
    (ordered : found.start ≤ found.stop) (h : cut t found = .ok (some m)) :
    cut (m.heading ++ '{' :: v) found =
      match Brace.closeBlock 0 v with
      | .error depth => .error (.unclosedBrace m.openBrace depth)
      | .ok (body, after) => .ok (some { m with body := body, after := after }) := by
  obtain ⟨-, -, param, -, absent, -⟩ := cut_eq_some.1 h
  obtain ⟨startLength, length⟩ := cut_length ordered h
  have e : m.heading ++ '{' :: v = m.before ++ m.declaration ++ (m.gap ++ '{' :: v) := by
    simp [heading]
  have drop : (m.heading ++ '{' :: v).drop found.stop = m.gap ++ '{' :: v := by
    rw [e, ← length, List.drop_left]
  have takeStop : (m.heading ++ '{' :: v).take found.stop = m.before ++ m.declaration := by
    rw [e, ← length, List.take_left]
  have takeStart : (m.heading ++ '{' :: v).take found.start = m.before := by
    rw [e, List.append_assoc, ← startLength, List.take_left]
  have dropStart : (m.before ++ m.declaration).drop found.start = m.declaration := by
    rw [← startLength, List.drop_left]
  rw [cut, drop, cutAt?_char.2 ⟨rfl, absent⟩]
  simp only
  rw [takeStop, takeStart, dropStart, ← param]
  have brace : found.stop + m.gap.length = m.openBrace := by
    rw [openBrace_eq, heading, List.length_append, length]
  cases Brace.closeBlock 0 v <;> simp only [brace]

/-- Locating without its notices: of several declarations the first counts, unless that is
forbidden. -/
theorem locate_outcome (s : Signature) (strict : Bool) (t : Text) :
    (locate s strict t).outcome =
      match s.occurrences t with
      | [] => .ok none
      | first :: others =>
          if strict = true ∧ others ≠ [] then
            .error (.ambiguousMethod s.displayName (others.length + 1))
          else cut t first := by
  rw [locate]
  cases s.occurrences t with
  | nil => rfl
  | cons first others =>
      have last (x : Except Failure (Option Method)) :
          (do
            let found ← Attempt.ofExcept x
            if found.isNone then Attempt.note (.noBlock first.start)
            return found : Attempt Failure (Option Method)).outcome = x := by
        rw [Attempt.outcome_bind, Attempt.outcome_ofExcept]
        cases x with
        | error e => rfl
        | ok found => cases found <;> rfl
      cases others with
      | nil =>
          simp only [List.length_nil, Nat.lt_irrefl, Nat.zero_add, ne_eq, not_true_eq_false,
            and_false, if_false]
          exact last _
      | cons second others =>
          have several : 1 < (second :: others).length + 1 := by simp
          simp only [several, if_true]
          cases strict with
          | true => rfl
          | false =>
              simp only [Bool.false_eq_true, if_false, false_and]
              rw [Attempt.outcome_bind]
              exact last _

/-- With another text behind the opening brace, the same declaration is found. -/
theorem locate_swap {s : Signature} (method : '{' ∉ s.method) (builder : '{' ∉ s.builder)
    {t : Text} {m : Method} (h : (locate s false t).outcome = .ok (some m)) (v : Text) :
    (locate s false (m.heading ++ '{' :: v)).outcome =
      match Brace.closeBlock 0 v with
      | .error depth => .error (.unclosedBrace m.openBrace depth)
      | .ok (body, after) => .ok (some { m with body := body, after := after }) := by
  rw [locate_outcome] at h ⊢
  cases some_ : s.occurrences t with
  | nil => simp [some_] at h
  | cons first others =>
      simp only [some_, Bool.false_eq_true, false_and, if_false] at h
      obtain ⟨front, taken, more, pieces, start, stop⟩ := Signature.occurrences_eq_cons some_
      have ordered : first.start ≤ first.stop := by omega
      have whole := cut_text ordered h
      rw [text_eq] at whole
      -- the declaration ends before the brace, so the walk up to the brace finds it
      have inFront : ∃ more', cuts (fun _ => s.declaration) none m.heading =
          front.map .plain ++ .hit taken first.value :: more' := by
        have member : Piece.hit taken first.value ∈ cuts (fun _ => s.declaration) none t := by
          rw [pieces]
          simp
        have long : 0 < taken.length :=
          List.length_pos_iff.2 (mem_cuts_hit (fun _ => s.suffixed_declaration) member).1
        have bound := (cut_length ordered h).2
        have late : ∀ late, front.map .plain ≠ cuts (fun _ => s.declaration) none m.heading ++ late := by
          intro late e
          have text := cuts_text (r := fun _ => s.declaration)
            (fun _ => s.suffixed_declaration) none m.heading
          have plain : (front.map Piece.plain).flatMap (Piece.text (α := Text)) = front := by
            simp [List.flatMap_map, Piece.text]
          rw [e, List.flatMap_append, text] at plain
          have := congrArg List.length plain
          rw [heading, List.length_append, List.length_append] at this
          omega
        rw [← whole, cuts_append_of_local (Signature.local_declaration method builder _)] at pieces
        rcases List.append_eq_append_iff.1 pieces with ⟨rest, e, -⟩ | ⟨more', e, tails⟩
        · exact absurd e (late rest)
        · cases more' with
          | nil => exact absurd (by rw [e]; simp) (late [])
          | cons p more' =>
              obtain ⟨rfl, -⟩ := List.cons.inj tails
              exact ⟨more', e⟩
      obtain ⟨more', pieces'⟩ := inFront
      have there : ∃ others', s.occurrences (m.heading ++ '{' :: v) = first :: others' := by
        rw [Signature.occurrences, occurrences,
          cuts_append_of_local (Signature.local_declaration method builder v), pieces',
          List.append_assoc, List.cons_append]
        exact occurrencesFrom_of_eq (by omega) stop
      obtain ⟨others', e⟩ := there
      simp only [e, Bool.false_eq_true, false_and, if_false]
      exact cut_swap ordered h

end Method

end Regraft
