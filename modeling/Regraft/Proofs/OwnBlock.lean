import Mathlib.Data.List.Infix
import Regraft.Proofs.Boundary
import Regraft.Proofs.Ending

/-!
# Regraft.Proofs.OwnBlock -- whose block a located body is

The body of a located method is the block that opens with the first brace behind the declaration,
whatever stands between the two.  So it is the declaration's own block only where nothing in front of
that brace ends the member (`EndsMember`), and a declaration without a block stops a merge only where no
block at all stands behind it (`run_bodiless`); otherwise the block of a later member is taken for the
body (`run_bodiless_later`).
-/

namespace Regraft.Merge

set_option autoImplicit false

open Text Reader CarryOver

/-- Whether what stands behind a declaration ends the member before a block opens. -/
def EndsMember (rest : Text) : Prop :=
  ∃ front c back, rest = front ++ c :: back ∧ '{' ∉ front ∧ (c = ';' ∨ c = '}')

/-- Only what stands in front of the first opening brace counts. -/
theorem endsMember_iff {gap : Text} (absent : '{' ∉ gap) (block : Text) :
    EndsMember (gap ++ '{' :: block) ↔ ';' ∈ gap ∨ '}' ∈ gap := by
  constructor
  · rintro ⟨front, c, back, e, before, ends⟩
    have inGap : c ∈ gap := by
      rcases List.append_eq_append_iff.1 e with ⟨more, rfl, tails⟩ | ⟨more, rfl, tails⟩
      · cases more with
        | nil =>
            obtain ⟨rfl, -⟩ := List.cons.inj tails
            rcases ends with e | e <;> cases e
        | cons d more =>
            obtain ⟨rfl, -⟩ := List.cons.inj tails
            simp at before
      · cases more with
        | nil =>
            obtain ⟨rfl, -⟩ := List.cons.inj tails
            rcases ends with e | e <;> cases e
        | cons d more =>
            obtain ⟨rfl, -⟩ := List.cons.inj tails
            simp
    rcases ends with rfl | rfl
    · exact Or.inl inGap
    · exact Or.inr inGap
  · have stands {c : Char} (ends : c = ';' ∨ c = '}') (m : c ∈ gap) :
        EndsMember (gap ++ '{' :: block) := by
      obtain ⟨front, back, rfl⟩ := List.append_of_mem m
      refine ⟨front, c, back ++ '{' :: block, by simp, ?_, ends⟩
      exact fun m => absent (List.mem_append_left _ m)
    rintro (m | m)
    · exact stands (Or.inl rfl) m
    · exact stands (Or.inr rfl) m

variable {r : Rules} {source : String} {t : Text} {first : Occurrence Text}
  {others : List (Occurrence Text)}

/-- Where one of the declarations of a text counts, it is the first, with the first block behind it. -/
theorem locate_of_declared (declared : r.signature.occurrences t = first :: others)
    (allowed : r.strict = true → others = []) :
    (Method.locate r.signature r.strict t).outcome = Method.cut t first := by
  rw [Method.locate_outcome, declared]
  refine if_neg ?_
  rintro ⟨strict, several⟩
  exact several (allowed strict)

theorem cut_eq_none : Method.cut t first = .ok none ↔ '{' ∉ t.drop first.stop := by
  rw [← List.singleton_infix_iff, ← cutAt?_eq_none, Method.cut]
  cases cutAt? ['{'] (t.drop first.stop) with
  | none => simp
  | some p =>
      obtain ⟨gap, block⟩ := p
      cases closed : Brace.closeBlock 0 block <;> simp [closed]

/-- A method is not found exactly if no opening brace stands behind its declaration. -/
theorem locate_eq_notFound (declared : r.signature.occurrences t = first :: others)
    (allowed : r.strict = true → others = []) :
    (locate r source t).outcome = .error (.methodNotFound r.signature.method source) ↔
      '{' ∉ t.drop first.stop := by
  rw [← cut_eq_none, ← locate_of_declared declared allowed, locate, Attempt.outcome_bind]
  cases found : (Method.locate r.signature r.strict t).outcome with
  | ok m => cases m <;> simp [Except.bind]
  | error cause =>
      rw [locate_of_declared declared allowed] at found
      obtain ⟨_, _, rfl, -⟩ := cut_eq_error found
      simp [Except.bind]

theorem extract_eq_notFound {t : Text} :
    (extract r source t).outcome = .error (.methodNotFound r.signature.method source) ↔
      (locate r source t).outcome = .error (.methodNotFound r.signature.method source) := by
  rw [extract_eq_error]
  refine or_iff_left ?_
  rintro ⟨m, -, stops⟩
  obtain ⟨_, _, e, -⟩ := (Entity.matching_of_blocks _ _).2 _ stops
  cases e

/-- The block taken for the body of a method opens with the first brace behind the declaration; it is
that of the declaration itself exactly if nothing ends the member before.  For want of a method a merge
stops, in the old text or in the new one, exactly if no brace opens behind the declaration at all. -/
theorem run_bodiless (declared : r.signature.occurrences t = first :: others)
    (allowed : r.strict = true → others = []) :
    (∀ source m, (locate r source t).outcome = .ok m →
      t.drop first.stop = m.gap ++ '{' :: (m.body ++ '}' :: m.after) ∧ '{' ∉ m.gap ∧
        ((';' ∉ m.gap ∧ '}' ∉ m.gap) ↔ ¬ EndsMember (t.drop first.stop))) ∧
    (∀ oldSource newSource new,
      (∃ message, (run r oldSource newSource t new).2 =
        .aborted [] .extractOld (.methodNotFound r.signature.method oldSource) message) ↔
          '{' ∉ t.drop first.stop) ∧
    ∀ oldSource newSource old preserved, (extract r oldSource old).outcome = .ok preserved →
      ((∃ message, (run r oldSource newSource old t).2 =
        .aborted preserved .locateNew (.methodNotFound r.signature.method newSource) message) ↔
          '{' ∉ t.drop first.stop) := by
  refine ⟨fun source m found => ?_, fun oldSource newSource new => ?_,
    fun oldSource newSource old preserved extracted => ?_⟩
  · rw [locate_eq_ok, locate_of_declared declared allowed] at found
    obtain ⟨-, -, -, parts, absent, -⟩ := Method.cut_eq_some.1 found
    rw [parts, endsMember_iff absent, not_or]
    exact ⟨rfl, absent, Iff.rfl⟩
  · rw [← locate_eq_notFound declared allowed, ← extract_eq_notFound]
    constructor
    · rintro ⟨message, aborted⟩
      obtain ⟨result, ends⟩ := exists_ends r oldSource newSource t new
      rw [run_of_ends ends] at aborted
      subst aborted
      cases ends with
      | notExtracted stops => exact stops
    · exact fun stops => ⟨_, run_of_ends (.notExtracted stops)⟩
  · rw [← locate_eq_notFound declared allowed]
    constructor
    · rintro ⟨message, aborted⟩
      obtain ⟨result, ends⟩ := exists_ends r oldSource newSource old t
      rw [run_of_ends ends] at aborted
      subst aborted
      cases ends with
      | notLocated _ stops => exact stops
    · exact fun stops => ⟨_, run_of_ends (.notLocated extracted stops)⟩

/-- A context whose method has an expression for a body, and no other member behind it. -/
def expressionContext : Text :=
  "protected override void OnModelCreating(ModelBuilder b) => Configure(b);\n".toList

theorem run_bodiless_expression :
    (∃ first others, Rules.standard.signature.occurrences expressionContext = first :: others ∧
      '{' ∉ expressionContext.drop first.stop) ∧
    (∀ new, ∃ message, (run .standard "" "" expressionContext new).2 =
      .aborted [] .extractOld (.methodNotFound "OnModelCreating".toList "") message) ∧
    ∃ message, (run .standard "" "" seedContext expressionContext).2 =
      .aborted "    Seed(b);".toList .locateNew (.methodNotFound "OnModelCreating".toList "")
        message := by
  have declared : Rules.standard.signature.occurrences expressionContext = [⟨0, 55, ['b']⟩] := by
    decide +kernel
  have absent : '{' ∉ expressionContext.drop 55 := by
    decide
  have extracted : (extract .standard "" seedContext).outcome = .ok "    Seed(b);".toList := by
    decide +kernel
  obtain ⟨-, old, new⟩ := run_bodiless declared fun _ => rfl
  exact ⟨⟨_, _, declared, absent⟩, fun _ => (old _ _ _).2 absent, (new _ _ _ _ extracted).2 absent⟩

/-- A context whose method has an expression for a body, in front of a method with a block. -/
def delegatingContext : Text :=
  ("protected override void OnModelCreating(ModelBuilder b) => Configure(b);\n\n" ++
    "void Configure(ModelBuilder b)\n\x7b\n    Seed(b);\n\x7d\n").toList

def delegatingMethod : Method where
  before := []
  declaration := "protected override void OnModelCreating(ModelBuilder b)".toList
  gap := " => Configure(b);\n\nvoid Configure(ModelBuilder b)\n".toList
  body := "\n    Seed(b);\n".toList
  after := ['\n']
  param := ['b']

/-- A merge may carry over the body of a later member. -/
theorem run_bodiless_later :
    (Method.locate Rules.standard.signature false delegatingContext).outcome =
        .ok (some delegatingMethod) ∧
      ';' ∈ delegatingMethod.gap ∧
      (run .standard "" "" delegatingContext callScaffold).2 =
        .done "    Seed(b);".toList (some seedPlan) (seedPlan.apply callScaffold) := by
  decide +kernel

end Regraft.Merge
