import Regraft.Proofs.Crlf.Strip
import Regraft.Proofs.Ending

/-!
# Regraft.Proofs.Crlf.Extraction -- extraction from texts with carriage returns

The first declaration of a converted text is the one of the text, and its block closes at the same
brace (`Method.locate_crlf`).  Each pass over the body gives the converted result, so extraction gives
the converted carry-over, or stops for a reason of the same kind (`extract_crlf`).  All that is asked
of the rules is that their literals lie in one line (`Rules.OneLine`).
-/

namespace Regraft

set_option autoImplicit false

open Text Reader

/-- Outcomes in sequence that end in the same way, each part with its value converted. -/
theorem Failure.mapError_kind_bind {α β γ δ : Type} {f : α → β} {g : γ → δ}
    {x : Except Failure α} {x' : Except Failure β} {k : α → Except Failure γ}
    {k' : β → Except Failure δ} (first : x'.mapError kind = (x.mapError kind).map f)
    (later : ∀ a, x = .ok a → (k' (f a)).mapError kind = ((k a).mapError kind).map g) :
    (x'.bind k').mapError kind = ((x.bind k).mapError kind).map g := by
  cases x with
  | error cause =>
      cases x' with
      | error cause' => exact congrArg Except.error (Except.error.inj first)
      | ok b => cases first
  | ok a =>
      cases x' with
      | error cause' => cases first
      | ok b =>
          obtain rfl : b = f a := Except.ok.inj first
          exact later a rfl

/-! ## Methods -/

namespace Method

def crlf (m : Method) : Method where
  before := Text.crlf m.before
  declaration := Text.crlf m.declaration
  gap := Text.crlf m.gap
  body := Text.crlf m.body
  after := Text.crlf m.after
  param := m.param

/-- What is cut out at a declaration of a converted text. -/
theorem cut_crlf (front taken back param : Text) :
    (cut (Text.crlf (front ++ taken ++ back))
        ⟨(Text.crlf front).length, (Text.crlf (front ++ taken)).length, param⟩).mapError Failure.kind =
      ((cut (front ++ taken ++ back) ⟨front.length, (front ++ taken).length, param⟩).mapError
        Failure.kind).map (Option.map crlf) := by
  have brace : OneLine ['{'] := by decide
  have takeStart {s t u : Text} : (s ++ t ++ u).take s.length = s := by simp
  have dropStart {s t : Text} : (s ++ t).drop s.length = t := List.drop_left
  have takeStop {s t : Text} : (s ++ t).take s.length = s := List.take_left
  simp only [cut, crlf_append (front ++ taken), dropStart, takeStop,
    cutAt?_crlf brace (List.cons_ne_nil _ _)]
  cases cutAt? ['{'] back with
  | none => rfl
  | some p =>
      obtain ⟨gap, block⟩ := p
      simp only [Option.map_some, Brace.closeBlock_crlf]
      cases Brace.closeBlock 0 block with
      | error depth => rfl
      | ok p =>
          obtain ⟨body, after⟩ := p
          simp only [Except.map, Except.mapError, crlf, crlf_append front, takeStart, dropStart,
            Option.map_some]

theorem locate_crlf {s : Signature} (line : s.OneLine) {t : Text} (plain : '\r' ∉ t) :
    (locate s false (Text.crlf t)).outcome.mapError Failure.kind =
      ((locate s false t).outcome.mapError Failure.kind).map (Option.map crlf) := by
  rw [locate_outcome, locate_outcome, Signature.occurrences, Signature.occurrences]
  rcases occurrences_crlf (Signature.walks_declaration line) plain with
    ⟨none_, none'⟩ | ⟨front, taken, back, param, others, others', rfl, some_, some'⟩
  · rw [none_, none']
    rfl
  · rw [some_, some']
    exact cut_crlf front taken back param

end Method

/-! ## The passes over a body -/

/-- Rules whose literals lie in one line, and that take the first of several declarations. -/
structure Rules.OneLine (r : Rules) : Prop where
  signature : r.signature.OneLine
  forward_some : r.forward ≠ []
  forward : ∀ c ∈ r.forward, isWord c = true
  markers : r.markers.OneLine
  first : r.strict = false

theorem Rules.oneLine_standard : Rules.standard.OneLine where
  signature := ⟨by decide, by decide, by decide, by decide⟩
  forward_some := by decide
  forward := List.all_eq_true.1 (by decide)
  markers := MarkerPair.oneLine_standard
  first := rfl

namespace CarryOver

theorem dropBlankLines_crlf {t : Text} (plain : '\r' ∉ t) :
    dropBlankLines (crlf t) = crlf (dropBlankLines t) := by
  have readings := converts_star converts_blankLine suffixed_blankLine t plain
  simp only [dropBlankLines, first?, readings, List.head?_map]
  cases (star blankLine t).head? <;> rfl

variable {r : Rules} (line : r.OneLine)
include line

theorem ofMethod_crlf {m : Method} (param : Signature.IsIdent m.param) (plain : '\r' ∉ m.body) :
    (ofMethod r m.crlf).mapError Failure.kind = ((ofMethod r m).mapError Failure.kind).map crlf := by
  have names : r.CallNames m.param := ⟨line.forward_some, line.forward, param.words⟩
  have plainMarks : '\r' ∉ r.markers.strip m.body :=
    fun c => plain ((r.markers.strip_sublist m.body).subset c)
  have bare := Entity.strip_crlf (Entity.inked_anchor param.words) plainMarks
  rw [← MarkerPair.strip_crlf line.markers plain] at bare
  refine Failure.mapError_kind_bind bare fun kept done => ?_
  have plainKept : '\r' ∉ kept := fun c => plainMarks (Entity.strip_subset done c)
  have plainLeft : '\r' ∉ r.removeCalls m.param kept :=
    fun c => plainKept ((remove_sublist (r.forwardingCall_suffixed m.param) kept).subset c)
  have calls : r.removeCalls m.param (crlf kept) = crlf (r.removeCalls m.param kept) :=
    remove_crlf (Rules.walks_forwardingCall names param.ne_nil) plainKept
  refine congrArg Except.ok ?_
  rw [← trimEnd_crlf, ← dropBlankLines_crlf plainLeft, ← calls]
  rfl

theorem locate_crlf (source : String) {t : Text} (plain : '\r' ∉ t) :
    (locate r source (crlf t)).outcome.mapError Failure.kind =
      ((locate r source t).outcome.mapError Failure.kind).map Method.crlf := by
  have sequence (t : Text) : (locate r source t).outcome =
      (Method.locate r.signature false t).outcome.bind fun found =>
        found.elim (.error (.methodNotFound r.signature.method source)) .ok := by
    rw [locate, line.first, Attempt.outcome_bind]
    congr 1
    funext found
    cases found <;> rfl
  rw [sequence, sequence]
  refine Failure.mapError_kind_bind (Method.locate_crlf line.signature plain) fun found _ => ?_
  cases found <;> rfl

/-- Extraction by rules of one line each. -/
theorem extract_crlf_of_oneLine (source : String) {old : Text} (plain : '\r' ∉ old) :
    (extract r source (crlf old)).outcome.mapError Failure.kind =
      ((extract r source old).outcome.mapError Failure.kind).map crlf := by
  have sequence (t : Text) : (extract r source t).outcome =
      (locate r source t).outcome.bind (ofMethod r) := by
    cases found : (locate r source t).outcome with
    | error cause => exact extract_eq_error.2 (Or.inl found)
    | ok m => exact extract_eq found
  rw [sequence, sequence]
  refine Failure.mapError_kind_bind (locate_crlf line source plain) fun m found => ?_
  have plainBody : '\r' ∉ m.body := by
    intro c
    refine plain ?_
    rw [← text_of_locate found, Method.text_eq]
    simp [c]
  exact ofMethod_crlf line (isIdent_of_locate found) plainBody

omit line in
/-- With a carriage return before every line feed of the old text, extraction ends in the same way,
and the carry-over gets carriage returns and nothing else. -/
theorem extract_crlf (source : String) {old : Text} (plain : '\r' ∉ old) :
    (extract .standard source (crlf old)).outcome.mapError Failure.kind =
      ((extract .standard source old).outcome.mapError Failure.kind).map crlf :=
  extract_crlf_of_oneLine Rules.oneLine_standard source plain

omit line in
theorem extract_crlf_blog :
    '\r' ∉ blogContext ∧
      (extract .standard "" (crlf blogContext)).outcome.mapError Failure.kind =
        .ok (crlf blogCarryOver) := by
  obtain ⟨plain, kept⟩ : '\r' ∉ blogContext ∧
      (extract .standard "" blogContext).outcome = .ok blogCarryOver := by decide +kernel
  refine ⟨plain, ?_⟩
  rw [extract_crlf "" plain, kept]
  rfl

end CarryOver

end Regraft
