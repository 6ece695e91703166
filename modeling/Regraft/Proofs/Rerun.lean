import Regraft.Proofs.Ending
import Regraft.Proofs.RoundTrip

/-!
# Regraft.Proofs.Rerun -- merging a merged text again

A plan puts the same text around whatever is carried over (`planIn_shape`), so a merged text tells
what was put into the new one (`apply_planIn_inj`).  A merge into the same new text therefore gives the
merged text again exactly if extraction gives the carry-over again, and then so does every further one
(`run_again`).  For a clean scaffold and clean carry-over it does; generated statements outside of
entity statements are carried over like hand-written ones and come twice (`run_again_doubles`).
-/

namespace Regraft

set_option autoImplicit false

open Text

namespace CarryOver

/-- The place and what is put around the carry-over depend on the method only. -/
theorem planIn_shape (r : Rules) (m : Method) :
    ∃ offset anchored front back, ∀ preserved,
      planIn r m preserved = ⟨offset, preserved, front ++ preserved ++ back, anchored⟩ := by
  cases first : r.firstCall? m.param m.body with
  | some found =>
      obtain ⟨start, call⟩ := found
      simp only [planIn, first, planAtCall]
      obtain ⟨whole, line⟩ := splitLastLine (m.body.take (start + (indentation call).length))
      by_cases blank : isBlankText line = true
      · refine ⟨m.bodyStart + whole.length, true, r.markers.notice line,
          '\n' :: line ++ r.markers.footer ++ ['\n', '\n'], fun preserved => ?_⟩
        simp [blank, wrap_eq, banner]
      · refine ⟨m.bodyStart + (start + (indentation call).length), true,
          '\n' :: r.markers.notice (indentation (m.body.drop whole.length)),
          '\n' :: indentation (m.body.drop whole.length) ++ r.markers.footer ++ '\n' :: '\n' ::
            indentation (m.body.drop whole.length), fun preserved => ?_⟩
        simp [blank, wrap_eq, banner]
  | none =>
      simp only [planIn, first, planAtEnd, dropFinalLineFeeds_wrap, banner]
      refine ⟨m.bodyStart + (trimEnd m.body).length, false,
        (if (trimEnd m.body).length = 0 then ['\n'] else ['\n', '\n']) ++
          r.markers.notice (bodyIndent m.body),
        '\n' :: bodyIndent m.body ++ r.markers.footer, fun preserved => ?_⟩
      simp

/-- A text with carry-over put in tells what was carried over. -/
theorem apply_planIn_inj {r : Rules} {m : Method} {new preserved preserved' : Text}
    (same : (planIn r m preserved).apply new = (planIn r m preserved').apply new) :
    preserved = preserved' := by
  obtain ⟨offset, anchored, front, back, shape⟩ := planIn_shape r m
  simp only [shape, Plan.apply, List.append_assoc] at same
  have inner := List.append_cancel_left (List.append_cancel_left same)
  exact (List.append_left_inj _).1 inner

/-- Names of texts are for messages only. -/
theorem extract_source {r : Rules} {source source' : String} {t preserved : Text} :
    (extract r source t).outcome = .ok preserved ↔ (extract r source' t).outcome = .ok preserved := by
  simp only [extract_eq_ok, locate_eq_ok]

end CarryOver

namespace Merge

open CarryOver

variable {r : Rules} {oldSource newSource source source' : String} {old new preserved merged : Text}
  {plan : Option Plan}

/-- What is carried over once more gives the same merge. -/
theorem run_eq_of_extract
    (done : (run r oldSource newSource old new).2 = .done preserved plan merged)
    (again : (extract r source merged).outcome = .ok preserved) :
    (run r source source' merged new).2 = .done preserved plan merged := by
  obtain ⟨-, m, found, planned, composed, m', found'⟩ := run_eq_done.1 done
  exact run_eq_done.2 ⟨again, m, locate_eq_ok.2 (locate_eq_ok.1 found), planned, composed, m',
    locate_eq_ok.2 (locate_eq_ok.1 found')⟩

/-- A merge that gives a merged text again carries the same over. -/
theorem extract_of_merged? (done : (run r oldSource newSource old new).2 = .done preserved plan merged)
    (again : (run r source source' merged new).2.merged? = some merged) :
    (extract r source merged).outcome = .ok preserved := by
  obtain ⟨extracted, m, found, planned, composed, -⟩ := run_eq_done.1 done
  cases ended : (run r source source' merged new).2 with
  | aborted =>
      rw [ended] at again
      cases again
  | done preserved' plan' merged' =>
      rw [ended] at again
      obtain rfl := Option.some.inj again
      obtain ⟨extracted', m', found', planned', composed', -⟩ := run_eq_done.1 ended
      obtain rfl : m' = m := by
        rw [locate_eq_ok, locate_eq_ok.1 found] at found'
        simpa using found'.symm
      suffices preserved' = preserved by rwa [this] at extracted'
      by_cases blank : isBlankText preserved = true
      · rw [if_pos blank] at planned
        subst planned
        by_cases blank' : isBlankText preserved' = true
        · rw [(isBlankText_of_extract extracted').1 blank', (isBlankText_of_extract extracted).1 blank]
        · rw [if_neg blank'] at planned'
          subst planned'
          exact absurd (composed'.symm.trans composed) (apply_ne m' preserved')
      · rw [if_neg blank] at planned
        subst planned
        by_cases blank' : isBlankText preserved' = true
        · rw [if_pos blank'] at planned'
          subst planned'
          exact absurd (composed.symm.trans composed') (apply_ne m' preserved)
        · rw [if_neg blank'] at planned'
          subst planned'
          exact apply_planIn_inj (composed'.symm.trans composed)

/-- What was carried into a clean scaffold is carried over again if it is plain and stays what it is
where statements go. -/
theorem extract_of_scaffold {m : Method}
    (done : (run .standard oldSource newSource old new).2 = .done preserved plan merged)
    (scaffold : CleanScaffold .standard new m)
    (clean : preserved = [] ∨ PlainCarryOver .standard m.param preserved ∧
      Entity.tidy (Entity.statementCount (Entity.segments (Entity.anchor m.param) m.body)) preserved =
        preserved) :
    (extract .standard "" merged).outcome = .ok preserved := by
  obtain ⟨-, m', found, planned, rfl, -⟩ := run_eq_done.1 done
  obtain rfl : m' = m := by
    rw [locate_eq_ok, locate_eq_ok.1 scaffold.located] at found
    simpa using found.symm
  rcases clean with rfl | ⟨plain, stays⟩
  · rw [if_pos isBlankText_nil] at planned
    subst planned
    exact scaffold.empty
  · obtain ⟨m'', found', kept⟩ := scaffold.locate_planned plain stays
    rw [if_neg plain.not_blank] at planned
    subst planned
    rw [CarryOver.apply, extract_eq found', kept]

/-! ## Merging again -/

/-- A merge into the same new text gives the merged text again exactly if it carries over the same, and
then so does every merge after it; of clean carry-over in a clean scaffold the same is carried over. -/
theorem run_again (done : (run r oldSource newSource old new).2 = .done preserved plan merged) :
    (∀ source source', (run r source source' merged new).2.merged? = some merged ↔
      (extract r "" merged).outcome = .ok preserved) ∧
    ((extract r "" merged).outcome = .ok preserved → ∀ n,
      (chain r merged (List.replicate n new)).2 =
        (List.replicate n (.done preserved plan merged), merged)) ∧
    ∀ m, r = .standard → CleanScaffold r new m → preserved = [] ∨ CleanCarryOver r m.param preserved →
      (extract r "" merged).outcome = .ok preserved := by
  refine ⟨fun source source' => ⟨fun again => extract_source.1 (extract_of_merged? done again),
    fun again => ?_⟩, fun again n => ?_, ?_⟩
  · rw [run_eq_of_extract done (extract_source.1 again)]
    rfl
  · induction n with
    | zero => rfl
    | succ n ih =>
        have once : (run r "" "" merged new).2 = .done preserved plan merged :=
          run_eq_of_extract done again
        simp only [List.replicate_succ, chain, once, MergeResult.merged?, Option.getD_some, ih]
  · rintro m rfl scaffold clean
    exact extract_of_scaffold done scaffold (clean.imp_right fun clean =>
      ⟨clean.toPlainCarryOver, Entity.tidy_of_occurrences clean.noLineEnds _⟩)

theorem run_again_seed :
    (run .standard "" "" (seedPlan.apply callScaffold) callScaffold).2.merged? =
        some (seedPlan.apply callScaffold) ∧
      (chain .standard (seedPlan.apply callScaffold) [callScaffold, callScaffold]).2.2 =
        seedPlan.apply callScaffold := by
  obtain ⟨once, always, clean⟩ := run_again run_seed
  have again := clean callMethod rfl cleanScaffold_call (Or.inr cleanCarryOver_seed)
  exact ⟨(once "" "").2 again, congrArg Prod.snd (always again 2)⟩

/-- A generated context with a statement that is no entity statement. -/
def collationScaffold : Text :=
  ("protected override void OnModelCreating(ModelBuilder b)\n\x7b\n" ++
    "    b.UseCollation(\"x\");\n    OnModelCreatingPartial(b);\n\x7d\n").toList

def collationPlan (preserved : Text) : Plan :=
  planIn .standard { callMethod with
    body := "\n    b.UseCollation(\"x\");\n    OnModelCreatingPartial(b);\n".toList } preserved

/-- The generated statement is carried over, and carried over twice from the merged text. -/
theorem run_again_doubles :
    ∃ once twice merged merged',
      (run .standard "" "" collationScaffold collationScaffold).2 =
        .done once (some (collationPlan once)) merged ∧
      (run .standard "" "" merged collationScaffold).2 =
        .done twice (some (collationPlan twice)) merged' ∧ merged' ≠ merged := by
  let once : Text := "    b.UseCollation(\"x\");".toList
  let twice : Text := once ++ "\n    \n".toList ++ once
  exact ⟨once, twice, (collationPlan once).apply collationScaffold,
    (collationPlan twice).apply collationScaffold, by decide +kernel⟩

/-! ## Line ends in literals -/

/-- Plain carry-over is what extraction from the merged text gives, character for character, where the
new text has no entity statement or the carry-over no run of three line ends. -/
theorem extract_merged {m : Method}
    (done : (run .standard oldSource newSource old new).2 = .done preserved plan merged)
    (scaffold : CleanScaffold .standard new m) (plain : PlainCarryOver .standard m.param preserved)
    (apart : Entity.blocks (Entity.anchor m.param) m.body = .ok [] ∨
      Reader.occurrences (fun _ => Entity.lineEnds) preserved = []) :
    (extract .standard "" merged).outcome = .ok preserved := by
  refine extract_of_scaffold done scaffold (Or.inr ⟨plain, ?_⟩)
  rcases apart with noBlocks | noLineEnds
  · have count : Entity.statementCount (Entity.segments (Entity.anchor m.param) m.body) = 0 := by
      rw [scaffold.blocks_eq MarkerPair.ordinary_standard, Except.ok.injEq] at noBlocks
      exact Entity.statementCount_eq_zero.2 (Entity.blocksFrom_eq_nil.1 noBlocks)
    rw [count, Entity.tidy, if_pos rfl]
  · exact Entity.tidy_of_occurrences noLineEnds _

/-- A context with a literal over several lines, two of them empty. -/
def literalContext : Text :=
  ("protected override void OnModelCreating(ModelBuilder b)\n\x7b\n" ++
    "    Seed(@\"x\n\n\ny\");\n\x7d\n").toList

def literalCarryOver : Text :=
  "    Seed(@\"x\n\n\ny\");".toList

theorem extract_merged_literal :
    (extract .standard "" ((planIn .standard callMethod literalCarryOver).apply callScaffold)).outcome =
      .ok literalCarryOver := by
  obtain ⟨done, noOpening, noCall, noBlocks⟩ :
      (run .standard "" "" literalContext callScaffold).2 =
          .done literalCarryOver (some (planIn .standard callMethod literalCarryOver))
            ((planIn .standard callMethod literalCarryOver).apply callScaffold) ∧
        ¬ Rules.standard.markers.opening <:+: literalCarryOver ∧
        Rules.standard.firstCall? callMethod.param literalCarryOver = none ∧
        Entity.blocks (Entity.anchor callMethod.param) callMethod.body = .ok [] := by
    decide +kernel
  exact extract_merged done cleanScaffold_call (.of_no_anchor (List.all_eq_true.1 (by decide))
    (by decide) (by decide) (by decide) (by decide) noOpening (by decide) noCall) (Or.inl noBlocks)

/-- Beside an entity statement the empty lines of a literal are collapsed to one. -/
theorem literal_collapses :
    ∃ m plan merged left,
      (run .standard "" "" literalContext blogScaffold).2 = .done literalCarryOver plan merged ∧
      (locate .standard "" literalContext).outcome = .ok m ∧
      (locate .standard "" blogScaffold).outcome = .ok blogScaffoldMethod ∧
      m.param = blogScaffoldMethod.param ∧ (extract .standard "" blogScaffold).outcome = .ok [] ∧
      (extract .standard "" merged).outcome = .ok left ∧ left ≠ literalCarryOver := by
  let plan := planIn .standard blogScaffoldMethod literalCarryOver
  exact ⟨{ callMethod with body := "\n    Seed(@\"x\n\n\ny\");\n".toList }, some plan,
    plan.apply blogScaffold, "    Seed(@\"x\n\ny\");".toList, by decide +kernel⟩

end Merge

end Regraft
