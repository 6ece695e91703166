import Regraft.Proofs.Entity.Splice
import Regraft.Proofs.Insertion

/-!
# Regraft.Proofs.Ending -- how a merge ends

`Ends` has one rule for each way in which a merge ends.  The rules leave one ending for any two texts,
and `run` computes it (`run_ends`).  Nothing stops a merge but a declaration that is missing or one of
several and a block that is never closed: planning cannot fail where locating did not, and the check
of the merged text fails only where its method is not found.  The brace and span operations on the
way are asked for offsets at which they answer (`inside_of_locate`, `matching_of_blocks`).
-/

namespace Regraft

set_option autoImplicit false

open Text Reader

/-! ## Offsets -/

theorem Span.slice_eq_ok {s : Span} {t front part back : Text} (parts : t = front ++ part ++ back)
    (start : s.start = front.length) (stop : s.stop = (front ++ part).length) :
    s.slice t = .ok part := by
  have fits : s.stop ≤ t.length := by
    rw [stop, parts]
    simp only [List.length_append]
    omega
  rw [Span.slice, if_pos fits, stop, parts, List.take_left, start, List.drop_left]

namespace Entity

/-- The block of each statement is closed by its brace, and one that stays open is never closed. -/
def Matched : List Segment → Prop
  | [] => True
  | .statement _ s :: more => Brace.isBalanced s.inner = true ∧ Matched more
  | .unclosed _ _ depth after :: more => Brace.closeBlock 0 after = .error depth ∧ more = []
  | _ :: more => Matched more

theorem matched_segments (token body : Text) : Matched (segments token body) := by
  fun_induction segments token body with
  | case1 => trivial
  | case2 body before found after cut head more opens ih =>
      show Matched (if h : more.length < body.length then segments token more else [.rest more])
      split
      · rename_i shorter
        exact ih shorter
      · trivial
  | case3 body before found after cut head depth block opens stillOpen stays => exact ⟨stays, rfl⟩
  | case4 body before found after cut head depth block opens inner next closes ends ih => exact ih
  | case5 body before found after cut head depth block opens inner next closes more ends ih =>
      exact ⟨Brace.isBalanced_iff.2 (Brace.closeBlock_eq_ok.1 closes).2, ih⟩

/-- The braces of a statement are partners, and what stops the removal of statements is a brace
without one. -/
theorem matching_of_matched {segs : List Segment} (matched : Matched segs) (front : Text) :
    (∀ b ∈ blocksFrom front.length segs,
      Brace.matching (front ++ textOf segs) b.openBrace = .ok b.closeBrace) ∧
    ∀ failure, failureFrom? front.length segs = some failure → ∃ offset depth,
      failure = .unclosedBrace offset depth ∧
        Brace.matching (front ++ textOf segs) offset = .error (.unclosed offset depth) := by
  induction segs generalizing front with
  | nil => simp [blocksFrom, failureFrom?]
  | cons seg more ih =>
      have later (rest : Matched more) := ih rest (front ++ seg.text)
      rw [List.length_append, List.append_assoc, ← textOf_cons] at later
      cases seg with
      | statement before s =>
          obtain ⟨balanced, rest⟩ := matched
          refine ⟨?_, (later rest).2⟩
          rw [blocksFrom]
          refine List.forall_mem_cons.2 ⟨?_, (later rest).1⟩
          have parts : front ++ textOf (.statement before s :: more) =
              (front ++ before ++ s.anchor ++ s.head) ++
                '{' :: (s.inner ++ '}' :: (s.tail ++ textOf more)) := by
            rw [textOf_cons, Segment.text, Statement.text]
            simp
          have closes := Brace.closeBlock_eq_ok.2
            ⟨(rfl : s.inner ++ '}' :: (s.tail ++ textOf more) = _), Brace.isBalanced_iff.1 balanced⟩
          have opens : (s.block (front.length + before.length)).openBrace =
              (front ++ before ++ s.anchor ++ s.head).length := by
            simp only [Statement.block, List.length_append]
          rw [parts, opens, Brace.matching_of_closed closes, ← opens]
          rfl
      | unclosed before head depth after =>
          obtain ⟨stays, rfl⟩ := matched
          refine ⟨by simp [blocksFrom], fun failure stops => ?_⟩
          rw [failureFrom?, Option.some.injEq] at stops
          have parts : front ++ textOf [.unclosed before head depth after] =
              (front ++ before ++ head) ++ '{' :: after := by
            rw [textOf_cons, Segment.text]
            simp
          have offset : front.length + before.length + head.length =
              (front ++ before ++ head).length := by
            simp only [List.length_append]
          refine ⟨_, depth, stops.symm, ?_⟩
          rw [offset, parts]
          exact Brace.matching_of_open stays
      | _ => exact later matched

theorem matching_of_blocks (token body : Text) :
    (∀ bs, blocks token body = .ok bs →
      ∀ b ∈ bs, Brace.matching body b.openBrace = .ok b.closeBrace) ∧
    ∀ failure, blocks token body = .error failure → ∃ offset depth,
      failure = .unclosedBrace offset depth ∧
        Brace.matching body offset = .error (.unclosed offset depth) := by
  have answers := matching_of_matched (matched_segments token body) []
  rw [List.nil_append, List.length_nil, segments_text] at answers
  rw [blocks]
  cases stops : failureFrom? 0 (segments token body) with
  | none => simpa using answers.1
  | some failure => simpa using answers.2 failure stops

end Entity

/-! ## Locating and extracting -/

namespace CarryOver

variable {r : Rules} {source : String}

/-- The offsets of a located method are spans of its text, and its braces are partners. -/
theorem inside_of_locate {t : Text} {m : Method} (found : (locate r source t).outcome = .ok m) :
    (∃ declaration, Span.ofInts m.start m.stop = .ok declaration ∧
      declaration.slice t = .ok m.declaration) ∧
    ∃ body, Brace.inside t m.openBrace = .ok body ∧ body.stop = m.closeBrace ∧
      body.slice t = .ok m.body := by
  have whole := text_of_locate found
  constructor
  · have ordered : (0 : Int) ≤ m.start ∧ (m.start : Int) ≤ m.stop := by
      rw [Method.stop]
      omega
    have parts : t = m.before ++ m.declaration ++ (m.gap ++ '{' :: m.body ++ '}' :: m.after) := by
      rw [← whole, Method.text]
      simp
    refine ⟨⟨m.start, m.stop, by omega⟩, ?_, ?_⟩
    · rw [Span.ofInts, dif_pos ordered]
      simp only [Int.toNat_natCast]
    · exact Span.slice_eq_ok parts rfl (by rw [List.length_append]; rfl)
  · have closes := Brace.closeBlock_eq_ok.2
      ⟨(rfl : m.body ++ '}' :: m.after = _), Brace.isBalanced_iff.1 (isBalanced_of_locate found)⟩
    have parts : t = m.heading ++ ['{'] ++ m.body ++ '}' :: m.after := by
      rw [← whole, Method.text_eq]
      simp
    refine ⟨_, by rw [← whole, Method.text_eq, Method.openBrace_eq, Brace.inside_append, closes],
      ?_, ?_⟩
    · rw [Method.closeBrace, Method.bodyStart, Method.openBrace_eq]
    · exact Span.slice_eq_ok parts (by simp) (by simp; omega)

/-- The block behind a declaration cannot be cut out where it is never closed. -/
theorem cut_eq_error {t : Text} {found : Occurrence Text} {cause : Failure}
    (stops : Method.cut t found = .error cause) :
    ∃ offset depth, cause = .unclosedBrace offset depth ∧
      Brace.inside t offset = .error (.unclosed offset depth) := by
  rw [Method.cut] at stops
  split at stops
  · cases stops
  · rename_i gap block opened
    split at stops
    · rename_i depth stays
      have bound : found.stop ≤ t.length := by
        refine Nat.le_of_not_lt fun short => ?_
        rw [List.drop_eq_nil_of_le (by omega)] at opened
        cases opened
      obtain ⟨front, rfl, offset⟩ :
          ∃ front, t = front ++ '{' :: block ∧ found.stop + gap.length = front.length := by
        refine ⟨t.take found.stop ++ gap, ?_, ?_⟩
        · have := cutAt?_append opened
          rw [List.append_assoc] at this
          rw [List.append_assoc, ← List.singleton_append, ← this, List.take_append_drop]
        · rw [List.length_append, List.length_take, Nat.min_eq_left bound]
      refine ⟨_, depth, (Except.error.inj stops).symm, ?_⟩
      rw [offset, Brace.inside_append, stays]
    · cases stops

/-- Why a method is not located. -/
theorem locate_eq_error {t : Text} {cause : Failure}
    (stops : (locate r source t).outcome = .error cause) :
    cause = .methodNotFound r.signature.method source ∨
      (∃ count, cause = .ambiguousMethod r.signature.displayName count) ∨
      ∃ offset depth, cause = .unclosedBrace offset depth ∧
        Brace.inside t offset = .error (.unclosed offset depth) := by
  rw [locate, Attempt.outcome_bind] at stops
  cases found : (Method.locate r.signature r.strict t).outcome with
  | ok m =>
      rw [found] at stops
      cases m with
      | none => exact Or.inl (Except.error.inj stops).symm
      | some m => cases stops
  | error e =>
      rw [found] at stops
      obtain rfl := Except.error.inj stops
      rw [Method.locate_outcome] at found
      split at found
      · cases found
      · split at found
        · exact Or.inr (Or.inl ⟨_, (Except.error.inj found).symm⟩)
        · exact Or.inr (Or.inr (cut_eq_error found))

theorem kind_of_locate {t : Text} {cause : Failure}
    (stops : (locate r source t).outcome = .error cause) : cause.kind ≠ "merge_error" := by
  rcases locate_eq_error stops with rfl | ⟨_, rfl⟩ | ⟨_, _, rfl, -⟩ <;> simp [Failure.kind]

theorem extract_eq_ok {old preserved : Text} :
    (extract r source old).outcome = .ok preserved ↔
      ∃ m, (locate r source old).outcome = .ok m ∧ ofMethod r m = .ok preserved := by
  cases found : (locate r source old).outcome with
  | error cause => simp [extract, Attempt.outcome_bind, found, Except.bind]
  | ok m => simp [extract_eq found]

/-- What extraction keeps does not end with white space. -/
theorem isBlankText_of_extract {old preserved : Text}
    (done : (extract r source old).outcome = .ok preserved) :
    isBlankText preserved = true ↔ preserved = [] := by
  obtain ⟨m, -, kept⟩ := extract_eq_ok.1 done
  obtain ⟨bare, -, rfl⟩ := ofMethod_eq kept
  obtain ⟨tail, parts, blankTail⟩ := trimEnd_append (dropBlankLines (r.removeCalls m.param bare))
  have trimmed := congrArg trimEnd parts
  rw [trimEnd_append_blank _ blankTail] at trimmed
  constructor
  · intro blank
    rw [trimmed]
    exact trimEnd_of_blank blank
  · intro none_
    rw [none_]
    rfl

/-- Extraction fails where the method is not located, or a statement in it is never closed. -/
theorem extract_eq_error {old : Text} {cause : Failure} :
    (extract r source old).outcome = .error cause ↔
      (locate r source old).outcome = .error cause ∨
        ∃ m, (locate r source old).outcome = .ok m ∧
          Entity.blocks (Entity.anchor m.param) (r.markers.strip m.body) = .error cause := by
  cases found : (locate r source old).outcome with
  | error e => simp [extract, Attempt.outcome_bind, found, Except.bind]
  | ok m =>
      simp only [extract_eq found, ofMethod, Entity.strip, Entity.blocks, reduceCtorEq,
        Except.ok.injEq, exists_eq_left', false_or]
      cases Entity.failureFrom? 0
          (Entity.segments (Entity.anchor m.param) (r.markers.strip m.body)) with
      | none => simp [bind, Except.bind, pure, Except.pure]
      | some failure => simp [bind, Except.bind]

end CarryOver

/-! ## Endings -/

namespace Merge

open CarryOver

inductive Ends (r : Rules) (oldSource newSource : String) (old new : Text) : MergeResult → Prop where
  /-- Nothing can be extracted from the old text. -/
  | notExtracted {cause : Failure} :
      (extract r oldSource old).outcome = .error cause →
      Ends r oldSource newSource old new
        (.aborted [] .extractOld cause (abortMessage r oldSource cause))
  /-- The new text has no method to insert into. -/
  | notLocated {preserved : Text} {cause : Failure} :
      (extract r oldSource old).outcome = .ok preserved →
      (locate r newSource new).outcome = .error cause →
      Ends r oldSource newSource old new
        (.aborted preserved .locateNew cause (abortMessage r newSource cause))
  /-- The composed text has no method. -/
  | notValid {preserved merged : Text} {cause : Failure} :
      (extract r oldSource old).outcome = .ok preserved → preserved ≠ [] →
      (insert r newSource preserved new).outcome = .ok merged →
      (locate r newSource merged).outcome = .error cause →
      Ends r oldSource newSource old new
        (.aborted preserved .validate cause (abortMessage r newSource cause))
  /-- There is nothing to carry over. -/
  | unchanged {m : Method} :
      (extract r oldSource old).outcome = .ok [] →
      (locate r newSource new).outcome = .ok m →
      Ends r oldSource newSource old new (.done [] none new)
  /-- The carry-over is put in as planned. -/
  | inserted {preserved : Text} {p : Plan} {m : Method} :
      (extract r oldSource old).outcome = .ok preserved → preserved ≠ [] →
      (plan r newSource preserved new).outcome = .ok (some p) →
      (locate r newSource (p.apply new)).outcome = .ok m →
      Ends r oldSource newSource old new (.done preserved (some p) (p.apply new))

variable {r : Rules} {oldSource newSource : String} {old new : Text}

/-- A plan puts something in. -/
theorem apply_ne (m : Method) (preserved : Text) : (planIn r m preserved).apply new ≠ new := by
  obtain ⟨x, y, before, indent, after, -, -, insertion, -, -, -⟩ :=
    (place_planIn r m preserved).insertion
  intro same
  have length := congrArg List.length same
  rw [Plan.apply, insertion, banner] at length
  simp only [List.length_append, List.length_cons, List.length_take, List.length_drop] at length
  omega

theorem plan_eq_ok {preserved : Text} {p : Option Plan} :
    (plan r newSource preserved new).outcome = .ok p ↔
      ∃ m, (locate r newSource new).outcome = .ok m ∧
        p = if isBlankText preserved then none else some (planIn r m preserved) := by
  cases found : (locate r newSource new).outcome with
  | error cause => simp [plan, Attempt.outcome_bind, found, Except.bind]
  | ok m => simp [plan_eq found, @eq_comm _ p]

/-- The composed text is the new one with the planned insertion made. -/
theorem insert_eq_ok {preserved merged : Text} :
    (CarryOver.insert r newSource preserved new).outcome = .ok merged ↔
      ∃ p, (plan r newSource preserved new).outcome = .ok p ∧
        merged = CarryOver.apply p new := by
  rw [CarryOver.insert, Attempt.bind_eq_ok]
  constructor
  · rintro ⟨p, planned, same⟩
    exact ⟨p, planned, (Except.ok.inj same).symm⟩
  · rintro ⟨p, planned, rfl⟩
    exact ⟨p, planned, rfl⟩

/-- Each rule says what `run` gives. -/
theorem run_of_ends {result : MergeResult} (h : Ends r oldSource newSource old new result) :
    (run r oldSource newSource old new).2 = result := by
  rw [run_eq]
  cases h with
  | notExtracted stops => rw [stops]
  | notLocated extracted stops => simp only [extracted, compose_eq, stops]
  | notValid extracted some_ composed stops =>
      obtain ⟨p, planned, rfl⟩ := insert_eq_ok.1 composed
      obtain ⟨m, found, rfl⟩ := plan_eq_ok.1 planned
      simp only [extracted, compose_eq, found, stops]
  | unchanged extracted found =>
      simp only [extracted, compose_eq, found, if_pos isBlankText_nil, CarryOver.apply]
  | inserted extracted some_ planned valid =>
      have inked := mt (isBlankText_of_extract extracted).1 some_
      obtain ⟨m, found, same⟩ := plan_eq_ok.1 planned
      rw [if_neg inked, Option.some.injEq] at same
      subst same
      simp only [extracted, compose_eq, found, if_neg inked, CarryOver.apply, valid]

/-- There is a rule for any two texts. -/
theorem exists_ends (r : Rules) (oldSource newSource : String) (old new : Text) :
    ∃ result, Ends r oldSource newSource old new result := by
  cases extracted : (extract r oldSource old).outcome with
  | error cause => exact ⟨_, .notExtracted extracted⟩
  | ok preserved =>
      cases found : (locate r newSource new).outcome with
      | error cause => exact ⟨_, .notLocated extracted found⟩
      | ok m =>
          by_cases none_ : preserved = []
          · subst none_
            exact ⟨_, .unchanged extracted found⟩
          · have inked := mt (isBlankText_of_extract extracted).1 none_
            have planned : (plan r newSource preserved new).outcome =
                .ok (some (planIn r m preserved)) := by
              rw [plan_eq found, if_neg inked]
            cases valid : (locate r newSource ((planIn r m preserved).apply new)).outcome with
            | error cause =>
                refine ⟨_, .notValid extracted none_ ?_ valid⟩
                exact insert_eq_ok.2 ⟨_, planned, rfl⟩
            | ok m' => exact ⟨_, .inserted extracted none_ planned valid⟩

/-- What is asked of spans and braces while a text is worked on has an answer: a located method is a
span of the text and its braces are partners, as those of its statements are, and a brace that stops
the work has no partner. -/
structure Answered (r : Rules) (source : String) (t : Text) : Prop where
  declaration : ∀ m, (locate r source t).outcome = .ok m →
    ∃ s, Span.ofInts m.start m.stop = .ok s ∧ s.slice t = .ok m.declaration
  body : ∀ m, (locate r source t).outcome = .ok m →
    ∃ s, Brace.inside t m.openBrace = .ok s ∧ s.stop = m.closeBrace ∧ s.slice t = .ok m.body
  openBody : ∀ offset depth, (locate r source t).outcome = .error (.unclosedBrace offset depth) →
    Brace.inside t offset = .error (.unclosed offset depth)
  statements : ∀ m bs, (locate r source t).outcome = .ok m →
    Entity.blocks (Entity.anchor m.param) (r.markers.strip m.body) = .ok bs →
    ∀ b ∈ bs, Brace.matching (r.markers.strip m.body) b.openBrace = .ok b.closeBrace
  openStatement : ∀ m cause, (locate r source t).outcome = .ok m →
    Entity.blocks (Entity.anchor m.param) (r.markers.strip m.body) = .error cause →
    ∃ offset depth, cause = .unclosedBrace offset depth ∧
      Brace.matching (r.markers.strip m.body) offset = .error (.unclosed offset depth)

theorem answered (r : Rules) (source : String) (t : Text) : Answered r source t where
  declaration _ found := (inside_of_locate found).1
  body _ found := (inside_of_locate found).2
  openBody offset depth stops := by
    rcases locate_eq_error stops with e | ⟨_, e⟩ | ⟨_, _, e, stays⟩
    · cases e
    · cases e
    · cases e
      exact stays
  statements m bs _ done := (Entity.matching_of_blocks _ _).1 bs done
  openStatement m cause _ stops := (Entity.matching_of_blocks _ _).2 cause stops

/-- Every merge ends, by the one rule that fits.  Carry-over is put in exactly if there is any, which
is exactly if the text changes; no merge stops while composing, and none because of braces that do
not match in the merged body. -/
theorem run_ends (r : Rules) (oldSource newSource : String) (old new : Text) :
    (∀ result, (run r oldSource newSource old new).2 = result ↔
      Ends r oldSource newSource old new result) ∧
    (∀ preserved plan merged,
      Ends r oldSource newSource old new (.done preserved plan merged) →
        ((MergeResult.done preserved plan merged).changed = true ↔ preserved ≠ []) ∧
          (preserved ≠ [] ↔ merged ≠ new)) ∧
    (∀ preserved stage cause message,
      Ends r oldSource newSource old new (.aborted preserved stage cause message) →
        stage ≠ .compose ∧ cause.kind ≠ "merge_error") ∧
    ∀ source t, Answered r source t := by
  refine ⟨fun result => ⟨?_, run_of_ends⟩, fun preserved plan merged h => ?_,
    fun preserved stage cause message h => ?_, answered r⟩
  · rintro rfl
    obtain ⟨result, h⟩ := exists_ends r oldSource newSource old new
    rwa [run_of_ends h]
  · cases h with
    | unchanged => simp [MergeResult.changed, MergeResult.plan?]
    | inserted extracted some_ planned valid =>
        obtain ⟨m, -, same⟩ := plan_eq_ok.1 planned
        rw [if_neg (mt (isBlankText_of_extract extracted).1 some_), Option.some.injEq] at same
        subst same
        simp [MergeResult.changed, MergeResult.plan?, some_, apply_ne]
  · cases h with
    | notExtracted stops =>
        refine ⟨by decide, ?_⟩
        rcases extract_eq_error.1 stops with stops | ⟨m, -, stops⟩
        · exact kind_of_locate stops
        · obtain ⟨_, _, rfl, -⟩ := (Entity.matching_of_blocks _ _).2 cause stops
          simp [Failure.kind]
    | notLocated extracted stops => exact ⟨by decide, kind_of_locate stops⟩
    | notValid extracted some_ composed stops => exact ⟨by decide, kind_of_locate stops⟩

theorem abortMessage_ne (r : Rules) (source : String) (cause : Failure) :
    abortMessage r source cause ≠ "" := by
  unfold abortMessage
  intro empty
  have letters := congrArg String.length empty
  simp only [String.length_append] at letters
  have front : "Cannot safely merge ".length = 20 := rfl
  have none_ : "".length = 0 := rfl
  omega

/-- A report is of one piece.  A merge that succeeds has a merged text and no error; one that is aborted
has an error and its stage, and neither a merged text nor a plan. -/
theorem report_of_run (r : Rules) (oldSource newSource : String) (old new : Text) :
    let result := (run r oldSource newSource old new).2
    if result.success = true then
      result.stage = "done" ∧ result.merged?.isSome = true ∧
        result.failedStage = "" ∧ result.errorKind = "" ∧ result.error = ""
    else
      result.stage = "aborted" ∧ result.merged? = none ∧ result.changed = false ∧
        result.failedStage ≠ "" ∧ result.errorKind ≠ "" ∧ result.error ≠ "" := by
  obtain ⟨result, ends⟩ := exists_ends r oldSource newSource old new
  have kind_ne (cause : Failure) : cause.kind ≠ "" := by
    cases cause <;> simp [Failure.kind]
  have failedStage_ne (preserved : Text) (stage : Stage) (cause : Failure) (source : String) :
      (MergeResult.aborted preserved stage cause (abortMessage r source cause)).failedStage ≠ "" := by
    cases stage <;> simp [MergeResult.failedStage, Stage.name]
  rw [run_of_ends ends]
  cases ends with
  | notExtracted | notLocated | notValid =>
      exact ⟨rfl, rfl, rfl, failedStage_ne _ _ _ _, kind_ne _, abortMessage_ne _ _ _⟩
  | unchanged | inserted => exact ⟨rfl, rfl, rfl, rfl, rfl⟩

end Merge

end Regraft
