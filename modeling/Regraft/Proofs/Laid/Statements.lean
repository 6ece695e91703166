import Regraft.Proofs.Laid.Basic

/-!
# Regraft.Proofs.Laid.Statements -- entity statements in a body that is laid out in parts

The scan reads such a body part by part: what it makes of the whole is what it makes of the parts one
after the other (`segments_spaced`, `segments_statement`, `Passed.segments_eq`).  Removal then takes the
statements and some of the white space beside them (`statement_goes`), and the other parts stay as they
are (`passed_stays`, `Laid.removeFrom`), also when the white space is tidied up (`Laid.tidy`).

How much white space goes depends on the cursor, not on the line alone.  The induction of
`Laid.removeFrom` is on the parts, for any text `pre` that stands before them in the first segment and
any number of characters of it that are gone.
-/

namespace Regraft

set_option autoImplicit false

open Text Reader

namespace Entity

variable {token : Text}

/-! ## Scanning part by part -/

/-- White space in front goes into the first segment. -/
theorem segments_spaced (inked : Inked token) {g : Text} (blank : isBlankText g = true) (t : Text) :
    segments token (g ++ t) = prependFirst g (segments token t) := by
  have unsplit : Unsplit (Alike token) g := unsplit_of_blank blank fun t alike c head =>
    alike.not_blank inked.not_blank c (List.mem_of_mem_head? head)
  have moved := cutAnchor?_unsplit inked.ne_nil (cutAnchor?_of_blank inked blank) unsplit t
  exact ((scan_segments inked t).behind_text moved).segments_eq inked

/-- A statement in front is the first segment. -/
theorem segments_statement {s : Statement} (shaped : s.Shaped token) (rest : Text) :
    segments token (s.text ++ rest) = .statement [] s :: segments token rest := by
  have cut : cutAnchor? token ([] ++ s.text ++ rest) =
      some ([], s.anchor, s.head ++ '{' :: (s.inner ++ '}' :: (s.tail ++ rest))) :=
    cutAnchor?_eq_some.2 ⟨by simp [Statement.text], shaped.anchor, fun _ _ _ _ _ => Nat.zero_le _⟩
  exact shaped.segments_eq cut

/-- Where nothing follows the last segment that ended, the text ends where that one did. -/
theorem Scan.last_of_rest {t : Text} {segs : List Segment} (h : Scan token t segs)
    (settled : ∀ before taken, .noLambda before taken ∈ segs →
      settles 0 (taken.drop token.length) = true)
    (last : segs.getLast? = some (.rest [])) :
    t = [] ∨ ∃ c, t.getLast? = some c ∧ isWord c = false := by
  -- the end of a segment, and the end of the text behind it
  have behind {front more : Text} {c : Char} (ends : front.getLast? = some c) (apart : isWord c = false)
      (later : more = [] ∨ ∃ d, more.getLast? = some d ∧ isWord d = false) :
      ∃ d, (front ++ more).getLast? = some d ∧ isWord d = false := by
    rcases later with rfl | ⟨d, last, apart'⟩
    · exact ⟨c, by rw [List.append_nil, ends], apart⟩
    · exact ⟨d, by rw [List.getLast?_append, last]; rfl, apart'⟩
  have later {seg : Segment} {more : List Segment} (some_ : more ≠ [])
      (last : (seg :: more).getLast? = some (.rest [])) : more.getLast? = some (.rest []) := by
    obtain ⟨d, more, rfl⟩ := List.exists_cons_of_ne_nil some_
    rwa [List.getLast?_cons_cons] at last
  induction h with
  | rest cut =>
      obtain rfl : _ = ([] : Text) := by simpa using last
      exact Or.inl rfl
  | @noLambda t before found after head more segs cut opens scan ih =>
      right
      have ends := settled _ _ List.mem_cons_self
      rw [(cutAnchor?_alike cut).length_eq, List.drop_left] at ends
      rcases seek_eq_none.1 opens with ⟨⟨inside, isHead⟩, rfl, -⟩ | ⟨front, c, -, stop, rfl, rfl⟩
      · rw [settles_of_headDepth isHead] at ends
        cases ends
      · have apart : isWord c = false := by
          rcases stop with rfl | rfl <;> decide
        have rest_ := ih (fun b s m => settled b s (List.mem_cons_of_mem _ m))
          (later scan.ne_nil last)
        rw [cutAnchor?_append cut, ← List.append_assoc]
        exact behind (c := c) (by rw [← List.append_assoc, List.getLast?_concat]) apart rest_
  | unclosed => simp at last
  | @openEnded t before found after head block inner next depth segs cut opens closes ends scan ih =>
      right
      have rest_ := ih (fun b s m => settled b s (List.mem_cons_of_mem _ m))
        (later scan.ne_nil last)
      have text : t = before ++ found ++ head ++ '{' :: inner ++ ['}'] ++ next := by
        rw [block_text cut opens closes]
        simp
      rw [text]
      exact behind (c := '}') (List.getLast?_concat ..) (by decide) rest_
  | @statement t before found after head block inner tail more depth segs cut opens closes ends scan
      ih =>
      right
      have rest_ := ih (fun b s m => settled b s (List.mem_cons_of_mem _ m))
        (later scan.ne_nil last)
      obtain ⟨tail', same, ends', -⟩ := afterEnd?_swap ends
      obtain rfl : tail = tail' := List.append_cancel_right same
      rw [statement_text cut opens closes]
      refine behind (c := ';') ?_ (by decide) rest_
      rw [Statement.text, List.getLast?_append, List.getLast?_append, List.getLast?_cons,
        List.getLast?_append, List.getLast?_cons, ends']
      rfl

/-- Text that the scan passes over is read alike in front of what ends no statement. -/
theorem Passed.segments_eq (inked : Inked token) {t rest : Text} (passed : Passed token t)
    (goesOn : ¬ MayEnd rest) :
    ∃ init u, (∀ seg ∈ init, IsIdle seg) ∧ textOf init ++ u = t ∧
      (u = [] → ∃ c, t.getLast? = some c ∧ isWord c = false) ∧
      segments token (t ++ rest) = init ++ prependFirst u (segments token rest) := by
  have idle := blocks_eq_nil.1 passed.noBlock
  have scan := scan_segments inked t
  obtain ⟨init, u, e⟩ := scan.ends_rest fun seg m => (idle seg m).2
  rw [e] at scan idle
  have idle' : ∀ seg ∈ init, IsIdle seg := fun seg m => idle seg (List.mem_append_left _ m)
  have settled : ∀ seg ∈ init, seg.Settled token rest := by
    intro seg m
    cases seg with
    | statement before s => exact absurd rfl ((idle' _ m).1 before s)
    | noLambda before taken =>
        exact passed.settled before taken (by rw [e]; exact List.mem_append_left _ m)
    | openEnded before taken => exact goesOn
    | unclosed => trivial
    | rest => trivial
  refine ⟨init, u, idle', scan.text_rest inked, ?_, ?_⟩
  · rintro rfl
    refine (scan.last_of_rest (fun before taken m => ?_) List.getLast?_concat).resolve_left ?_
    · exact passed.settled before taken (e ▸ m)
    · rintro rfl
      obtain ⟨c, rest', none_, -⟩ := passed.starts
      cases none_
  · exact (scan.append_unsplit inked settled passed.unsplit (scan_segments inked rest)).segments_eq
      inked

end Entity

namespace CarryOver

open Rules Entity

variable {r : Rules} {param : Text} {kinds : List Kind} {word : Bool} {t : Text}

theorem Laid.not_mayEnd (names : r.CallNames param) (h : Laid r param kinds word t)
    (region : .region ∉ kinds) (comment : .comment ∉ kinds) : ¬ MayEnd t := by
  cases h with
  | blank spacing => exact not_mayEnd_of_blank spacing.blank
  | part mem gap fits _ =>
      obtain ⟨c, more, rfl, ink, paren, semicolon⟩ := fits.starts names
        (ne_of_mem_of_not_mem mem region) (ne_of_mem_of_not_mem mem comment)
      rw [MayEnd, List.cons_append, trimStart_gap gap.spacing.blank ink, List.head?_cons]
      simp [paren, semicolon]

/-- What holds of the segments of such a body, whatever stands before them. -/
theorem Laid.forall_segments (names : r.CallNames param) (h : Laid r param kinds word t)
    (region : .region ∉ kinds) (comment : .comment ∉ kinds) {p : Segment → Prop}
    (prepend : ∀ g seg, p (seg.prepend g) ↔ p seg) (idle : ∀ seg, IsIdle seg → p seg)
    (statement : .statement ∈ kinds → ∀ s, p (.statement [] s)) :
    ∀ seg ∈ segments (anchor param) t, p seg := by
  have inked := inked_anchor names.param
  induction h with
  | @blank _ g spacing =>
      have alone := (Scan.rest (cutAnchor?_of_blank inked spacing.blank)).segments_eq inked
      rw [alone, List.forall_mem_singleton]
      exact idle _ (isIdle_rest g)
  | @part word k g t rest mem gap fits later ih =>
      rw [segments_spaced inked gap.spacing.blank, forall_prependFirst prepend]
      by_cases isStatement : k = .statement
      · subst isStatement
        obtain ⟨-, s, shaped, rfl⟩ := fits
        rw [segments_statement shaped, List.forall_mem_cons]
        exact ⟨statement mem s, ih⟩
      · have passed := fits.passed names (ne_of_mem_of_not_mem mem region)
          (ne_of_mem_of_not_mem mem comment) isStatement
        obtain ⟨init, u, idle', -, -, e⟩ :=
          passed.segments_eq inked (later.not_mayEnd names region comment)
        rw [e, List.forall_mem_append, forall_prependFirst prepend]
        exact ⟨fun seg m => idle seg (idle' seg m), ih⟩

theorem Laid.shut (names : r.CallNames param) (h : Laid r param kinds word t)
    (region : .region ∉ kinds) (comment : .comment ∉ kinds) :
    ∀ seg ∈ segments (anchor param) t, IsShut seg :=
  h.forall_segments names region comment isShut_prepend (fun _ idle => idle.2)
    fun _ _ => by simp [IsShut]

theorem Laid.idle (names : r.CallNames param) (h : Laid r param kinds word t)
    (region : .region ∉ kinds) (comment : .comment ∉ kinds) (statement : .statement ∉ kinds) :
    ∀ seg ∈ segments (anchor param) t, IsIdle seg :=
  h.forall_segments names region comment isIdle_prepend (fun _ idle => idle)
    fun some_ => absurd some_ statement

/-! ## Removal -/

/-- Where removal goes on in front of a text: behind ink, or with nothing kept from before, and then
with the first characters of the text gone if they end a line. -/
def Resumes (skip : Nat) (pre : Text) (word : Bool) (t : Text) : Prop :=
  (∃ c, (pre.drop skip).getLast? = some c ∧ isBlank c = false ∧ wordAt (some c) = word) ∨
    pre = [] ∧ word = false ∧ (skip = 0 ∨ lineTail? t = some skip)

namespace Resumes

variable {skip : Nat} {pre g : Text}

theorem le_length {c : Char} (last : (pre.drop skip).getLast? = some c) : skip ≤ pre.length := by
  by_contra beyond
  rw [List.drop_eq_nil_of_le (by omega)] at last
  cases last

/-- What is left of a gap is one. -/
theorem gap {k : Kind} (resumes : Resumes skip pre word t) (gap : Gap k word g) (comment : k ≠ .comment) :
    ∃ left, (pre ++ g).drop skip = pre.drop skip ++ left ∧ Gap k word left := by
  rcases resumes with ⟨c, last, -, -⟩ | ⟨rfl, rfl, -⟩
  · exact ⟨g, List.drop_append_of_le_length (le_length last), gap⟩
  · exact ⟨g.drop skip, by simp, gap.spacing.drop skip, fun _ _ => rfl, fun e => absurd e comment⟩

/-- What is gone lies in the gap. -/
theorem bound {c : Char} {rest : Text} (resumes : Resumes skip pre word (g ++ c :: rest))
    (inked : isBlank c = false) : skip ≤ (pre ++ g).length := by
  rcases resumes with ⟨d, last, -, -⟩ | ⟨rfl, -, rfl | tail⟩
  · have := le_length last
    rw [List.length_append]
    omega
  · exact Nat.zero_le _
  · by_contra beyond
    have blank := (lineTail?_spec tail).2
    rw [List.nil_append] at beyond
    obtain ⟨n, rfl⟩ : ∃ n, skip = g.length + (n + 1) := ⟨skip - g.length - 1, by omega⟩
    rw [List.take_length_add_append, List.take_succ_cons, isBlankText_append, isBlankText_cons,
      inked] at blank
    simp at blank

/-- Where the line of a statement goes, what stays of the gap before it is lines. -/
theorem lines {whole last : Text} (resumes : Resumes skip pre word t) (spacing : Spacing g)
    (parts : pre.drop skip ++ g = whole ++ last) (blank : isBlankText last = true)
    (start : AtLineStart whole) :
    ∃ left, whole = pre.drop skip ++ left ∧ Spacing left ∧ (left = [] → word = false) := by
  rcases resumes with ⟨c, ends, inked, -⟩ | ⟨rfl, rfl, -⟩
  · obtain ⟨left, rfl, rfl⟩ : ∃ left, whole = pre.drop skip ++ left ∧ g = left ++ last := by
      rcases List.append_eq_append_iff.1 parts with inGap | ⟨x, e, rfl⟩
      · exact inGap
      · -- the ink before the gap is not on the line of the statement
        rcases List.eq_nil_or_concat x with rfl | ⟨x, d, rfl⟩
        · exact ⟨[], by simp [e], rfl⟩
        · rw [e, List.concat_eq_append, ← List.append_assoc, List.getLast?_concat] at ends
          obtain rfl := Option.some.inj ends
          exact absurd (by simp) (not_mem_of_isBlankText blank inked)
    refine ⟨left, rfl, spacing.lines start.right, ?_⟩
    rintro rfl
    rw [List.append_nil] at start
    rcases start with none_ | feed
    · rw [none_] at ends
      cases ends
    · rw [feed] at ends
      obtain rfl := Option.some.inj ends
      cases inked
  · rw [List.drop_nil, List.nil_append] at parts
    exact ⟨whole, by simp, (parts ▸ spacing).lines start, fun _ => rfl⟩

end Resumes

/-- Removal keeps text that the scan passes over and goes on behind it. -/
theorem passed_stays {token pre rest : Text} {skip : Nat} (inked : Inked token)
    (passed : Passed token t) (goesOn : ¬ MayEnd rest) (bound : skip ≤ pre.length) :
    ∃ kept skip' pre', Resumes skip' pre' (wordAt t.getLast?) rest ∧
      kept ++ pre'.drop skip' = pre.drop skip ++ t ∧
      removeFrom skip (prependFirst pre (segments token (t ++ rest))) =
        kept ++ removeFrom skip' (prependFirst pre' (segments token rest)) := by
  obtain ⟨d, last, ink⟩ := passed.last_inked
  obtain ⟨init, u, idle, rfl, ends, scanned⟩ := passed.segments_eq inked goesOn
  rw [scanned]
  by_cases alone : init = []
  · -- no anchor in it: it stands in front of the next one
    subst alone
    have drop : (pre ++ u).drop skip = pre.drop skip ++ u := List.drop_append_of_le_length bound
    refine ⟨[], skip, pre ++ u, Or.inl ⟨d, ?_, ink, ?_⟩, by simp [drop], ?_⟩
    · rw [drop, List.getLast?_append, ← List.nil_append u, ← textOf_nil, last]
      rfl
    · rw [last]
    · rw [List.nil_append, prependFirst_prependFirst, List.nil_append]
  · rw [removeFrom_copied_behind alone (fun seg m => (idle seg m).1) bound]
    refine ⟨pre.drop skip ++ textOf init, 0, u, ?_, by simp, by simp⟩
    by_cases whole : u = []
    · subst whole
      obtain ⟨c, last', apart⟩ := ends rfl
      refine Or.inr ⟨rfl, ?_, Or.inl rfl⟩
      rw [last']
      exact apart
    · refine Or.inl ⟨d, ?_, ink, by rw [last]⟩
      rw [List.drop_zero, ← last, List.getLast?_append, List.getLast?_eq_some_getLast whole]
      rfl

/-- Removal takes a statement, by itself or with the lines it stands on, and goes on behind it. -/
theorem statement_goes {token pre rest g g' : Text} {skip : Nat} {s : Statement}
    (shaped : s.Shaped token) (resumes : Resumes skip pre word t) (spacing : Spacing g')
    (apart : g' = [] → word = false) (gap : (pre ++ g).drop skip = pre.drop skip ++ g') :
    ∃ left skip', Spacing left ∧ (left = [] → word = false) ∧ Resumes skip' [] false rest ∧
      removeFrom skip (prependFirst (pre ++ g) (segments token (s.text ++ rest))) =
        pre.drop skip ++ left ++ removeFrom skip' (segments token rest) := by
  rw [segments_statement shaped, prependFirst, Segment.prepend, List.append_nil,
    removeFrom_statement, segments_text]
  rcases keptBefore_cases skip (pre ++ g) rest with kept | ⟨whole, last, n, parts, blank, start, tail, kept⟩
  · exact ⟨g', 0, spacing, apart, Or.inr ⟨rfl, rfl, Or.inl rfl⟩, by rw [kept, gap]⟩
  · obtain ⟨left, rfl, spacing', apart'⟩ := resumes.lines spacing (gap.symm.trans parts) blank start
    exact ⟨left, n, spacing', apart', Or.inr ⟨rfl, rfl, Or.inr tail⟩, by rw [kept]⟩

/-- Without its entity statements a body is laid out in the other parts. -/
theorem Laid.removeFrom (names : r.CallNames param) (h : Laid r param (.statement :: kinds) word t)
    (region : .region ∉ kinds) (comment : .comment ∉ kinds) (statement : .statement ∉ kinds)
    {skip : Nat} {pre : Text} (resumes : Resumes skip pre word t) :
    ∃ left, Laid r param kinds word left ∧
      Entity.removeFrom skip (prependFirst pre (segments (anchor param) t)) =
        pre.drop skip ++ left := by
  have inked := inked_anchor names.param
  have region' : .region ∉ Kind.statement :: kinds := by simp [region]
  have comment' : .comment ∉ Kind.statement :: kinds := by simp [comment]
  induction h generalizing skip pre with
  | @blank word g spacing =>
      obtain ⟨left, e, gap⟩ := resumes.gap (k := .code) ⟨spacing, by simp, by simp⟩ (by simp)
      refine ⟨left, .blank gap.spacing, ?_⟩
      rw [(Scan.rest (cutAnchor?_of_blank inked spacing.blank)).segments_eq inked, prependFirst,
        removeFrom_other (by simp [Segment.prepend]), ← e]
      simp [Segment.prepend, Segment.text, Entity.removeFrom]
  | @part word k g t rest mem gap fits later ih =>
      rw [segments_spaced inked gap.spacing.blank, prependFirst_prependFirst]
      obtain ⟨g', e, gap'⟩ := resumes.gap gap (ne_of_mem_of_not_mem mem comment')
      rcases List.mem_cons.1 mem with rfl | mem'
      · obtain ⟨-, s, shaped, rfl⟩ := fits
        have semicolon : wordAt s.text.getLast? = false := by
          rw [shaped.sound.text_last]
          decide
        obtain ⟨lines, skip', spacing, apart, resumes', goes⟩ :=
          statement_goes shaped resumes gap'.spacing (gap'.apart (by simp)) e
        obtain ⟨left, laid, stays⟩ := ih (semicolon ▸ resumes')
        rw [prependFirst_nil, List.drop_nil, List.nil_append] at stays
        exact ⟨lines ++ left, laid.spaced spacing apart, by rw [goes, stays, List.append_assoc]⟩
      · have passed := fits.passed names (ne_of_mem_of_not_mem mem' region)
          (ne_of_mem_of_not_mem mem' comment) (ne_of_mem_of_not_mem mem' statement)
        have bound : skip ≤ (pre ++ g).length := by
          obtain ⟨c, more, rfl, ink, -, -⟩ := passed.starts
          exact resumes.bound ink
        obtain ⟨kept, skip', pre', resumes', same, stays⟩ :=
          passed_stays inked passed (later.not_mayEnd names region' comment') bound
        obtain ⟨left, laid, stays'⟩ := ih resumes'
        refine ⟨g' ++ (t ++ left), .part mem' gap' fits laid, ?_⟩
        rw [stays, stays', ← List.append_assoc, same, e]
        simp

/-! ## The pass -/

/-- Tidying up changes the white space between parts. -/
theorem Laid.tidy (names : r.CallNames param) (h : Laid r param kinds word t)
    (region : .region ∉ kinds) (comment : .comment ∉ kinds) (statement : .statement ∉ kinds) (n : Nat) :
    Laid r param kinds word (tidy n t) := by
  have spaced {g : Text} (spacing : Spacing g) : Spacing (Entity.tidy n g) :=
    ⟨isBlankText_tidy spacing.blank, plainBlanks_tidy spacing.plain⟩
  induction h with
  | blank spacing => exact .blank (spaced spacing)
  | @part word k g t rest mem gap fits _ ih =>
      have comment' := ne_of_mem_of_not_mem mem comment
      have passed := fits.passed names (ne_of_mem_of_not_mem mem region) comment'
        (ne_of_mem_of_not_mem mem statement)
      obtain ⟨c, more, rfl, ink, -, -⟩ := passed.starts
      obtain ⟨d, last, ink'⟩ := passed.last_inked
      have parts : Entity.tidy n (g ++ (c :: more ++ rest)) =
          Entity.tidy n g ++ (c :: more ++ Entity.tidy n rest) := by
        rw [List.cons_append, tidy_append (apart_of_inked ink _), ← List.cons_append,
          tidy_append_of_last last ink', tidy_of_occurrences passed.noLineEnds]
      rw [parts]
      refine .part mem ⟨spaced gap.spacing, fun code none_ => ?_, fun e => absurd e comment'⟩ fits ih
      exact gap.apart code (eq_nil_of_tidy none_)

/-- Stripping takes the entity statements and leaves the other parts. -/
theorem Laid.strip_statements (names : r.CallNames param)
    (h : Laid r param (.statement :: kinds) false t) (region : .region ∉ kinds)
    (comment : .comment ∉ kinds) (statement : .statement ∉ kinds) :
    ∃ bare, Entity.strip (anchor param) t = .ok bare ∧ Laid r param kinds false bare := by
  obtain ⟨left, laid, stays⟩ := h.removeFrom names region comment statement
    (Or.inr ⟨rfl, rfl, Or.inl rfl⟩ : Resumes 0 [] false t)
  rw [prependFirst_nil, List.drop_zero, List.nil_append] at stays
  have shut := h.shut names (by simp [region]) (by simp [comment])
  refine ⟨_, strip_eq (failureFrom?_eq_none.2 shut), ?_⟩
  rw [stays]
  exact laid.tidy names region comment statement _

end CarryOver

end Regraft
