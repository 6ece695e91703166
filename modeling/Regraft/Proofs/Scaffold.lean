import Regraft.Proofs.Insertion
import Regraft.Proofs.Seam

/-!
# Regraft.Proofs.Scaffold -- generated texts

A generated text is empty when nothing of it would be taken for hand-written code (`EmptyScaffold`),
and clean when that does not hang on a receiver that stands apart from its call (`CleanScaffold`).  The
body of a clean one is entity statements, forwarding calls and white space only, so the place
before its first forwarding call is a seam, and so is its end (`CleanScaffold.seam_call`,
`CleanScaffold.seam_end`).
-/

namespace Regraft.CarryOver

set_option autoImplicit false

open Text Reader Rules Entity

/-- A generated text, with its method, from which nothing is carried over. -/
structure EmptyScaffold (r : Rules) (new : Text) (m : Method) : Prop where
  located : (locate r "" new).outcome = .ok m
  plain : plainBlanks m.body = true
  noOpening : ¬ r.markers.opening <:+: m.body
  noLead : leadsLine r.markers.lead m.body = false
  empty : (extract r "" new).outcome = .ok []
  /-- The first forwarding call does not stand in an entity statement. -/
  outside : ∀ start call bs, r.firstCall? m.param m.body = some (start, call) →
    blocks (anchor m.param) m.body = .ok bs →
    covered (bs.map Block.range) (start + (indentation call).length) = false

/-- An empty scaffold whose first forwarding call has its receiver, if any, with it. -/
structure CleanScaffold (r : Rules) (new : Text) (m : Method) : Prop
    extends EmptyScaffold r new m where
  /-- What the entity statements leave in front of that call does not end with a receiver. -/
  alone : ∀ start call bs, r.firstCall? m.param m.body = some (start, call) →
    blocks (anchor m.param) m.body = .ok bs →
    ¬ receiverWord <:+ solid (Entity.outside (bs.map Block.range) 0
      (m.body.take (start + (indentation call).length)))

/-! ## Names -/

variable {r : Rules} {param : Text}

theorem angle_mem_anchor (param : Text) : '<' ∈ anchor param :=
  List.mem_append_right _ (by decide)

theorem semicolon_not_mem_anchor (words : ∀ c ∈ param, isWord c = true) : ';' ∉ anchor param := by
  rw [anchor, List.mem_append, not_or]
  exact ⟨not_mem_words (Or.inl rfl) words, by decide⟩

theorem closeBrace_not_mem_anchor (words : ∀ c ∈ param, isWord c = true) : '}' ∉ anchor param := by
  rw [anchor, List.mem_append, not_or]
  exact ⟨not_mem_words (Or.inr (Or.inl rfl)) words, by decide⟩

theorem closeParen_not_mem_anchor (words : ∀ c ∈ param, isWord c = true) : ')' ∉ anchor param := by
  rw [anchor, List.mem_append, not_or]
  refine ⟨fun m => ?_, by decide⟩
  have := words _ m
  revert this
  decide

/-! ## What a clean scaffold is made of -/

namespace CleanScaffold

variable {new : Text} {m : Method}

/-- A clean scaffold is stripped down to forwarding calls and white space. -/
theorem stripped (h : CleanScaffold r new m) (ord : r.markers.Ordinary) :
    (∀ seg ∈ segments (anchor m.param) m.body, IsShut seg) ∧
      CallText r m.param (tidy (statementCount (segments (anchor m.param) m.body))
        (removeFrom 0 (segments (anchor m.param) m.body))) := by
  have unmarked : r.markers.strip m.body = m.body := by
    refine MarkerPair.strip_of_stripOnce ?_
    rw [MarkerPair.stripOnce, MarkerPair.removeRegions_of_no_opening h.noOpening]
    exact MarkerPair.removeLeadLines_of_none ord.lead h.noLead
  have done := h.empty
  rw [extract_eq h.located] at done
  obtain ⟨bare, stripped, left⟩ := ofMethod_eq done
  rw [unmarked] at stripped
  cases closed : failureFrom? 0 (segments (anchor m.param) m.body) with
  | some failure =>
      rw [strip] at stripped
      simp [closed] at stripped
  | none =>
      rw [strip_eq closed, Except.ok.injEq] at stripped
      refine ⟨failureFrom?_eq_none.1 closed, ?_⟩
      rw [stripped]
      refine CallText.of_leftFrom none ?_
      rw [← remove_eq_leftFrom, ← removeCalls, ← solid_eq_nil, ← solid_dropBlankLines,
        ← solid_trimEnd, ← left]
      rfl

theorem blocks_eq (h : CleanScaffold r new m) (ord : r.markers.Ordinary) :
    blocks (anchor m.param) m.body = .ok (blocksFrom 0 (segments (anchor m.param) m.body)) := by
  rw [blocks]
  simp only [failureFrom?_eq_none.2 (h.stripped ord).1]

theorem onlyStatements (h : CleanScaffold r new m) (ord : r.markers.Ordinary)
    (names : r.CallNames m.param) : OnlyStatements (segments (anchor m.param) m.body) := by
  obtain ⟨closed, calls⟩ := h.stripped ord
  have inked := inked_anchor names.param
  refine (scan_segments inked m.body).onlyStatements closed isCaseless_angle
    (angle_mem_anchor m.param) fun member => ?_
  have ink : '<' ∈ solid (betweenOf (segments (anchor m.param) m.body)) :=
    mem_solid.2 ⟨member, by decide⟩
  rw [← @solid_removeFrom 0 _ (by rw [List.take_zero]; rfl), ← solid_tidy] at ink
  exact calls.not_mem_foreign names (Or.inr (Or.inr rfl)) (by decide) (mem_solid.1 ink).1

/-- A cut of the body outside its statements. -/
theorem cut_body (h : CleanScaffold r new m) (ord : r.markers.Ordinary)
    (names : r.CallNames m.param) {above gap below : Text} (parts : m.body = above ++ gap ++ below)
    (blank : isBlankText gap = true)
    (apart : ∀ b ∈ blocksFrom 0 (segments (anchor m.param) m.body),
      (above ++ gap).length ≤ b.anchorStart ∨ b.stop ≤ (above ++ gap).length) :
    ∃ init u tail, segments (anchor m.param) m.body = init ++ prependFirst u tail ∧
      Scan (anchor m.param) above (init ++ [.rest u]) ∧
      Scan (anchor m.param) (gap ++ below) tail ∧ (∀ seg ∈ init, IsFirm seg) ∧
      ∀ seg ∈ tail, IsShut seg := by
  have inked := inked_anchor names.param
  have scan := scan_segments inked m.body
  have text := segments_text (anchor m.param) m.body
  have apart' : ∀ b ∈ blocksFrom 0 (segments (anchor m.param) m.body),
      0 + above.length ≤ b.anchorStart ∨ b.stop ≤ 0 + above.length := fun b member =>
    apart_of_blank (fun before s => scan.sound) (text.trans parts) blank member (apart b member)
  obtain ⟨init, u, tail, e, above_, below_⟩ := scan.split inked (h.onlyStatements ord names)
    (parts.trans (List.append_assoc ..)) apart'
  have closed := (h.stripped ord).1
  rw [e, List.forall_mem_append, forall_prependFirst isShut_prepend] at closed
  refine ⟨init, u, tail, e, above_, below_, fun seg member => ?_, closed.2⟩
  have inAll : seg ∈ segments (anchor m.param) m.body := by
    rw [e]
    exact List.mem_append_left _ member
  rcases h.onlyStatements ord names seg inAll with ⟨before, s, rfl⟩ | ⟨t, rfl⟩
  · exact (scan.sound inAll).firm inked before
  · exact absurd rfl (above_.not_rest _ member t)

/-- The solid characters that the statements leave above a cut, whatever white space it lies in. -/
theorem solid_above {above gap below : Text} {init tail : List Segment} {u : Text}
    (inked : Inked (anchor param)) (blank : isBlankText gap = true)
    (scan : Scan (anchor param) above (init ++ [.rest u]))
    (e : segments (anchor param) (above ++ gap ++ below) = init ++ prependFirst u tail) :
    solid (Entity.outside
        ((blocksFrom 0 (segments (anchor param) (above ++ gap ++ below))).map Block.range) 0
        ((above ++ gap ++ below).take (above ++ gap).length)) =
      solid (betweenOf (init ++ [.rest u])) := by
  have text : textOf (init ++ [.rest u]) = above := scan.text inked
  have whole := outside_blocksFrom 0 (init ++ [Segment.rest u])
  rw [text] at whole
  rw [List.take_left, outside_append, solid_append, solid_eq_nil.2 (isBlankText_outside blank),
    List.append_nil, ← whole, e]
  refine congrArg solid (outside_congr fun i _ high => ?_)
  have length : i < 0 + (textOf init).length + u.length := by
    rw [← text, textOf_append, List.length_append] at high
    simp only [textOf_cons, textOf_nil, Segment.text, List.append_nil] at high
    omega
  rw [blocksFrom_append, blocksFrom_append, blocksFrom_prependFirst, List.map_append,
    List.map_append, covered_append, covered_append, not_covered_below length, Bool.or_false]
  simp [blocksFrom]

/-- A call, behind indentation, does not start with a line end. -/
theorem not_lineEnd_call (names : r.CallNames param) {line call : Text}
    (hi : ∀ c ∈ line, isIndent c = true) (reads : r.IsCall param call) (t e : Text)
    (he : IsLineEnd e) : ¬ e <+: line ++ call ++ t := by
  rintro ⟨rest, same⟩
  obtain ⟨c, more, rfl, inked⟩ := reads.starts_inked names
  cases e with
  | nil => rcases he with he | he <;> cases he
  | cons d e =>
      cases line with
      | nil =>
          obtain ⟨rfl, -⟩ := List.cons.inj same
          exact not_mem_of_isBlankText (isBlankText_of_isLineEnd he) inked List.mem_cons_self
      | cons b line =>
          obtain ⟨rfl, -⟩ := List.cons.inj same
          have := isLineEnd_head (t := []) he d rfl
          rw [hi d List.mem_cons_self] at this
          cases this

/-- No statement ends with a call. -/
theorem not_mayEnd_call (names : r.CallNames param) {gap call : Text}
    (blank : isBlankText gap = true) (reads : r.IsCall param call) (t : Text) :
    ¬ MayEnd (gap ++ (call ++ t)) := by
  obtain ⟨c, more, rfl, word⟩ := reads.starts names
  rw [MayEnd, List.cons_append, trimStart_gap blank (isBlank_of_isWord word), List.head?_cons,
    Option.some.injEq, Option.some.injEq]
  rintro (rfl | rfl) <;> revert word <;> decide

/-- Where a body goes on with a call, the call stands before the next anchor and stays. -/
theorem headed_call (names : r.CallNames param) {line call back : Text} {tail : List Segment}
    (hi : ∀ c ∈ line, isIndent c = true) (reads : r.IsCall param call)
    (scan : Scan (anchor param) (line ++ call ++ back) tail) :
    Headed tail ∧ ∃ t, removeFrom 0 tail = line ++ call ++ t := by
  obtain ⟨front, callParts, foreign⟩ := reads.ends names
  have lastCall : (line ++ call).getLast? = some ';' := by
    rw [callParts, List.getLast?_append, List.getLast?_append]
    rfl
  have noAngle : '<' ∉ line ++ call := by
    rw [List.mem_append, not_or, callParts, List.mem_append, not_or]
    exact ⟨not_mem_blank (Or.inr (Or.inr rfl)) (isBlankText_of_all_isIndent hi),
      foreign _ (Or.inr (Or.inr rfl)), by decide⟩
  obtain ⟨tail', some_, rfl⟩ := scan.behind lastCall isCaseless_semicolon
    (semicolon_not_mem_anchor names.param) isCaseless_angle (angle_mem_anchor _) noAngle
  refine ⟨headed_prependFirst ?_ _, removeFrom_starts lastCall (by decide) some_⟩
  rw [isBlankText_append, callParts, isBlankText_append]
  simp [isBlankText, isBlank]

/-- Statements above a call take nothing of its line. -/
theorem frontSkip_le_of_call (names : r.CallNames param) {above line call back u : Text}
    {init : List Segment} (firm : ∀ seg ∈ init, IsFirm seg) (text : textOf init ++ u = above)
    (reads : r.IsCall param call) (atLine : AtLineStart above ∨ line = []) :
    frontSkip init u (line ++ call ++ back) ≤ u.length := by
  rcases atLine with atLine | rfl
  · exact frontSkip_le_of_feed (feed_of_atLineStart firm text atLine) _
  · obtain ⟨c, more, rfl, ink⟩ := reads.starts_inked names
    exact frontSkip_le_of_inked init u ink _

/-- The place before the first forwarding call, with or without its indentation, is a seam. -/
theorem seam_call (h : CleanScaffold r new m) (ord : r.markers.Ordinary)
    (names : r.CallNames m.param) {above line call back found : Text} {start : Nat}
    (first : r.firstCall? m.param m.body = some (start, found))
    (length : (above ++ line).length = start + (indentation found).length)
    (parts : m.body = above ++ line ++ (call ++ back)) (hi : ∀ c ∈ line, isIndent c = true)
    (reads : r.IsCall m.param call) (atLine : AtLineStart above ∨ line = [])
    (plain : plainBlanks above = true) :
    ∃ init u tail, Seam r m.param above (line ++ (call ++ back)) init u tail
      (statementCount (segments (anchor m.param) m.body)) := by
  have inked := inked_anchor names.param
  have blank := isBlankText_of_all_isIndent hi
  have outside := h.outside start found _ first (h.blocks_eq ord)
  have alone := h.alone start found _ first (h.blocks_eq ord)
  rw [← length] at outside alone
  obtain ⟨init, u, tail, e, scanAbove, scanBelow, firm, closed⟩ :=
    h.cut_body ord names parts blank fun b => apart_of_not_covered outside
  rw [← List.append_assoc line] at scanBelow ⊢
  obtain ⟨headed, t, starts⟩ := headed_call names hi reads scanBelow
  have bound : frontSkip init u (textOf tail) ≤ u.length := by
    rw [scanBelow.text inked]
    exact frontSkip_le_of_call names firm (scanAbove.text_rest inked) reads atLine
  -- the stripped body comes apart in the same place
  obtain ⟨-, calls⟩ := h.stripped ord
  rw [e, removeFrom_frontOf scanBelow.ne_nil headed bound, starts,
    tidy_append fun e he => not_lineEnd_call names hi reads t e he] at calls
  have word (n : Nat) : solid (tidy n (line ++ call ++ t)) = solid call ++ solid t := by
    rw [solid_tidy, solid_append, solid_append, solid_eq_nil.2 blank, List.nil_append]
  have alone' (n : Nat) : ¬ receiverWord <:+ solid (tidy n (frontOf init u (textOf tail))) := by
    rw [parts] at alone e
    rwa [solid_tidy, solid_frontOf firm, ← solid_above inked blank scanAbove e]
  obtain ⟨callsAbove, callsBelow⟩ :=
    calls.split names (calls.ends_before names reads (word _) (alone' _))
  rw [e]
  refine ⟨init, u, tail, scanAbove, scanBelow, firm, closed, headed, ?_, plain,
    fun next => ?_, fun gap blankGap => ?_, fun gap blankGap => ?_⟩
  · rw [statementCount_eq_zero, List.forall_mem_append, forall_prependFirst isQuiet_prepend]
  · rw [callText_tidy_trimEnd names, trimEnd_frontOf firm u next (textOf tail),
      ← callText_tidy_trimEnd names]
    exact callsAbove
  · rw [starts, tidy_append fun e he => not_lineEnd_call names hi reads t e he]
    exact (CallText.of_blank (isBlankText_tidy blankGap)).append callsBelow
  · rw [List.append_assoc, ← List.append_assoc]
    exact not_mayEnd_call names (by rw [isBlankText_append, blankGap, blank]; rfl) reads back

/-- The end of the body is a seam, whatever white space follows it. -/
theorem seam_end (h : CleanScaffold r new m) (ord : r.markers.Ordinary)
    (names : r.CallNames m.param) {above tail below : Text} (parts : m.body = above ++ tail)
    (blankTail : isBlankText tail = true) (blankBelow : isBlankText below = true)
    (plain : plainBlanks above = true) :
    ∃ init u, Seam r m.param above below init u [.rest below]
      (statementCount (segments (anchor m.param) m.body)) := by
  have inked := inked_anchor names.param
  have parts' : m.body = above ++ tail ++ [] := by rw [parts, List.append_nil]
  have apart : ∀ b ∈ blocksFrom 0 (segments (anchor m.param) m.body),
      (above ++ tail).length ≤ b.anchorStart ∨ b.stop ≤ (above ++ tail).length := by
    intro b member
    have bound := (mem_blocksFrom member).2.2
    rw [segments_text, parts] at bound
    exact Or.inr (by omega)
  obtain ⟨init, u, segs, e, scanAbove, scanTail, firm, -⟩ :=
    h.cut_body ord names parts' blankTail apart
  rw [List.append_nil] at scanTail
  obtain rfl : segs = [.rest tail] := by
    rw [← scanTail.segments_eq inked]
    exact (Scan.rest (cutAnchor?_of_blank inked blankTail)).segments_eq inked
  obtain ⟨-, calls⟩ := h.stripped ord
  have dropped {t : Text} (blank : isBlankText t = true) (k : Nat) : isBlankText (t.drop k) = true :=
    isBlankText_iff.2 fun c member => isBlankText_iff.1 blank c (List.mem_of_mem_drop member)
  have stays : trimEnd (removeFrom 0 (init ++ prependFirst u [Segment.rest tail])) =
      trimEnd (frontOf init u tail) := by
    have text : textOf (prependFirst u [Segment.rest tail]) = u ++ tail := by
      simp [prependFirst, Segment.prepend, Segment.text]
    have last (k : Nat) : removeFrom k (prependFirst u [Segment.rest tail]) =
        (u ++ tail).drop k := by
      rw [prependFirst, Segment.prepend, removeFrom_other (by simp), removeFrom, List.append_nil,
        Segment.text]
    rw [removeFrom_append, text, last, List.drop_append, ← List.append_assoc,
      trimEnd_append_blank _ (dropped blankTail _), frontOf]
  rw [callText_tidy_trimEnd names, e, stays] at calls
  rw [e]
  refine ⟨init, u, scanAbove, .rest (cutAnchor?_of_blank inked blankBelow), firm, ?_, trivial, ?_,
    plain, fun next => ?_,
    fun gap blankGap => ?_, fun gap blankGap => ?_⟩
  · simp [IsShut]
  · rw [statementCount_eq_zero, List.forall_mem_append, forall_prependFirst isQuiet_prepend]
    simp [IsQuiet]
  · rw [callText_tidy_trimEnd names, trimEnd_frontOf firm u next tail]
    exact calls
  · refine CallText.of_blank (isBlankText_tidy ?_)
    rw [removeFrom_other (by simp), isBlankText_append, blankGap, isBlankText_append, Segment.text,
      dropped blankBelow]
    rfl
  · exact not_mayEnd_of_blank (by rw [isBlankText_append, blankGap, blankBelow]; rfl)

end CleanScaffold

end Regraft.CarryOver
