import Regraft.Proofs.CallText
import Regraft.Proofs.Entity.Splice

/-!
# Regraft.Proofs.Seam -- hand-written code between generated code

A seam is a place in a body with entity statements, forwarding calls and white space on either side,
where what stands on one side does not run on into the other (`Seam`).  Carry-over that is plain
(`PlainCarryOver`), has no runs of line ends where these are collapsed and stands in a seam on lines
of its own is what is left of the body, character for character (`Seam.leftover`).
-/

namespace Regraft.CarryOver

set_option autoImplicit false

open Text Reader Rules Entity

/-- Carry-over that extraction leaves alone wherever it stands, up to runs of line ends. -/
structure PlainCarryOver (r : Rules) (param preserved : Text) : Prop where
  balanced : Brace.isBalanced preserved = true
  last : preserved.getLast? = some ';' ∨ preserved.getLast? = some '}'
  noBlankLine : blankLine preserved = []
  noOpening : ¬ r.markers.opening <:+: preserved
  noLead : leadsLine r.markers.lead preserved = false
  noCall : r.firstCall? param preserved = none
  noBlock : blocks (anchor param) preserved = .ok []
  /-- The statement of an anchor ends in the carry-over, not behind it. -/
  settled : ∀ before taken, .noLambda before taken ∈ segments (anchor param) preserved →
    settles 0 (taken.drop (anchor param).length) = true

/-- Carry-over that extraction leaves alone wherever it stands. -/
structure CleanCarryOver (r : Rules) (param preserved : Text) : Prop
    extends PlainCarryOver r param preserved where
  noLineEnds : occurrences (fun _ => lineEnds) preserved = []

variable {r : Rules} {param : Text}

/-! ## Tidying up beside carry-over -/

namespace PlainCarryOver

variable {preserved : Text}

theorem last_inked (clean : PlainCarryOver r param preserved) :
    ∃ c, preserved.getLast? = some c ∧ isBlank c = false := by
  rcases clean.last with h | h <;> exact ⟨_, h, by decide⟩

/-- Clean carry-over does not start with a line end, whatever follows it. -/
theorem not_lineEnd (clean : PlainCarryOver r param preserved) (t e : Text) (he : IsLineEnd e) :
    ¬ e <+: preserved ++ t := by
  rintro ⟨rest, same⟩
  have none_ {x : Text} (h : preserved = e ++ x) : False := by
    have read : ((), x) ∈ blankLine preserved :=
      mem_blankLine.2 ⟨[], e, by simp, he, by rw [h]; rfl⟩
    rw [clean.noBlankLine] at read
    cases read
  obtain ⟨c, last, inked⟩ := clean.last_inked
  rcases List.append_eq_append_iff.1 same with ⟨x, h, -⟩ | ⟨x, h, -⟩
  · exact none_ h
  · have m : c ∈ e := by
      rw [h]
      exact List.mem_append_left _ (List.mem_of_getLast? last)
    exact not_mem_of_isBlankText (isBlankText_of_isLineEnd he) inked m

/-- White space behind clean carry-over does not make its first line blank. -/
theorem blankLine_append (clean : PlainCarryOver r param preserved) (t : Text) :
    blankLine (preserved ++ t) = [] := by
  obtain ⟨c, last, inked⟩ := clean.last_inked
  exact CarryOver.blankLine_append last inked clean.noBlankLine t

theorem tidy_between (clean : PlainCarryOver r param preserved) {n : Nat}
    (stays : tidy n preserved = preserved) (s t : Text) :
    tidy n (s ++ preserved ++ t) = tidy n s ++ preserved ++ tidy n t := by
  obtain ⟨c, last, inked⟩ := clean.last_inked
  rw [List.append_assoc, tidy_append fun e he => clean.not_lineEnd t e he,
    tidy_append_of_last last inked, stays, List.append_assoc]

end PlainCarryOver

/-- Blank lines, calls and white space around clean carry-over go, and nothing else. -/
theorem leftover_between (names : r.CallNames param) {preserved s t : Text}
    (clean : PlainCarryOver r param preserved) {n : Nat} (stays : tidy n preserved = preserved)
    (before : CallText r param (tidy n s))
    (plain : plainBlanks s = true) (start : AtLineStart s) (behind : CallText r param (tidy n t)) :
    trimEnd (dropBlankLines (r.removeCalls param (tidy n (s ++ preserved ++ t)))) = preserved := by
  obtain ⟨c, last, inked⟩ := clean.last_inked
  obtain ⟨lines, edge, blankLines, -, left⟩ := before.leftFrom_lines names
    (plainBlanks_tidy plain) (atLineStart_tidy start) (show wordAt none = false from rfl)
    (preserved ++ tidy n t)
  have silent := silent_append names (firstCall?_eq_none_iff_silent.1 clean.noCall)
    (unsplit_call names clean.last) clean.last_inked edge (tidy n t)
  have white : isBlankText
      (leftFrom (r.forwardingCall param) (preserved.getLast?.or edge) (tidy n t)) = true :=
    behind.isBlankText_leftFrom names (by
      rw [last]
      show isWord c = false
      rcases clean.last with h | h <;> rw [h] at last <;> obtain rfl := Option.some.inj last <;>
        decide)
  rw [removeCalls, remove_eq_leftFrom, clean.tidy_between stays, List.append_assoc, left,
    leftFrom_append_of_silent silent, dropBlankLines_append blankLines (clean.blankLine_append _),
    trimEnd_append_blank _ white, trimEnd_of_last last inked]

/-- White space at the end does not matter to what tidying makes of a call text. -/
theorem callText_tidy_trimEnd (names : r.CallNames param) {n : Nat} {t : Text} :
    CallText r param (tidy n t) ↔ CallText r param (tidy n (trimEnd t)) := by
  obtain ⟨tail, parts, white⟩ := trimEnd_append t
  rcases List.eq_nil_or_concat (trimEnd t) with none_ | ⟨front, c, e⟩
  · rw [none_, List.nil_append] at parts
    rw [none_]
    exact ⟨fun _ => .of_blank (isBlankText_tidy rfl),
      fun _ => .of_blank (isBlankText_tidy (by rw [parts]; exact white))⟩
  · rw [List.concat_eq_append] at e
    have last : (trimEnd t).getLast? = some c := by
      rw [e]
      simp
    have together : tidy n t = tidy n (trimEnd t) ++ tidy n tail := by
      conv => lhs; rw [parts]
      exact tidy_append_of_last last (trimEnd_last last) n tail
    rw [together]
    constructor
    · intro h
      have ends := h.ends names
      rw [solid_append, solid_eq_nil.2 (isBlankText_tidy white), List.append_nil] at ends
      exact (h.split names ends).1
    · exact fun h => h.append (.of_blank (isBlankText_tidy white))

/-! ## Seams -/

/-- A place in a body between `above` and `below`: the segments and the text behind them that stand
above, the segments below, and the number of statements that were taken out of the body. -/
structure Seam (r : Rules) (param above below : Text) (init : List Segment) (u : Text)
    (tail : List Segment) (n : Nat) : Prop where
  scanAbove : Scan (anchor param) above (init ++ [.rest u])
  scanBelow : Scan (anchor param) below tail
  firm : ∀ seg ∈ init, IsFirm seg
  closed : ∀ seg ∈ tail, IsShut seg
  headed : Headed tail
  count : n = 0 ↔ (∀ seg ∈ init, IsQuiet seg) ∧ ∀ seg ∈ tail, IsQuiet seg
  plain : plainBlanks above = true
  callsAbove : ∀ next, CallText r param (tidy n (frontOf init u next))
  callsBelow : ∀ gap, isBlankText gap = true → CallText r param (tidy n (gap ++ removeFrom 0 tail))
  /-- A statement above does not end below. -/
  goesOn : ∀ gap, isBlankText gap = true → ¬ MayEnd (gap ++ below)

theorem Seam.scan_spliced {above below u w gap preserved lead : Text} {init tail pinit : List Segment}
    {n : Nat} (seam : Seam r param above below init u tail n) (inked : Inked (anchor param))
    (clean : PlainCarryOver r param preserved)
    (scan : segments (anchor param) preserved = pinit ++ [.rest w])
    (quiet : ∀ seg ∈ pinit, IsQuiet seg) (blankLead : isBlankText lead = true) (someLead : lead ≠ [])
    (blankGap : isBlankText gap = true) (someGap : gap ≠ []) :
    Scan (anchor param) (above ++ lead ++ (preserved ++ gap ++ below))
      (init ++ prependFirst (u ++ lead) (pinit ++ prependFirst (w ++ gap) tail)) := by
  have inner : Scan (anchor param) preserved (pinit ++ [.rest w]) := by
    rw [← scan]
    exact scan_segments inked preserved
  have settledIn : ∀ seg ∈ pinit, seg.Settled (anchor param) (gap ++ below) := by
    intro seg m
    cases seg with
    | statement before s => exact absurd rfl (quiet _ m before s)
    | noLambda before taken =>
        exact clean.settled before taken (by rw [scan]; exact List.mem_append_left _ m)
    | openEnded before taken => exact seam.goesOn gap blankGap
    | unclosed => trivial
    | rest => trivial
  have settledAbove : ∀ seg ∈ init,
      seg.Settled (anchor param) (lead ++ (preserved ++ gap ++ below)) := by
    intro seg m
    obtain ⟨before, s, c, rest, rfl, -⟩ := seam.firm seg m
    trivial
  exact seam.scanAbove.append inked settledAbove someLead blankLead
    (inner.append inked settledIn someGap blankGap seam.scanBelow)

/-- What stays above carry-over that starts a line is made of whole lines. -/
theorem Seam.atLineStart {above below u lead : Text} {init tail : List Segment} {n : Nat}
    (seam : Seam r param above below init u tail n) (inked : Inked (anchor param)) (next : Text)
    (feed : AtLineStart above ∨ '\n' ∈ lead) :
    frontSkip init (u ++ lead ++ ['\n']) next ≤ (u ++ lead).length ∧
      AtLineStart (frontOf init (u ++ lead ++ ['\n']) next) := by
  have bound : frontSkip init (u ++ lead ++ ['\n']) next ≤ (u ++ lead).length := by
    have inside : '\n' ∈ u ++ lead ∨ init = [] := by
      rcases feed with start | feed
      · exact (feed_of_atLineStart seam.firm (seam.scanAbove.text_rest inked) start).imp
          (List.mem_append_left _) id
      · exact Or.inl (List.mem_append_right _ feed)
    have := frontSkip_le_of_feed inside ('\n' :: next)
    rwa [frontSkip, ← List.singleton_append, ← List.append_assoc, ← frontSkip] at this
  refine ⟨bound, Or.inr ?_⟩
  rw [frontSkip] at bound
  simp only [frontOf]
  rw [List.drop_append_of_le_length bound, List.getLast?_append, List.getLast?_append]
  rfl

/-- Carry-over put into a seam leaves no block open. -/
theorem Seam.shut_spliced {above below u w lead gap : Text} {init tail pinit : List Segment} {n : Nat}
    (seam : Seam r param above below init u tail n)
    (idle : ∀ seg ∈ pinit ++ [.rest w], IsIdle seg) :
    ∀ seg ∈ init ++ prependFirst lead (pinit ++ prependFirst (w ++ gap) tail), IsShut seg := by
  have firm : ∀ seg ∈ init, IsShut seg := by
    intro seg m
    obtain ⟨before, s, c, rest, rfl, -⟩ := seam.firm seg m
    simp [IsShut]
  rw [List.forall_mem_append, forall_prependFirst isShut_prepend, List.forall_mem_append,
    forall_prependFirst isShut_prepend]
  exact ⟨firm, fun seg m => (idle seg (List.mem_append_left _ m)).2, seam.closed⟩

/-- Carry-over put into a seam adds no statement. -/
theorem Seam.count_spliced {above below u w lead gap : Text} {init tail pinit : List Segment} {n : Nat}
    (seam : Seam r param above below init u tail n)
    (idle : ∀ seg ∈ pinit ++ [.rest w], IsIdle seg) :
    statementCount (init ++ prependFirst lead (pinit ++ prependFirst (w ++ gap) tail)) = 0 ↔ n = 0 := by
  rw [statementCount_eq_zero, List.forall_mem_append, forall_prependFirst isQuiet_prepend,
    List.forall_mem_append, forall_prependFirst isQuiet_prepend, seam.count]
  exact and_congr_right fun _ => and_iff_right fun seg m => (idle seg (List.mem_append_left _ m)).1

/-- What stays above the carry-over has no line end that is cut in two. -/
theorem Seam.plainBlanks_front {above below u lead next : Text} {init tail : List Segment} {n : Nat}
    (seam : Seam r param above below init u tail n) (inked : Inked (anchor param))
    (plainLead : plainBlanks lead = true) :
    plainBlanks (frontOf init (u ++ (lead ++ ['\n'])) next) = true := by
  have plainFeed : plainBlanks (lead ++ ['\n']) = true := plainBlanks_append plainLead (by decide)
  refine plainBlanks_frontOf seam.firm _ ?_ ?_
  · rw [← List.append_assoc, seam.scanAbove.text_rest inked]
    exact plainBlanks_append seam.plain plainFeed
  · have whole := seam.plain
    rw [← seam.scanAbove.text_rest inked] at whole
    refine plainBlanks_left whole fun last => ?_
    exact absurd (last_of_firm seam.firm last) (by decide)

/-- Clean carry-over on lines of its own comes back out of a seam. -/
theorem Seam.leftover {above below u lead gap preserved : Text} {init tail : List Segment} {n : Nat}
    (seam : Seam r param above below init u tail n) (names : r.CallNames param)
    (inked : Inked (anchor param)) (clean : PlainCarryOver r param preserved)
    (stays : tidy n preserved = preserved) (blankLead : isBlankText lead = true)
    (plainLead : plainBlanks lead = true)
    (feed : AtLineStart above ∨ '\n' ∈ lead) (blankGap : isBlankText gap = true)
    (someGap : gap ≠ []) :
    ∃ bare, strip (anchor param) (above ++ (lead ++ ['\n']) ++ (preserved ++ gap ++ below)) =
        .ok bare ∧
      trimEnd (dropBlankLines (r.removeCalls param bare)) = preserved := by
  have blankStart : isBlankText (lead ++ ['\n']) = true := by
    rw [isBlankText_append, blankLead]
    decide
  have idle := blocks_eq_nil.1 clean.noBlock
  obtain ⟨pinit, w, e⟩ := (scan_segments inked preserved).ends_rest fun seg m => (idle seg m).2
  have text : textOf (pinit ++ [.rest w]) = preserved := by rw [← e, segments_text]
  rw [e] at idle
  have quiet : ∀ seg ∈ pinit, IsQuiet seg := fun seg m => (idle seg (List.mem_append_left _ m)).1
  have segs := (seam.scan_spliced inked clean e quiet blankStart (by simp) blankGap
    someGap).segments_eq inked
  have some_ : tail ≠ [] := seam.scanBelow.ne_nil
  have below_ : textOf tail = below := seam.scanBelow.text inked
  obtain ⟨bound, start⟩ := seam.atLineStart inked (preserved ++ gap ++ below) feed
  have kept := @removeFrom_spliced init _ _ (u ++ lead ++ ['\n']) _ gap some_
    seam.headed quiet (by
      rw [text, below_]
      exact bound.trans (by simp))
  rw [text, below_, List.append_assoc u] at kept
  rw [List.append_assoc u] at start
  refine ⟨_, strip_eq (failureFrom?_eq_none.2 (segs ▸ seam.shut_spliced idle)), ?_⟩
  rw [segs, tidy_congr (seam.count_spliced idle), kept, ← List.append_assoc, List.append_assoc _ gap]
  refine leftover_between names clean stays ?_ (seam.plainBlanks_front inked plainLead) start
    (seam.callsBelow gap blankGap)
  rw [callText_tidy_trimEnd names, frontOf_append_blank _ _ _ blankStart,
    ← callText_tidy_trimEnd names]
  exact seam.callsAbove _

end Regraft.CarryOver
