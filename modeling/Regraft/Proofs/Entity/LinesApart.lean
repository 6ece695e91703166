import Regraft.Proofs.Entity.Shape
import Regraft.Proofs.Entity.Splice
import Regraft.Proofs.Extraction
import Regraft.Proofs.Text.Breaks

/-!
# Regraft.Proofs.Entity.LinesApart -- lines that stripping joins

With a statement goes the line end behind it where there is nothing else from the cursor to the
statement, and the cursor may stand in the middle of a line.  `LineGone` lists these line ends, each
with what stays in front of it and behind it; every other line end stays (`mem_breaks_removeFrom`).
So stripping keeps lines apart exactly if none of these line ends has something left on both sides,
and it does where each statement is the first on its line (`strip_linesApart`).
-/

namespace Regraft.Entity

set_option autoImplicit false

open Text Reader

/-! ## One segment -/

/-- What stays of a segment, `skip` characters of which are gone, and how much goes behind it. -/
def Segment.keep (skip : Nat) (next : Text) : Segment → Text × Nat
  | .statement before _ => keptBefore skip before next
  | seg => (seg.text.drop skip, 0)

theorem removeFrom_cons (skip : Nat) (seg : Segment) (more : List Segment) :
    removeFrom skip (seg :: more) =
      (seg.keep skip (textOf more)).1 ++ removeFrom (seg.keep skip (textOf more)).2 more := by
  cases seg with
  | statement before s => exact removeFrom_statement skip before s more
  | _ => exact removeFrom_other (by simp) skip more

theorem Segment.keep_skip (skip : Nat) (next : Text) (seg : Segment) :
    (seg.keep skip next).2 = 0 ∨ lineTail? next = some (seg.keep skip next).2 := by
  cases seg with
  | statement before s => exact keptBefore_skip skip before next
  | _ => exact Or.inl rfl

theorem isBlankText_take_of_lineTail {n : Nat} {next : Text} (h : n = 0 ∨ lineTail? next = some n) :
    isBlankText (next.take n) = true := by
  rcases h with rfl | tail
  · rw [List.take_zero]
    rfl
  · exact (lineTail?_spec tail).2

theorem Segment.solid_keep (skip : Nat) (next : Text) (seg : Segment) :
    solid (seg.keep skip next).1 = solid (seg.between.drop skip) := by
  cases seg with
  | statement before s => exact solid_keptBefore skip before next
  | _ => rfl

/-- The line feeds of a segment outside its statement stay, but for those that are gone already. -/
theorem Segment.breaks_keep (skip : Nat) (next : Text) (seg : Segment) (n : Nat) :
    breaks n (seg.keep skip next).1 = breaks n (seg.between.drop skip) := by
  cases seg with
  | statement before s =>
      obtain ⟨inLine, -⟩ := splitLastLine_spec (before.drop skip)
      have whole : breaks n (splitLastLine (before.drop skip)).1 = breaks n (before.drop skip) := by
        conv => rhs; rw [← splitLastLine_append (before.drop skip)]
        rw [breaks_append, breaks_of_no_feed inLine, List.append_nil]
      rw [Segment.keep, Segment.between, keptBefore]
      simp only
      split
      · cases lineTail? next with
        | none => rfl
        | some k => exact whole
      · rfl
  | _ => rfl

theorem Segment.between_prefix (seg : Segment) : seg.between <+: seg.text := by
  cases seg with
  | statement before s => exact List.prefix_append _ _
  | _ => exact List.prefix_refl _

theorem Segment.isBlankText_between {n : Nat} {seg : Segment} {more : List Segment}
    (blank : isBlankText ((textOf (seg :: more)).take n) = true) :
    isBlankText (seg.between.take n) = true := by
  obtain ⟨back, e⟩ := seg.between_prefix
  rw [textOf_cons, ← e, List.append_assoc] at blank
  exact isBlankText_take_left blank

/-! ## The line ends that go -/

/-- A line end that goes with the statement in front of it, `skip` characters of the first segment
being gone already: what stays above it and what stays below. -/
inductive LineGone : Nat → List Segment → Text → Text → Prop where
  | here {skip : Nat} {seg : Segment} {more : List Segment} : '\n' ∈ seg.between.take skip →
      LineGone skip (seg :: more) [] (removeFrom skip (seg :: more))
  | later {skip : Nat} {seg : Segment} {more : List Segment} {above below : Text} :
      LineGone (seg.keep skip (textOf more)).2 more above below →
      LineGone skip (seg :: more) ((seg.keep skip (textOf more)).1 ++ above) below

/-- A line feed outside the statements stays, or its line end goes with a statement. -/
theorem mem_breaks_removeFrom {skip : Nat} {segs : List Segment}
    (blank : isBlankText ((textOf segs).take skip) = true) {k m : Nat}
    (h : m ∈ breaks k (betweenOf segs)) :
    m ∈ breaks k (removeFrom skip segs) ∨
      ∃ above below, LineGone skip segs above below ∧ m = k + (solid above).length := by
  induction segs generalizing skip k with
  | nil => cases h
  | cons seg more ih =>
      have blankHere := Segment.isBlankText_between blank
      have same : solid (seg.keep skip (textOf more)).1 = solid seg.between := by
        rw [Segment.solid_keep, solid_drop_of_blank blankHere]
      rw [betweenOf_cons, breaks_append, List.mem_append] at h
      rw [removeFrom_cons, breaks_append, List.mem_append, Segment.breaks_keep, same]
      rcases h with here | later
      · rw [← List.take_append_drop skip seg.between, breaks_append, List.mem_append] at here
        rcases here with gone | stays
        · obtain ⟨feed, rfl⟩ := (mem_breaks_of_blank blankHere).1 gone
          exact Or.inr ⟨[], _, .here feed, rfl⟩
        · rw [solid_eq_nil.2 blankHere] at stays
          exact Or.inl (Or.inl stays)
      · have blankLater := isBlankText_take_of_lineTail (seg.keep_skip skip (textOf more))
        rcases ih blankLater later with stays | ⟨above, below, gone, rfl⟩
        · exact Or.inl (Or.inr stays)
        · refine Or.inr ⟨_, below, .later gone, ?_⟩
          rw [solid_append, same, List.length_append, Nat.add_assoc]

/-- What stays is above and below, and the line feed between them is one of the body. -/
theorem LineGone.spec {skip : Nat} {segs : List Segment} {above below : Text}
    (h : LineGone skip segs above below) (blank : isBlankText ((textOf segs).take skip) = true) :
    removeFrom skip segs = above ++ below ∧
      ∀ k, k + (solid above).length ∈ breaks k (betweenOf segs) := by
  induction h with
  | @here skip seg more feed =>
      refine ⟨rfl, fun k => ?_⟩
      have gone : k ∈ breaks k (seg.between.take skip) :=
        (mem_breaks_of_blank (Segment.isBlankText_between blank)).2 ⟨feed, rfl⟩
      rw [betweenOf_cons, breaks_append, List.mem_append, ← List.take_append_drop skip seg.between,
        breaks_append, List.mem_append]
      exact Or.inl (Or.inl gone)
  | @later skip seg more above below _ ih =>
      obtain ⟨stays, gone⟩ := ih (isBlankText_take_of_lineTail (seg.keep_skip skip (textOf more)))
      have same : solid (seg.keep skip (textOf more)).1 = solid seg.between := by
        rw [Segment.solid_keep, solid_drop_of_blank (Segment.isBlankText_between blank)]
      refine ⟨by rw [removeFrom_cons, stays, List.append_assoc], fun k => ?_⟩
      rw [betweenOf_cons, breaks_append, List.mem_append, solid_append, same, List.length_append,
        ← Nat.add_assoc]
      exact Or.inr (gone _)

/-- Lines are joined where a line end goes with something left on both sides. -/
theorem linesApart_removeFrom (segs : List Segment) :
    LinesApart (betweenOf segs) (removeFrom 0 segs) ↔
      ∀ above below, LineGone 0 segs above below → EndsBlank above ∨ StartsBlank below := by
  have blank : isBlankText ((textOf segs).take 0) = true :=
    isBlankText_take_of_lineTail (Or.inl rfl)
  refine linesApart_iff_seams (fun n m => ?_) fun above below gone => ?_
  · rcases mem_breaks_removeFrom blank m with stays | ⟨above, below, gone, e⟩
    · exact Or.inl stays
    · exact Or.inr ⟨above, below, gone, by rw [e, Nat.zero_add]⟩
  · obtain ⟨stays, feed⟩ := gone.spec blank
    exact ⟨stays, by simpa using feed 0⟩

/-! ## Statements that are the first on their line -/

theorem keptBefore_gone {skip : Nat} {before next : Text} (gone : (keptBefore skip before next).2 ≠ 0) :
    (keptBefore skip before next).1 = (splitLastLine (before.drop skip)).1 := by
  rw [keptBefore] at gone ⊢
  simp only at gone ⊢
  split at gone
  · rename_i blank
    rw [if_pos blank]
    cases e : lineTail? next with
    | none =>
        rw [e] at gone
        exact absurd rfl gone
    | some n => rfl
  · exact absurd rfl gone

/-- Behind a statement that is the first on its line. -/
theorem endsLike_statement {front left before : Text} {n : Nat} (h : EndsLike front left n)
    (first : EndsBlank (front ++ before)) {s : Statement} (last : s.text.getLast? = some ';')
    (next : Text) :
    EndsLike (front ++ (before ++ s.text)) (left ++ (keptBefore n before next).1)
      (keptBefore n before next).2 := by
  refine .of_last (c := ';') ?_ (by decide) fun gone => ?_
  · rw [List.getLast?_append, List.getLast?_append, last]
    rfl
  · obtain ⟨inLine, -⟩ := splitLastLine_spec (before.drop n)
    have ends := h.blank before first
    rw [← splitLastLine_append (before.drop n), ← List.append_assoc,
      endsBlank_append_of_not_mem inLine] at ends
    rw [keptBefore_gone gone]
    exact ends.1

theorem le_length_of_inked {s t : Text} {n : Nat} {c : Char} (m : c ∈ s) (inked : isBlank c = false)
    (blank : isBlankText ((s ++ t).take n) = true) : n ≤ s.length := by
  by_contra long
  rw [List.take_append, List.take_of_length_le (by omega), isBlankText_append,
    Bool.and_eq_true] at blank
  exact not_mem_of_isBlankText blank.1 inked m

/-- Where each statement is the first on its line, what stays above a line end that goes is blank on
its last line. -/
theorem Scan.endsBlank {param t : Text} {segs : List Segment} (scan : Scan (anchor param) t segs)
    {front left above below : Text} {skip : Nat} (like : EndsLike front left skip)
    (blank : isBlankText ((textOf segs).take skip) = true)
    (first : ∀ init before s more, segs = init ++ .statement before s :: more →
      EndsBlank (front ++ (textOf init ++ before)))
    (gone : LineGone skip segs above below) : EndsBlank (left ++ above) := by
  have here {seg : Segment} {front left : Text} {skip : Nat} (like : EndsLike front left skip)
      (feed : '\n' ∈ seg.between.take skip) : EndsBlank (left ++ []) := by
    rw [List.append_nil]
    refine like.gone ?_
    rintro rfl
    cases feed
  have angle {t before found after : Text}
      (cut : cutAnchor? (anchor param) t = some (before, found, after)) : '<' ∈ found :=
    ((cutAnchor?_alike cut).caseless_mem isCaseless_angle).1 (List.mem_append_right _ (by decide))
  have behind {seg : Segment} {more : List Segment} {front : Text}
      (first : ∀ init before s tail, seg :: more = init ++ .statement before s :: tail →
        EndsBlank (front ++ (textOf init ++ before))) :
      ∀ init before s tail, more = init ++ .statement before s :: tail →
        EndsBlank (front ++ seg.text ++ (textOf init ++ before)) := by
    rintro init before s tail rfl
    simpa using first (seg :: init) before s tail rfl
  induction scan generalizing front left skip above with
  | rest | unclosed =>
      cases gone with
      | here feed => exact here like feed
      | later gone => cases gone
  | noLambda cut _ _ ih | openEnded cut _ _ _ _ ih =>
      cases gone with
      | here feed => exact here like feed
      | later gone =>
          have bound :=
            le_length_of_inked (c := '<') (by simp [Segment.text, angle cut]) (by decide) blank
          rw [← List.append_assoc]
          exact ih (like.append bound) (isBlankText_take_of_lineTail (Or.inl rfl)) (behind first) gone
  | @statement _ before _ _ _ _ _ _ _ _ segs cut opens closes ends scan ih =>
      cases gone with
      | here feed => exact here like feed
      | later gone =>
          have last := (Scan.statement cut opens closes ends scan).sound List.mem_cons_self
          rw [← List.append_assoc]
          refine ih (endsLike_statement like ?_ last.text_last _) ?_ (behind first) gone
          · simpa using first [] before _ segs rfl
          · exact isBlankText_take_of_lineTail (keptBefore_skip skip before (textOf segs))

theorem LineGone.endsBlank {param body : Text}
    (first : ∀ b ∈ blocksFrom 0 (segments (anchor param) body), EndsBlank (body.take b.anchorStart))
    {above below : Text} (h : LineGone 0 (segments (anchor param) body) above below) :
    EndsBlank above := by
  have scan : Scan (anchor param) body (segments (anchor param) body) :=
    scan_of_ne_nil (by simp [anchor]) body
  have none_ : isBlankText ((textOf (segments (anchor param) body)).take 0) = true :=
    isBlankText_take_of_lineTail (Or.inl rfl)
  refine scan.endsBlank .nil none_ (fun init before s more split => ?_) h
  have here := first _ (mem_blocksFrom_iff.2 ⟨init, before, s, more, split, rfl⟩)
  have parts : body = textOf init ++ before ++ (s.text ++ textOf more) := by
    rw [← segments_text (anchor param) body, split]
    simp [Segment.text]
  rw [Statement.block_start, Nat.zero_add, parts, List.take_left] at here
  exact here

/-! ## Collapsing -/

/-- Of a run of line ends one is left at least. -/
theorem mem_breaks_collapse {n m : Nat} (t : Text) : m ∈ breaks n (collapse t) ↔ m ∈ breaks n t := by
  induction length : t.length using Nat.strongRecOn generalizing t n with
  | ind k ih =>
      cases t with
      | nil => rw [collapse_nil]
      | cons c t =>
          rcases collapse_cases c t with e | ⟨first, more, rest, ends, blank, parts, shorter, e⟩
          · have head (u : Text) : c :: u = [c] ++ u := rfl
            rw [e, head, head t, breaks_append, breaks_append, List.mem_append, List.mem_append,
              ih t.length (by simp at length; omega) t rfl]
          · have blankFirst := isBlankText_of_isLineEnd ends
            have feed : '\n' ∈ first := by rcases ends with rfl | rfl <;> simp
            have two : isBlankText (first ++ first) = true := by simp [blankFirst]
            have run : isBlankText (first ++ more) = true := by simp [blankFirst, blank]
            rw [e, parts, breaks_append, breaks_append n (first ++ more), List.mem_append,
              List.mem_append, mem_breaks_of_blank two, mem_breaks_of_blank run, solid_eq_nil.2 two,
              solid_eq_nil.2 run, ih rest.length (by omega) rest rfl]
            simp [feed]

theorem linesApart_tidy {whole : Text} (n : Nat) (t : Text) :
    LinesApart whole (tidy n t) ↔ LinesApart whole t := by
  refine linesApart_congr (solid_tidy n t) fun m => ?_
  rw [tidy]
  split
  · rfl
  · exact mem_breaks_collapse t

/-- Stripping takes white space only beside the statements, and joins two lines exactly where a line
end goes with a statement while something is left on the line in front of it and on the line behind.
It joins none where each statement is the first on its line. -/
theorem strip_linesApart {param body kept : Text} (done : strip (anchor param) body = .ok kept) :
    ∃ bs, blocks (anchor param) body = .ok bs ∧
      solid kept = solid (outside (bs.map Block.range) 0 body) ∧
      (LinesApart (outside (bs.map Block.range) 0 body) kept ↔
        ∀ above below, LineGone 0 (segments (anchor param) body) above below →
          EndsBlank above ∨ StartsBlank below) ∧
      ((∀ b ∈ bs, EndsBlank (body.take b.anchorStart)) →
        LinesApart (outside (bs.map Block.range) 0 body) kept) := by
  obtain ⟨bs, found, same⟩ := solid_strip done
  obtain ⟨shut, rfl⟩ := blocks_eq_ok.1 found
  have between := outside_blocksFrom 0 (segments (anchor param) body)
  rw [segments_text] at between
  rw [strip_eq shut] at done
  obtain rfl := Except.ok.inj done
  have seams : LinesApart (betweenOf (segments (anchor param) body))
      (tidy (statementCount (segments (anchor param) body))
        (removeFrom 0 (segments (anchor param) body))) ↔ _ :=
    (linesApart_tidy _ _).trans (linesApart_removeFrom _)
  rw [← between] at seams
  refine ⟨_, found, same, seams, fun first => seams.2 fun above below gone => ?_⟩
  exact Or.inl (gone.endsBlank first)

/-- A statement in front of other code on its line, and one that has its line for itself. -/
def firstsBody : Text :=
  ("Seed();\n    b.Entity<A>(e => \x7b \x7d); Own();\n" ++
    "    b.Entity<B>(e => \x7b \x7d);\nb.UseX();\n").toList

theorem strip_linesApart_firsts :
    strip (anchor ['b']) firstsBody = .ok "Seed();\n     Own();\nb.UseX();\n".toList ∧
      LinesApart (outside [(12, 34), (46, 68)] 0 firstsBody)
        "Seed();\n     Own();\nb.UseX();\n".toList := by
  have done : strip (anchor ['b']) firstsBody = .ok "Seed();\n     Own();\nb.UseX();\n".toList := by
    decide +kernel
  have here : blocks (anchor ['b']) firstsBody = .ok [⟨12, 21, 29, 31, 34⟩, ⟨46, 55, 63, 65, 68⟩] := by
    decide +kernel
  obtain ⟨bs, found, -, -, apart⟩ := strip_linesApart done
  rw [here] at found
  obtain rfl := Except.ok.inj found
  exact ⟨done, apart (by decide +kernel)⟩

/-- Two statements behind a comment on one line, and a call on the next. -/
def commentBody : Text :=
  "// old: b.Entity<A>(e => \x7b \x7d); b.Entity<B>(e => \x7b \x7d);\nSeed();\n".toList

/-- The second statement goes with the line end, and the call becomes part of the comment. -/
theorem strip_joins_lines :
    blocks (anchor ['b']) commentBody = .ok [⟨8, 17, 25, 27, 30⟩, ⟨31, 40, 48, 50, 53⟩] ∧
      strip (anchor ['b']) commentBody = .ok "// old: Seed();\n".toList ∧
      ¬ LinesApart (outside [(8, 30), (31, 53)] 0 commentBody) "// old: Seed();\n".toList := by
  decide +kernel

end Regraft.Entity
