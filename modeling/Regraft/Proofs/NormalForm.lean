import Regraft.Proofs.Laid.Calls
import Regraft.Proofs.Laid.Markers
import Regraft.Proofs.RoundTrip

/-!
# Regraft.Proofs.NormalForm -- what the passes find in carry-over

Extraction runs three passes once each, and a cut may bring something together that an earlier pass
would have taken (`extract_not_normal`).  Not so in a body that is laid out in parts: each pass takes its
kind of part, and no pass finds anything in the code that is left (`LaidOut.normal`).  Nor does it happen
where only markers are cut, since stripping them is repeated until it finds nothing (`Uncut.normal`).
Trimming brings nothing about in either case: without the blank lines at its start and the white space at
its end a text has markers, entity statements and calls only where the whole has them
(`MarkerPair.strip_trimmed`, `Entity.strip_trimmed`, `Rules.removeCalls_trimmed`).
-/

namespace Regraft

set_option autoImplicit false

open Text Reader

/-! ## Markers -/

namespace MarkerPair

/-- A comment line that ends with the text goes on over whole lines. -/
theorem leadLine_lengthens {lead tail : Text} (whole : WholeLineEnds tail)
    (before before' : Option Char) (u : Text)
    (edge : before' = before ∨ before = none ∧ before' = some '\n')
    (read : leadLine lead before u ≠ []) : leadLine lead before' (u ++ tail) ≠ [] := by
  obtain ⟨⟨⟨⟩, rest⟩, m⟩ := List.exists_mem_of_ne_nil _ read
  obtain ⟨start, ind, more, e, hi, hm, ends, rfl⟩ := mem_leadLine.1 m
  have start' : before' = none ∨ before' = some '\n' := by
    rcases edge with rfl | ⟨-, rfl⟩
    · exact start
    · exact Or.inr rfl
  rcases ends with he | ⟨rfl, rfl⟩
  · exact List.ne_nil_of_mem (a := ((), rest ++ tail)) (mem_leadLine.2
      ⟨start', ind, more, e, hi, hm, Or.inl he, by simp⟩)
  · obtain ⟨rest, b, z, hb, rfl, behind⟩ := exists_behindLine whole
    have inLine : ∀ c ∈ more ++ b, c ≠ '\r' ∧ c ≠ '\n' := by
      intro c m
      exact (List.mem_append.1 m).elim (hm c) (hb c)
    rcases behind with ⟨e, he, rfl⟩ | ⟨rfl, rfl⟩
    · exact List.ne_nil_of_mem (a := ((), rest)) (mem_leadLine.2
        ⟨start', ind, more ++ b, e, hi, inLine, Or.inl he, by simp⟩)
    · exact List.ne_nil_of_mem (a := ((), [])) (mem_leadLine.2
        ⟨start', ind, more ++ b, [], hi, inLine, Or.inr ⟨rfl, rfl⟩, by simp⟩)

theorem strip_trimmed {m : MarkerPair} {s t tail : Text}
    (fixed : m.stripOnce (s ++ t ++ tail) = s ++ t ++ tail) (start : AtLineStart s)
    (whole : WholeLineEnds tail) : m.strip t = t := by
  refine strip_of_unmarked (fun part => ?_) fun some_ => occurrences_of_silent ?_
  · exact not_opening_of_stripOnce fixed (part.trans ⟨s, tail, rfl⟩)
  · exact silent_between (silent_of_stripOnce fixed some_) start (leadLine_lengthens whole)

end MarkerPair

/-! ## Entity statements -/

namespace Entity

variable {token : Text}

/-- A block that is open at the end of a text is open behind white space too. -/
theorem closeBlock_blank {t tail : Text} {stillOpen : Nat}
    (h : Brace.closeBlock 0 t = .error stillOpen) (blank : isBlankText tail = true) :
    ∃ stillOpen', Brace.closeBlock 0 (t ++ tail) = .error stillOpen' := by
  cases closes : Brace.closeBlock 0 (t ++ tail) with
  | error stillOpen' => exact ⟨stillOpen', rfl⟩
  | ok p =>
      obtain ⟨inner, rest⟩ := p
      obtain ⟨parts, balanced⟩ := Brace.closeBlock_eq_ok.1 closes
      have absent : '}' ∉ tail := not_mem_of_isBlankText blank (by decide)
      rcases List.append_eq_append_iff.1 parts with ⟨x, rfl, e⟩ | ⟨x, rfl, e⟩
      · exact absurd (by simp [e]) absent
      · cases x with
        | nil =>
            rw [List.nil_append] at e
            exact absurd (by simp [← e]) absent
        | cons c x =>
            obtain ⟨rfl, -⟩ := List.cons.inj e
            rw [Brace.closeBlock_eq_ok.2 ⟨rfl, balanced⟩] at h
            cases h

/-- A statement or an open block in a text is one with white space behind the text. -/
theorem Scan.append_blank {t tail : Text} {segs : List Segment} (inked : Inked token)
    (blank : isBlankText tail = true) (h : Scan token t segs) :
    ∃ segs', Scan token (t ++ tail) segs' ∧
      ((∀ seg ∈ segs', IsIdle seg) → ∀ seg ∈ segs, IsIdle seg) := by
  have rest_ (t : Text) : ∀ seg ∈ [Segment.rest t], IsIdle seg :=
    List.forall_mem_singleton.2 (isIdle_rest t)
  have cons {seg seg' : Segment} {segs segs' : List Segment} (here : IsIdle seg)
      (later : (∀ seg ∈ segs', IsIdle seg) → ∀ seg ∈ segs, IsIdle seg)
      (all : ∀ s ∈ seg' :: segs', IsIdle s) : ∀ s ∈ seg :: segs, IsIdle s :=
    List.forall_mem_cons.2 ⟨here, later (List.forall_mem_cons.1 all).2⟩
  induction h with
  | @rest t cut =>
      refine ⟨[.rest (t ++ tail)], .rest ?_, fun _ => rest_ t⟩
      cases tail with
      | nil => rwa [List.append_nil]
      | cons c tail =>
          have apart := cutAnchor?_separated (t := []) inked cut (List.cons_ne_nil c tail) blank
          rwa [List.append_nil, cutAnchor?_nil inked, Option.map_none] at apart
  | @noLambda t before found after head more segs cut opens scan ih =>
      have cut' := cutAnchor?_append_right cut tail
      rcases seek_none_blank opens blank with opens' | ⟨rfl, opens'⟩
      · obtain ⟨segs', scan', later⟩ := ih
        exact ⟨_, .noLambda cut' opens' scan', cons (isIdle_noLambda ..) later⟩
      · refine ⟨_, .noLambda cut' opens' (.rest (cutAnchor?_nil inked)), fun _ => ?_⟩
        have nothing := scan.segments_eq inked
        rw [(Scan.rest (cutAnchor?_nil inked)).segments_eq inked] at nothing
        subst nothing
        exact List.forall_mem_cons.2 ⟨isIdle_noLambda .., rest_ []⟩
  | unclosed cut opens closes =>
      obtain ⟨stillOpen', closes'⟩ := closeBlock_blank closes blank
      refine ⟨_, .unclosed (cutAnchor?_append_right cut tail) (seek_block_append opens tail) closes',
        fun all => ?_⟩
      exact absurd rfl ((all _ List.mem_cons_self).2 _ _ _ _)
  | @openEnded t before found after head block inner next depth segs cut opens closes ends scan
      ih =>
      obtain ⟨segs', scan', later⟩ := ih
      have e : t ++ tail =
          before ++ found ++ (head ++ '{' :: (inner ++ '}' :: (next ++ tail))) := by
        rw [block_text cut opens closes]
        simp
      rw [e]
      have goesOn := afterEnd?_none_append ends (not_mayEnd_of_blank blank)
      exact ⟨_, .openEnded_swap cut opens closes goesOn scan', cons (isIdle_openEnded ..) later⟩
  | @statement t before found after head block inner part more depth segs cut opens closes ends
      scan ih =>
      obtain ⟨segs', scan', -⟩ := ih
      have scan := Scan.statement_swap cut opens closes ends scan'
      rw [← List.append_assoc, ← statement_text cut opens closes] at scan
      exact ⟨_, scan, fun all => absurd rfl ((all _ List.mem_cons_self).1 _ _)⟩

theorem strip_trimmed {s t tail : Text} (inked : Inked token) (blankStart : isBlankText s = true)
    (blankEnd : isBlankText tail = true) (none_ : blocks token (s ++ t ++ tail) = .ok []) :
    strip token t = .ok t := by
  have whole := blocks_eq_nil.1 none_
  -- the white space in front of the text goes into the first segment
  have behind : ∀ seg ∈ segments token (t ++ tail), IsIdle seg := by
    cases s with
    | nil => exact whole
    | cons c s =>
        have scan := (scan_segments inked (t ++ tail)).prepend inked (cutAnchor?_nil inked)
          (List.cons_ne_nil c s) blankStart
        rw [List.nil_append, ← List.append_assoc] at scan
        rw [scan.segments_eq inked] at whole
        exact (forall_prependFirst isIdle_prepend).1 whole
  obtain ⟨segs', scan', idle⟩ := (scan_segments inked t).append_blank inked blankEnd
  rw [scan'.segments_eq inked] at behind
  exact strip_of_no_block (blocks_eq_nil.2 (idle behind))

end Entity

/-! ## Calls -/

namespace Rules

variable {r : Rules} {param : Text}

/-- A call is a call whatever follows it, at the start of a line as at the start of a text. -/
theorem forwardingCall_lengthens {tail : Text} (before before' : Option Char) (u : Text)
    (edge : before' = before ∨ before = none ∧ before' = some '\n')
    (read : r.forwardingCall param before u ≠ []) :
    r.forwardingCall param before' (u ++ tail) ≠ [] := by
  obtain ⟨⟨⟨⟩, rest⟩, m⟩ := List.exists_mem_of_ne_nil _ read
  obtain ⟨ind, this, bare, behind, hi, hthis, hbare, htail, atEdge, rfl⟩ := mem_forwardingCall.1 m
  refine List.ne_nil_of_mem (a := ((), rest ++ tail)) (mem_forwardingCall.2
    ⟨ind, this, bare, behind, hi, hthis, hbare, htail, ?_, by simp⟩)
  have heads : (bare ++ behind ++ (rest ++ tail)).head? = (bare ++ behind ++ rest).head? := by
    obtain ⟨w₁, w₂, w₃, w₄, -, -, -, -, rfl⟩ := hbare
    cases r.forward <;> cases w₁ <;> rfl
  have edges : wordAt ((ind ++ this).getLast?.or before') =
      wordAt ((ind ++ this).getLast?.or before) := by
    rcases edge with rfl | ⟨rfl, rfl⟩
    · rfl
    · cases (ind ++ this).getLast? with
      | some d => rfl
      | none => decide
  rwa [heads, edges]

theorem removeCalls_trimmed {s t tail : Text} (start : AtLineStart s)
    (none_ : r.firstCall? param (s ++ t ++ tail) = none) : r.removeCalls param t = t := by
  refine remove_of_occurrences (r.forwardingCall_suffixed param) (occurrences_of_silent ?_)
  exact silent_between (firstCall?_eq_none_iff_silent.1 none_) start forwardingCall_lengthens

end Rules

/-! ## Extraction -/

namespace CarryOver

theorem BlankLines.atLineStart {t : Text} (h : BlankLines t) : AtLineStart t := by
  induction h with
  | nil => exact Or.inl rfl
  | @line ind e t hi he _ ih =>
      refine Or.inr ?_
      rcases ih with rfl | last
      · rw [List.append_nil, isLineEnd_last he]
      · rw [List.getLast?_append, last]
        rfl

/-- What no pass of extraction finds anything in. -/
structure Normal (r : Rules) (param t : Text) : Prop where
  markers : r.markers.strip t = t
  statements : Entity.strip (Entity.anchor param) t = .ok t
  calls : r.removeCalls param t = t

theorem trimmed_spec (t : Text) :
    ∃ s tail, t = s ++ trimEnd (dropBlankLines t) ++ tail ∧ BlankLines s ∧
      isBlankText tail = true := by
  obtain ⟨s, lines, front, -⟩ := dropBlankLines_spec t
  obtain ⟨tail, back, blank⟩ := trimEnd_append (dropBlankLines t)
  refine ⟨s, tail, ?_, lines, blank⟩
  rw [List.append_assoc, ← back, ← front]

variable {r : Rules} {param : Text}

/-- Where no pass finds anything in a text, none finds anything in the trimmed text. -/
theorem normal_of_trimmed {t : Text} (words : ∀ c ∈ param, isWord c = true)
    (whole : ∀ front tail, front ++ tail = t → isBlankText tail = true → WholeLineEnds tail)
    (fixed : r.markers.stripOnce t = t) (noBlock : Entity.blocks (Entity.anchor param) t = .ok [])
    (noCall : r.firstCall? param t = none) : Normal r param (trimEnd (dropBlankLines t)) := by
  obtain ⟨s, tail, parts, lines, blank⟩ := trimmed_spec t
  have ends := whole _ tail parts.symm blank
  generalize trimEnd (dropBlankLines t) = preserved at parts
  subst parts
  exact ⟨MarkerPair.strip_trimmed fixed lines.atLineStart ends,
    Entity.strip_trimmed (Entity.inked_anchor words) lines.isBlankText blank noBlock,
    Rules.removeCalls_trimmed lines.atLineStart noCall⟩

/-- Of a body in parts the three passes leave code, and no pass finds anything in code. -/
theorem LaidOut.normal {m : Method} {preserved : Text} (h : LaidOut r m.param m.body)
    (done : ofMethod r m = .ok preserved) : Normal r m.param preserved := by
  obtain ⟨visible, names, parts⟩ := h
  obtain ⟨bare, stripped, rfl⟩ := ofMethod_eq done
  obtain ⟨bare', stripped', laid⟩ :=
    (parts.strip visible names (by simp) (by simp)).strip_statements names (by simp) (by simp) (by simp)
  obtain rfl : bare = bare' := Except.ok.inj (stripped.symm.trans stripped')
  have left := laid.removeCalls names
  refine normal_of_trimmed names.param (fun front tail e blank => ?_)
    (left.clear visible (by simp) (by simp)).stripOnce_eq
    (Entity.blocks_eq_nil.2 (left.idle names (by simp) (by simp) (by simp)))
    (Rules.firstCall?_eq_none_iff_silent.2 (left.silent names none))
  exact .of_plainBlanks (left.spacing_of_suffix names (by simp) (by simp) e blank).plain

/-- A body in which the later passes find nothing once its markers are out. -/
structure Uncut (r : Rules) (param body : Text) : Prop where
  whole : WholeLineEnds (r.markers.strip body)
  noBlock : Entity.blocks (Entity.anchor param) (r.markers.strip body) = .ok []
  noCall : r.firstCall? param (r.markers.strip body) = none

/-- Stripping markers is repeated until it finds nothing. -/
theorem Uncut.normal {m : Method} {preserved : Text} (h : Uncut r m.param m.body)
    (words : ∀ c ∈ m.param, isWord c = true) (done : ofMethod r m = .ok preserved) :
    Normal r m.param preserved := by
  obtain ⟨bare, stripped, rfl⟩ := ofMethod_eq done
  -- the later passes leave the body as it is
  rw [Entity.strip_of_no_block h.noBlock, Except.ok.injEq] at stripped
  subst stripped
  have left := @Rules.removeCalls_trimmed r m.param [] _ [] (Or.inl rfl)
    (by rw [List.nil_append, List.append_nil, h.noCall])
  rw [left]
  exact normal_of_trimmed words (fun front tail e _ => (e.symm ▸ h.whole).right)
    (r.markers.stripOnce_strip m.body) h.noBlock h.noCall

/-- Carry-over is a normal form of the three passes where the body is laid out in parts, or where only
markers are cut out of it. -/
theorem extract_normal {source : String} {old preserved : Text} {m : Method}
    (found : (locate r source old).outcome = .ok m)
    (done : (extract r source old).outcome = .ok preserved)
    (shape : LaidOut r m.param m.body ∨ Uncut r m.param m.body) : Normal r m.param preserved := by
  rw [extract_eq found] at done
  rcases shape with laid | uncut
  · exact laid.normal done
  · exact uncut.normal (param_of_locate found) done

def emptyStatement : Entity.Statement :=
  ⟨"b.Entity<".toList, "A>(e=>".toList, [], ");".toList⟩

/-- A body with a part of each kind, an entity statement and code on one line. -/
def mixedBody : Text :=
  "\n".toList ++
    ("// scaffold-merge:begin-notice\n// kept\n// scaffold-merge:end-notice".toList ++
  ("\n  ".toList ++ ("// scaffold-merge: note\n".toList ++
  ("  ".toList ++ (emptyStatement.text ++
  (" ".toList ++ ("x();".toList ++
  ("\n  ".toList ++ ("OnModelCreatingPartial(b);".toList ++
  "\n".toList)))))))))

theorem laidOut_mixedBody : LaidOut .standard ['b'] mixedBody := by
  have names : Rules.standard.CallNames ['b'] := Rules.callNames_standard (List.all_eq_true.1 (by decide))
  have gap {g : Text} (k : Kind) (word : Bool) (spacing : isBlankText g = true ∧ plainBlanks g = true)
      (some_ : g ≠ []) (line : k = .comment → '\n' ∈ g) : Gap k word g :=
    ⟨⟨spacing.1, spacing.2⟩, fun _ none_ => absurd none_ some_, line⟩
  have clear {t : Text} (absent : '/' ∉ t) : Rules.standard.markers.Clear t :=
    MarkerPair.clear_of_not_mem rfl rfl absent
  have region : Fits .standard ['b'] .region
      "// scaffold-merge:begin-notice\n// kept\n// scaffold-merge:end-notice".toList :=
    ⟨"\n// kept\n".toList, by decide, by decide⟩
  have comment : Fits .standard ['b'] .comment "// scaffold-merge: note\n".toList := by
    have oneLine : '\n' ∉ Rules.standard.markers.opening := by decide
    have words : " note".toList.all (fun c => c != '\r' && c != '\n') = true := by decide
    have unsplit : Unsplit (· = Rules.standard.markers.opening) "// scaffold-merge: note\n".toList :=
      .of_last (c := '\n') (by decide) fun x y e => absurd (e ▸ List.mem_append_right x List.mem_cons_self)
        oneLine
    exact ⟨⟨cutAt?_eq_none.1 (by decide), unsplit⟩,
      @CommentLines.last _ " note".toList ['\n'] (fun c m => by simpa using List.all_eq_true.1 words c m)
        (Or.inr rfl)⟩
  have shaped : emptyStatement.Shaped (Entity.anchor ['b']) :=
    ⟨.refl _, by decide, 1, by decide, [], [';'], rfl, ⟨[], rfl, rfl⟩, rfl⟩
  have code : Code .standard ['b'] "x();".toList :=
    code_of_noAnchor names ⟨'x', "();".toList, by decide, by decide, by decide, by decide⟩
      (Or.inl (by decide)) (by decide +kernel) (by decide +kernel) (by decide +kernel)
  have call : Rules.standard.IsCall ['b'] "OnModelCreatingPartial(b);".toList :=
    ⟨[], "OnModelCreatingPartial(b);".toList, Or.inl rfl,
      ⟨[], [], [], [], rfl, rfl, rfl, rfl, by decide⟩, rfl⟩
  refine ⟨MarkerPair.visible_standard, names, ?_⟩
  rw [mixedBody]
  exact .part (by decide) (gap .region _ (by decide) (by decide) (by decide)) region <|
    .part (by decide) (gap .comment _ (by decide) (by decide) (by decide)) comment <|
    .part (by decide) (gap .statement _ (by decide) (by decide) (by decide))
      ⟨clear (by decide), _, shaped, rfl⟩ <|
    .part (by decide) (gap .code _ (by decide) (by decide) (by decide)) ⟨clear (by decide), code⟩ <|
    .part (by decide) (gap .call _ (by decide) (by decide) (by decide))
      ⟨clear (by decide), call, by decide +kernel⟩ <|
    .blank ⟨by decide, by decide⟩

/-- The statement goes by itself, the other parts but the code with their lines. -/
theorem extract_normal_mixed : Normal .standard ['b'] "   x();".toList := by
  let old : Text :=
    "protected override void OnModelCreating(ModelBuilder b)\n\x7b".toList ++ mixedBody ++ "\x7d\n".toList
  obtain ⟨found, done⟩ :
      (locate .standard "" old).outcome = .ok { blogMethod with body := mixedBody } ∧
        (extract .standard "" old).outcome = .ok "   x();".toList := by
    decide +kernel
  exact extract_normal found done (Or.inl laidOut_mixedBody)

/-- A context in which a comment of the lead follows a statement on its line. -/
def commentContext : Text :=
  ("protected override void OnModelCreating(ModelBuilder b)\n\x7b\n" ++
    "    b.Entity<Blog>(e => \x7b \x7d); // scaffold-merge: keep\n\x7d\n").toList

/-- With the statement gone the comment has the line for itself, and only the next extraction takes it. -/
theorem extract_not_normal :
    ∃ m preserved, (locate .standard "" commentContext).outcome = .ok m ∧
      (extract .standard "" commentContext).outcome = .ok preserved ∧
      MarkerPair.standard.strip preserved = [] ∧ ¬ Normal .standard m.param preserved := by
  let body : Text := "\n    b.Entity<Blog>(e => \x7b \x7d); // scaffold-merge: keep\n".toList
  let preserved : Text := "     // scaffold-merge: keep".toList
  obtain ⟨found, done, gone, some_⟩ :
      (locate .standard "" commentContext).outcome = .ok { blogMethod with body := body } ∧
        (extract .standard "" commentContext).outcome = .ok preserved ∧
        MarkerPair.standard.strip preserved = [] ∧ preserved ≠ [] := by
    decide +kernel
  exact ⟨_, preserved, found, done, gone, fun normal => some_ (normal.markers.symm.trans gone)⟩

end CarryOver

end Regraft
