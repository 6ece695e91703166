import Regraft.Proofs.Entity.Scan

/-!
# Regraft.Proofs.Entity.Join -- scans put together and taken apart

White space after a text ends the anchors in it, so behind a gap the scan starts afresh
(`Scan.append`): the scan of the whole is that of the first text, with its last part running on
into the scan of the second.  It starts afresh as well behind a text that cuts no anchor in two
(`Scan.append_unsplit`).  A cut outside the statements of a body cuts its scan in the same way
(`Scan.split`).
-/

namespace Regraft.Entity

set_option autoImplicit false

open Text

def Segment.prepend (g : Text) : Segment → Segment
  | .statement before s => .statement (g ++ before) s
  | .noLambda before taken => .noLambda (g ++ before) taken
  | .openEnded before taken => .openEnded (g ++ before) taken
  | .unclosed before head depth after => .unclosed (g ++ before) head depth after
  | .rest t => .rest (g ++ t)

def prependFirst (g : Text) : List Segment → List Segment
  | [] => []
  | seg :: more => seg.prepend g :: more

@[simp] theorem Segment.prepend_text (g : Text) (seg : Segment) :
    (seg.prepend g).text = g ++ seg.text := by
  cases seg <;> simp [Segment.prepend, Segment.text]

theorem Segment.prepend_prepend (g₁ g₂ : Text) (seg : Segment) :
    (seg.prepend g₂).prepend g₁ = seg.prepend (g₁ ++ g₂) := by
  cases seg <;> simp [Segment.prepend]

theorem prependFirst_nil (segs : List Segment) : prependFirst [] segs = segs := by
  cases segs with
  | nil => rfl
  | cons seg more => cases seg <;> rfl

theorem prependFirst_prependFirst (g₁ g₂ : Text) (segs : List Segment) :
    prependFirst g₁ (prependFirst g₂ segs) = prependFirst (g₁ ++ g₂) segs := by
  cases segs with
  | nil => rfl
  | cons seg more => simp [prependFirst, Segment.prepend_prepend]

theorem Scan.ne_nil {token t : Text} {segs : List Segment} (h : Scan token t segs) : segs ≠ [] := by
  cases h <;> simp

theorem Scan.text {token t : Text} {segs : List Segment} (inked : Inked token)
    (h : Scan token t segs) : textOf segs = t := by
  rw [← h.segments_eq inked, segments_text]

theorem Scan.text_rest {token t u : Text} {init : List Segment} (inked : Inked token)
    (h : Scan token t (init ++ [.rest u])) : textOf init ++ u = t := by
  have whole := h.text inked
  simpa [Segment.text] using whole

/-- Whether the end of a segment is fixed, whatever the text goes on with; `next` is what it does
go on with. -/
def Segment.Settled (token next : Text) : Segment → Prop
  | .noLambda _ taken => settles 0 (taken.drop token.length) = true
  | .openEnded _ _ => ¬ MayEnd next
  | _ => True

/-- Behind a text that does not take part in an anchor, a scan goes on as it would by itself. -/
theorem Scan.behind_text {token s t : Text} {segs : List Segment}
    (moved : cutAnchor? token (s ++ t) =
      (cutAnchor? token t).map fun (before, found, after) => (s ++ before, found, after))
    (h : Scan token t segs) : Scan token (s ++ t) (prependFirst s segs) := by
  cases h with
  | rest cut =>
      rw [cut] at moved
      exact .rest moved
  | noLambda cut opens scan =>
      rw [cut] at moved
      exact .noLambda moved opens scan
  | unclosed cut opens closes =>
      rw [cut] at moved
      exact .unclosed moved opens closes
  | openEnded cut opens closes ends scan =>
      rw [cut] at moved
      exact .openEnded moved opens closes ends scan
  | statement cut opens closes ends scan =>
      rw [cut] at moved
      exact .statement moved opens closes ends scan

/-- Behind a text without anchor and white space, a scan goes on as it would by itself. -/
theorem Scan.prepend {token s gap t : Text} {segs : List Segment} (inked : Inked token)
    (none_ : cutAnchor? token s = none) (some_ : gap ≠ []) (blank : isBlankText gap = true)
    (h : Scan token t segs) : Scan token (s ++ gap ++ t) (prependFirst (s ++ gap) segs) :=
  h.behind_text (cutAnchor?_separated inked none_ some_ blank)

/-- A segment whose end is fixed is read alike in a longer text, and the scan behind it is one of the
text behind it. -/
theorem Scan.cons_append {token t extra : Text} {seg : Segment} {segs : List Segment}
    (h : Scan token t (seg :: segs)) (some_ : segs ≠ []) (settled : seg.Settled token extra) :
    ∃ more, Scan token more segs ∧ ∀ segs', Scan token (more ++ extra) segs' →
      Scan token (t ++ extra) (seg :: segs') := by
  cases h with
  | rest => exact absurd rfl some_
  | @noLambda _ before found after head more _ cut opens scan =>
      have ends : settles 0 head = true := by
        rwa [Segment.Settled, (cutAnchor?_alike cut).length_eq, List.drop_left] at settled
      have text : t ++ extra = before ++ found ++ (head ++ (more ++ extra)) := by
        rw [cutAnchor?_append cut, seek_none_text opens]
        simp
      refine ⟨more, scan, fun segs' later => ?_⟩
      rw [text]
      exact .noLambda_swap cut opens ends later
  | unclosed => exact absurd rfl some_
  | @openEnded _ before found after head block inner next depth _ cut opens closes ends scan =>
      have text : t ++ extra =
          before ++ found ++ (head ++ '{' :: (inner ++ '}' :: (next ++ extra))) := by
        rw [block_text cut opens closes]
        simp
      refine ⟨next, scan, fun segs' later => ?_⟩
      rw [text]
      exact .openEnded_swap cut opens closes (afterEnd?_none_append ends settled) later
  | @statement _ before found after head block inner tail more depth _ cut opens closes ends scan =>
      have text : t ++ extra =
          before ++ (Statement.mk found head inner tail).text ++ (more ++ extra) := by
        rw [statement_text cut opens closes]
        simp
      refine ⟨more, scan, fun segs' later => ?_⟩
      rw [text]
      exact .statement_swap cut opens closes ends later

/-- Where the last part of a scan runs on as it may, the scan does. -/
theorem Scan.run_on {token s t u v : Text} {init segs : List Segment}
    (first : Scan token s (init ++ [.rest u])) (settled : ∀ seg ∈ init, seg.Settled token t)
    (last : cutAnchor? token u = none → Scan token (u ++ t) (prependFirst v segs)) :
    Scan token (s ++ t) (init ++ prependFirst v segs) := by
  induction init generalizing s with
  | nil =>
      cases first with
      | rest cut => exact last cut
  | cons seg init ih =>
      rw [List.forall_mem_cons] at settled
      obtain ⟨more, later, whole⟩ := Scan.cons_append first (by simp) settled.1
      exact whole _ (ih later settled.2)

/-- Behind a gap of white space the scan starts afresh. -/
theorem Scan.append {token s gap t u : Text} {init segs : List Segment} (inked : Inked token)
    (first : Scan token s (init ++ [.rest u]))
    (settled : ∀ seg ∈ init, seg.Settled token (gap ++ t)) (some_ : gap ≠ [])
    (blank : isBlankText gap = true) (second : Scan token t segs) :
    Scan token (s ++ gap ++ t) (init ++ prependFirst (u ++ gap) segs) := by
  rw [List.append_assoc]
  refine first.run_on settled fun cut => ?_
  rw [← List.append_assoc]
  exact second.prepend inked cut some_ blank

/-- Behind a text that cuts no anchor in two it does as well. -/
theorem Scan.append_unsplit {token s t u : Text} {init segs : List Segment} (inked : Inked token)
    (first : Scan token s (init ++ [.rest u])) (settled : ∀ seg ∈ init, seg.Settled token t)
    (unsplit : Unsplit (Alike token) s) (second : Scan token t segs) :
    Scan token (s ++ t) (init ++ prependFirst u segs) := by
  refine first.run_on settled fun cut => second.behind_text ?_
  have tail : u <:+ s := ⟨textOf init, first.text_rest inked⟩
  exact cutAnchor?_unsplit inked.ne_nil cut (unsplit.suffix tail) t

/-! ## Cutting -/

/-- Whether a body has no anchors but those of entity statements. -/
def OnlyStatements (segs : List Segment) : Prop :=
  ∀ seg ∈ segs, (∃ before s, seg = .statement before s) ∨ ∃ t, seg = .rest t

theorem Statement.block_stop (s : Statement) (start : Nat) :
    (s.block start).stop = start + s.text.length := by
  simp only [Statement.block, Statement.text, List.length_append, List.length_cons]
  omega

theorem Statement.block_start (s : Statement) (start : Nat) :
    (s.block start).anchorStart = start := rfl

/-- A cut outside the statements of a body cuts its scan. -/
theorem Scan.split {token body s t : Text} {segs : List Segment} {offset : Nat}
    (inked : Inked token) (h : Scan token body segs) (only : OnlyStatements segs)
    (e : body = s ++ t)
    (apart : ∀ b ∈ blocksFrom offset segs,
      offset + s.length ≤ b.anchorStart ∨ b.stop ≤ offset + s.length) :
    ∃ init u tail, segs = init ++ prependFirst u tail ∧ Scan token s (init ++ [.rest u]) ∧
      Scan token t tail := by
  induction h generalizing s offset with
  | @rest body cut =>
      rw [e] at cut
      obtain ⟨left, right⟩ := cutAnchor?_none_parts cut
      exact ⟨[], s, [.rest t], by rw [e]; rfl, .rest left, .rest right⟩
  | noLambda =>
      rcases only _ List.mem_cons_self with ⟨_, _, h⟩ | ⟨_, h⟩ <;> cases h
  | unclosed =>
      rcases only _ List.mem_cons_self with ⟨_, _, h⟩ | ⟨_, h⟩ <;> cases h
  | openEnded =>
      rcases only _ List.mem_cons_self with ⟨_, _, h⟩ | ⟨_, h⟩ <;> cases h
  | @statement body before found after head block inner tail more depth parts cut opens closes ends
      scan ih =>
      have whole := statement_text cut opens closes
      have here := apart _ (by rw [blocksFrom]; exact List.mem_cons_self)
      rw [Statement.block_stop, Statement.block_start] at here
      rcases here with early | late
      · -- the cut lies before the anchor
        obtain ⟨more', rfl, left, right⟩ := cutAnchor?_split inked (e ▸ cut) (by omega)
        exact ⟨[], s, .statement more' ⟨found, head, inner, tail⟩ :: parts, rfl, .rest left,
          .statement right opens closes ends scan⟩
      · -- the cut lies behind the statement
        obtain ⟨s', rfl, rest_⟩ : ∃ s',
            s = before ++ (Statement.mk found head inner tail).text ++ s' ∧ more = s' ++ t := by
          refine append_of_length_le (whole.symm.trans e) ?_
          rw [List.length_append]
          omega
        have later : ∀ b ∈ blocksFrom
            (offset + (Segment.statement before ⟨found, head, inner, tail⟩).text.length) parts,
            offset + (Segment.statement before ⟨found, head, inner, tail⟩).text.length + s'.length ≤
                b.anchorStart ∨
              b.stop ≤
                offset + (Segment.statement before ⟨found, head, inner, tail⟩).text.length +
                  s'.length := by
          intro b m
          have := apart b (by rw [blocksFrom]; exact List.mem_cons_of_mem _ m)
          simp only [Segment.text, List.length_append] at this ⊢
          omega
        obtain ⟨init, u, tsegs, rfl, left, right⟩ := ih
          (fun seg m => only seg (List.mem_cons_of_mem _ m)) rest_ later
        exact ⟨.statement before ⟨found, head, inner, tail⟩ :: init, u, tsegs, rfl,
          .statement_swap cut opens closes ends left, right⟩

end Regraft.Entity
