import Regraft.Proofs.Crlf.Grammar
import Regraft.Proofs.Entity.Removal

/-!
# Regraft.Proofs.Crlf.Strip -- stripping texts with carriage returns

Stripping markers and taking out entity statements make of a converted body what they make of the
body, converted (`MarkerPair.strip_crlf`, `Entity.strip_crlf`).  A marked region and a statement are
found between the same characters; the line around a cut ends in a line feed either way, and the
carriage return before it goes where the line feed goes.
-/

namespace Regraft

set_option autoImplicit false

open Text Reader

/-! ## Blocks -/

theorem Brace.closeBlock_crlf (depth : Nat) (t : Text) :
    closeBlock depth (crlf t) =
      (closeBlock depth t).map fun (inner, rest) => (crlf inner, crlf rest) := by
  induction t generalizing depth with
  | nil => rfl
  | cons c t ih =>
      have push (x : Except Nat (Text × Text)) (other : c ≠ '\n') :
          (x.map fun (inner, rest) => (crlf inner, crlf rest)).map
              (fun (inner, rest) => (c :: inner, rest)) =
            (x.map fun (inner, rest) => (c :: inner, rest)).map
              fun (inner, rest) => (crlf inner, crlf rest) := by
        cases x <;> simp [Except.map, crlf_cons other]
      by_cases feed : c = '\n'
      · subst feed
        have brace : ('\r' ≠ '{' ∧ '\r' ≠ '}') ∧ '\n' ≠ '{' ∧ '\n' ≠ '}' := by decide
        simp only [crlf_feed, closeBlock, if_neg brace.1.1, if_neg brace.1.2, if_neg brace.2.1,
          if_neg brace.2.2, ih]
        cases closeBlock depth t <;> simp [Except.map]
      · simp only [crlf_cons feed, closeBlock]
        split
        · rw [ih, push _ feed]
        · split
          · cases depth with
            | zero => rfl
            | succ outer => exact (congrArg _ (ih outer)).trans (push _ feed)
          · rw [ih, push _ feed]

/-! ## Markers -/

namespace MarkerPair

theorem afterLine_crlf {t : Text} (plain : '\r' ∉ t) : afterLine (crlf t) = crlf (afterLine t) := by
  induction t with
  | nil => rfl
  | cons c t ih =>
      rw [List.mem_cons, not_or] at plain
      by_cases feed : c = '\n'
      · subst feed
        rfl
      · have ret : c ≠ '\r' := fun e => plain.1 e.symm
        have other (u : Text) : afterLine (c :: u) = afterLine u := by
          rw [afterLine]
          · exact feed
          · exact fun _ e => absurd e ret
          · exact ret
        rw [crlf_cons feed, other, other, ih plain.2]

theorem dropBlankTail_crlf (t : Text) : dropBlankTail (crlf t) = crlf (dropBlankTail t) := by
  simp only [dropBlankTail, splitLastLine_crlf, isBlankText_crlf]
  split <;> rfl

/-- The comments of a pair and its lead lie in one line each. -/
structure OneLine (m : MarkerPair) : Prop where
  opening : Text.OneLine m.opening
  closing : Text.OneLine m.closing
  lead : Text.OneLine m.lead

theorem oneLine_standard : standard.OneLine := by
  constructor <;> decide +kernel

section
variable {m : MarkerPair} (line : m.OneLine)
include line

theorem dropMarker_crlf {after : Text} (plain : '\r' ∉ after) :
    m.dropMarker (crlf after) = crlf (m.dropMarker after) := by
  have here : m.opening ++ crlf after = crlf (m.opening ++ after) := by
    rw [crlf_append, crlf_of_oneLine line.opening]
  have plain' : '\r' ∉ m.opening ++ after := by
    rw [List.mem_append, not_or]
    exact ⟨fun mem => (line.opening _ mem).1 rfl, plain⟩
  simp only [dropMarker, here, afterLine_crlf plain', crlf_length_lt (afterLine_suffix _)]
  split <;> rfl

theorem cut?_crlf {body : Text} (plain : '\r' ∉ body) :
    (m.cut? (crlf body)).map Cut.left = (m.cut? body).map fun c => crlf c.left := by
  simp only [cut?, cutAt?_crlf line.opening m.opening_ne_nil]
  cases opened : cutAt? m.opening body with
  | none => rfl
  | some p =>
      obtain ⟨before, after⟩ := p
      have parts := cutAt?_append opened
      have plainAfter : '\r' ∉ after := not_mem_of_suffix plain ⟨_, parts.symm⟩
      simp only [Option.map_some, cutAt?_crlf line.closing m.closing_ne_nil]
      cases cutAt? m.closing after with
      | none => simp [Cut.left, dropBlankTail_crlf, dropMarker_crlf line plainAfter]
      | some q => simp [Cut.left]

theorem removeRegions_crlf {body : Text} (plain : '\r' ∉ body) :
    m.removeRegions (crlf body) = crlf (m.removeRegions body) := by
  have here := cut?_crlf line plain
  fun_induction removeRegions m body with
  | case1 body uncut =>
      rw [uncut, Option.map_none, Option.map_eq_none_iff] at here
      rw [removeRegions]
      split
      · rfl
      · rename_i cut
        rw [here] at cut
        cases cut
  | case2 body c cut ih =>
      have plain' : '\r' ∉ c.left := fun mem => plain ((cut?_sublist cut).subset mem)
      rw [cut, Option.map_some, Option.map_eq_some_iff] at here
      obtain ⟨c', cut', left⟩ := here
      rw [removeRegions_of_cut cut', left, ih plain' (cut?_crlf line plain')]

theorem removeLeadLines_crlf {body : Text} (plain : '\r' ∉ body) :
    m.removeLeadLines (crlf body) = crlf (m.removeLeadLines body) := by
  simp only [removeLeadLines]
  split
  · rfl
  · rename_i some_
    exact remove_crlf (walks_leadLine (fun none_ => some_ (by rw [none_]; rfl)) line.lead) plain

theorem stripOnce_crlf {body : Text} (plain : '\r' ∉ body) :
    m.stripOnce (crlf body) = crlf (m.stripOnce body) := by
  have plain' : '\r' ∉ m.removeRegions body :=
    fun mem => plain ((m.removeRegions_sublist body).subset mem)
  rw [stripOnce, removeRegions_crlf line plain, removeLeadLines_crlf line plain', stripOnce]

/-- The rounds over a converted body end when the rounds over the body do. -/
theorem strip_crlf {body : Text} (plain : '\r' ∉ body) :
    m.strip (crlf body) = crlf (m.strip body) := by
  fun_induction strip m body with
  | case1 body done =>
      exact strip_of_stripOnce (by rw [stripOnce_crlf line plain, done])
  | case2 body more ih =>
      have plain' : '\r' ∉ m.stripOnce body :=
        fun mem => plain ((m.stripOnce_sublist body).subset mem)
      have more' : m.stripOnce (crlf body) ≠ crlf body := by
        rwa [stripOnce_crlf line plain, ne_eq, crlf_inj plain' plain]
      rw [strip, dif_neg more', stripOnce_crlf line plain, ih plain']

end

theorem strip_sublist (m : MarkerPair) (body : Text) : (m.strip body).Sublist body := by
  fun_induction strip m body with
  | case1 body done => exact List.Sublist.refl _
  | case2 body more ih => exact ih.trans (m.stripOnce_sublist body)

end MarkerPair

/-! ## Entity statements -/

namespace Entity

variable {token : Text}

theorem afterFolded?_crlf (inked : ∀ a ∈ token, isBlank a = false) (t : Text) :
    afterFolded? token (crlf t) = (afterFolded? token t).map crlf := by
  induction token generalizing t with
  | nil => rfl
  | cons a token ih =>
      have other {c : Char} (blank : isBlank c = true) : foldEq a c = false := by
        rw [← Bool.not_eq_true]
        intro same
        have inkedHere := inked a List.mem_cons_self
        rw [eq_of_foldEq same (Or.inr (isCaseless_of_isBlank blank)), blank] at inkedHere
        cases inkedHere
      cases t with
      | nil => rfl
      | cons c t =>
          by_cases feed : c = '\n'
          · subst feed
            have blank : isBlank '\r' = true ∧ isBlank '\n' = true := by decide
            simp [afterFolded?, other blank.1, other blank.2]
          · simp only [crlf_cons feed, afterFolded?]
            split
            · exact ih (fun d m => inked d (List.mem_cons_of_mem a m)) t
            · rfl

theorem cutAnchor?_crlf (inked : Inked token) (t : Text) :
    cutAnchor? token (crlf t) =
      (cutAnchor? token t).map fun (before, found, rest) => (crlf before, crlf found, crlf rest) := by
  induction t with
  | nil => rw [crlf_nil, cutAnchor?_nil inked, Option.map_none]
  | cons c t ih =>
      by_cases feed : c = '\n'
      · subst feed
        have blank : isBlankText ['\r', '\n'] = true ∧ isBlankText ['\n'] = true := by decide
        have pair := cutAnchor?_separated (t := crlf t) inked (cutAnchor?_nil inked) (by simp) blank.1
        have single := cutAnchor?_separated (t := t) inked (cutAnchor?_nil inked) (by simp) blank.2
        simp only [List.nil_append, List.cons_append] at pair single
        rw [crlf_feed, pair, single, ih]
        cases cutAnchor? token t <;> rfl
      · have here := afterFolded?_crlf inked.not_blank (c :: t)
        rw [crlf_cons feed] at here ⊢
        simp only [cutAnchor?, here]
        cases found : afterFolded? token (c :: t) with
        | some rest =>
            have suffix : rest <:+ c :: t := by
              obtain ⟨front, -, parts⟩ := afterFolded?_eq_some.1 found
              exact ⟨front, parts.symm⟩
            simp [← crlf_cons feed, taken_crlf suffix]
        | none =>
            simp only [Option.map_none, ih]
            cases cutAnchor? token t <;> simp [crlf_cons feed]

def Opening.crlf : Opening → Opening
  | .block head depth after => .block (Text.crlf head) depth (Text.crlf after)
  | .none head rest => .none (Text.crlf head) (Text.crlf rest)

theorem push_crlf {c : Char} (other : c ≠ '\n') (o : Opening) :
    o.crlf.push c = (o.push c).crlf := by
  cases o <;> simp [Opening.push, Opening.crlf, crlf_cons other]

theorem seek_crlf (depth : Nat) (t : Text) : seek depth (crlf t) = (seek depth t).crlf := by
  induction t generalizing depth with
  | nil => rfl
  | cons c t ih =>
      by_cases feed : c = '\n'
      · subst feed
        have pass {c : Char} (white : isBlank c = true) (u : Text) :
            seek depth (c :: u) = (seek depth u).push c := by
          rw [seek_cons, headStep?_of_isBlank white, Option.elim_some]
        rw [crlf_feed, pass (by decide), pass (by decide), pass (by decide), ih]
        cases seek depth t <;> rfl
      · have last : crlf [c] = [c] := by rw [crlf_cons feed, crlf_nil]
        rw [crlf_cons feed, seek_cons, seek_cons]
        cases headStep? depth c with
        | some inside => rw [Option.elim_some, Option.elim_some, ih, push_crlf feed]
        | none =>
            rw [Option.elim_none, Option.elim_none]
            split
            · rfl
            · rw [Opening.crlf, last]

/-- The character at which a statement goes on is no line feed. -/
theorem trimStart_crlf_cons {t rest : Text} {c : Char} (h : trimStart t = c :: rest) :
    trimStart (crlf t) = c :: crlf rest := by
  obtain ⟨-, -, -, inked⟩ := trimStart_eq_cons h
  have other : c ≠ '\n' := by
    rintro rfl
    cases inked
  rw [trimStart_crlf, h, crlf_cons other]

theorem afterEnd?_crlf (parens : Nat) (t : Text) :
    afterEnd? parens (crlf t) = (afterEnd? parens t).map crlf := by
  have blank {t : Text} (h : trimStart t = []) : trimStart (crlf t) = [] := by
    rw [trimStart_crlf, h, crlf_nil]
  induction parens generalizing t with
  | zero =>
      cases e : trimStart t with
      | nil => rw [afterEnd?_of_blank e, afterEnd?_of_blank (blank e), Option.map_none]
      | cons c rest =>
          rw [afterEnd?_zero_of_cons e, afterEnd?_zero_of_cons (trimStart_crlf_cons e)]
          split <;> rfl
  | succ parens ih =>
      cases e : trimStart t with
      | nil => rw [afterEnd?_of_blank e, afterEnd?_of_blank (blank e), Option.map_none]
      | cons c rest =>
          rw [afterEnd?_succ_of_cons e, afterEnd?_succ_of_cons (trimStart_crlf_cons e)]
          split
          · exact ih rest
          · rfl

def Segment.crlf : Segment → Segment
  | .statement before s =>
      .statement (Text.crlf before)
        ⟨Text.crlf s.anchor, Text.crlf s.head, Text.crlf s.inner, Text.crlf s.tail⟩
  | .noLambda before taken => .noLambda (Text.crlf before) (Text.crlf taken)
  | .openEnded before taken => .openEnded (Text.crlf before) (Text.crlf taken)
  | .unclosed before head depth after =>
      .unclosed (Text.crlf before) (Text.crlf head) depth (Text.crlf after)
  | .rest t => .rest (Text.crlf t)

theorem text_crlf (seg : Segment) : seg.crlf.text = crlf seg.text := by
  have brace : ('{' : Char) ≠ '\n' ∧ ('}' : Char) ≠ '\n' := by decide
  cases seg <;>
    simp [Segment.crlf, Segment.text, Statement.text, crlf_cons brace.1, crlf_cons brace.2]

theorem textOf_crlf (segs : List Segment) : textOf (segs.map Segment.crlf) = crlf (textOf segs) := by
  induction segs with
  | nil => rfl
  | cons seg more ih => rw [List.map_cons, textOf_cons, textOf_cons, crlf_append, ih, text_crlf]

/-- The scan goes over a converted body as it goes over the body. -/
theorem scan_crlf (inked : Inked token) {body : Text} {segs : List Segment}
    (scan : Scan token body segs) :
    Scan token (crlf body) (segs.map Segment.crlf) := by
  have brace : ('{' : Char) ≠ '\n' ∧ ('}' : Char) ≠ '\n' := by decide
  have cutHere {t : Text} {r : Option (Text × Text × Text)} (cut : cutAnchor? token t = r) :
      cutAnchor? token (crlf t) = r.map fun (b, f, a) => (crlf b, crlf f, crlf a) :=
    cut ▸ cutAnchor?_crlf inked t
  have seekHere {t : Text} {o : Opening} (opens : seek 0 t = o) : seek 0 (crlf t) = o.crlf :=
    opens ▸ seek_crlf 0 t
  have closeHere {t : Text} {r : Except Nat (Text × Text)} (closes : Brace.closeBlock 0 t = r) :
      Brace.closeBlock 0 (crlf t) = r.map fun (inner, rest) => (crlf inner, crlf rest) :=
    closes ▸ Brace.closeBlock_crlf 0 t
  induction scan with
  | rest cut => exact .rest (cutHere cut)
  | noLambda cut opens _ ih =>
      have here := Scan.noLambda (cutHere cut) (seekHere opens) ih
      simpa [Segment.crlf] using here
  | unclosed cut opens closes =>
      have here := Scan.unclosed (cutHere cut) (seekHere opens) (closeHere closes)
      simpa [Segment.crlf] using here
  | @openEnded _ _ _ _ _ _ _ next depth _ cut opens closes ends _ ih =>
      have ends' := afterEnd?_crlf depth next
      rw [ends, Option.map_none] at ends'
      have here := Scan.openEnded (cutHere cut) (seekHere opens) (closeHere closes) ends' ih
      simpa [Segment.crlf, crlf_cons brace.1, crlf_cons brace.2] using here
  | @statement _ _ _ _ _ _ _ tail more depth _ cut opens closes ends _ ih =>
      have ends' := afterEnd?_crlf depth (tail ++ more)
      rw [ends, Option.map_some, crlf_append] at ends'
      have closes' := closeHere closes
      simp only [Except.map, crlf_append] at closes'
      exact Scan.statement (cutHere cut) (seekHere opens) closes' ends' ih

theorem segments_crlf (inked : Inked token) (body : Text) :
    segments token (crlf body) = (segments token body).map Segment.crlf :=
  (scan_crlf inked (scan_segments inked body)).segments_eq inked

theorem failureFrom?_crlf (offset offset' : Nat) (segs : List Segment) :
    (failureFrom? offset' (segs.map Segment.crlf)).map Failure.kind =
      (failureFrom? offset segs).map Failure.kind := by
  induction segs generalizing offset offset' with
  | nil => rfl
  | cons seg more ih =>
      cases seg with
      | unclosed => rfl
      | _ => exact ih _ _

theorem statementCount_crlf (segs : List Segment) :
    statementCount (segs.map Segment.crlf) = statementCount segs := by
  rw [statementCount, List.countP_map]
  refine List.countP_congr fun seg _ => ?_
  cases seg <;> rfl

theorem lineTail?_crlf {t : Text} (plain : '\r' ∉ t) :
    lineTail? (crlf t) = (lineTail? t).map fun n => (crlf (t.take n)).length := by
  induction t with
  | nil => rfl
  | cons c t ih =>
      rw [List.mem_cons, not_or] at plain
      by_cases feed : c = '\n'
      · subst feed
        rfl
      · rw [crlf_cons feed]
        cases indent : isIndent c with
        | true =>
            rw [lineTail?_indent indent, lineTail?_indent indent, ih plain.2]
            cases lineTail? t <;> simp [crlf_cons feed]
        | false =>
            have ret : c ≠ '\r' := fun e => plain.1 e.symm
            rw [lineTail?_other indent, lineTail?_other indent]
            simp [feed, ret]

/-- Before a statement the converted text stays, and as much goes behind it. -/
theorem keptBefore_crlf {before text next : Text} (front : before <+: text) (skip : Nat)
    (plain : '\r' ∉ next) :
    keptBefore (crlf (text.take skip)).length (crlf before) (crlf next) =
      (crlf (keptBefore skip before next).1,
        (crlf (next.take (keptBefore skip before next).2)).length) := by
  simp only [keptBefore, crlf_drop_prefix front, splitLastLine_crlf, isBlankText_crlf,
    lineTail?_crlf plain]
  split
  · cases lineTail? next <;> rfl
  · rfl

theorem removeFrom_crlf {segs : List Segment} (plain : '\r' ∉ textOf segs) (skip : Nat) :
    removeFrom (crlf ((textOf segs).take skip)).length (segs.map Segment.crlf) =
      crlf (removeFrom skip segs) := by
  induction segs generalizing skip with
  | nil => rfl
  | cons seg more ih =>
      have plainMore : '\r' ∉ textOf more := not_mem_of_suffix plain ⟨seg.text, rfl⟩
      have start := ih plainMore 0
      rw [List.take_zero, crlf_nil, List.length_nil] at start
      cases seg with
      | statement before s =>
          have front : before <+: textOf (.statement before s :: more) := by
            rw [textOf_cons, Segment.text, List.append_assoc]
            exact List.prefix_append ..
          rw [List.map_cons, Segment.crlf, removeFrom_statement, removeFrom_statement, textOf_crlf,
            keptBefore_crlf front skip plainMore, crlf_append, ih plainMore]
      | _ =>
          rw [List.map_cons, removeFrom_other (by simp [Segment.crlf]), removeFrom_other (by simp),
            text_crlf, textOf_cons, crlf_drop_prefix (List.prefix_append ..), start, crlf_append]

theorem removeFrom_sublist (skip : Nat) (segs : List Segment) :
    (removeFrom skip segs).Sublist (textOf segs) := by
  induction segs generalizing skip with
  | nil => exact List.Sublist.refl _
  | cons seg more ih =>
      cases seg with
      | statement before s =>
          rw [removeFrom_statement, textOf_cons]
          refine List.Sublist.append ?_ (ih _)
          have kept : (keptBefore skip before (textOf more)).1.Sublist before := by
            rcases keptBefore_cases skip before (textOf more) with e | ⟨whole, last, n, parts, -, -, -, e⟩
            · rw [e]
              exact List.drop_sublist ..
            · rw [e]
              exact (List.sublist_append_left whole last).trans (parts ▸ List.drop_sublist ..)
          exact kept.trans (List.sublist_append_left ..)
      | _ =>
          rw [removeFrom_other (by simp), textOf_cons]
          exact (List.drop_sublist ..).append (ih 0)

theorem collapse_crlf {t : Text} (plain : '\r' ∉ t) : collapse (crlf t) = crlf (collapse t) := by
  rw [collapse, collapse]
  exact replace_crlf walks_lineEnds (fun _ first => (crlf_append first first).symm) plain

theorem collapse_subset (t : Text) : collapse t ⊆ t := by
  induction length : t.length using Nat.strongRecOn generalizing t with
  | ind n ih =>
      cases t with
      | nil => rw [collapse_nil]; exact List.Subset.refl _
      | cons c t =>
          rcases collapse_cases c t with e | ⟨first, more, rest, -, -, parts, shorter, e⟩
          · rw [e]
            exact List.cons_subset_cons c (ih t.length (by simp at length; omega) t rfl)
          · have later := ih rest.length (by omega) rest rfl
            rw [e, parts]
            intro d m
            simp only [List.mem_append] at m ⊢
            exact m.imp (fun m => Or.inl (or_self_iff.1 m)) fun m => later m

theorem tidy_crlf (n : Nat) {t : Text} (plain : '\r' ∉ t) : tidy n (crlf t) = crlf (tidy n t) := by
  rw [tidy, tidy]
  split
  · rfl
  · exact collapse_crlf plain

theorem tidy_subset (n : Nat) (t : Text) : tidy n t ⊆ t := by
  rw [tidy]
  split
  · exact List.Subset.refl _
  · exact collapse_subset t

theorem strip_crlf (inked : Inked token) {body : Text} (plain : '\r' ∉ body) :
    (strip token (crlf body)).mapError Failure.kind =
      ((strip token body).mapError Failure.kind).map crlf := by
  have scanned := segments_text token body
  have kinds := failureFrom?_crlf 0 0 (segments token body)
  have kept := removeFrom_crlf (scanned.symm ▸ plain) 0
  have plainKept : '\r' ∉ removeFrom 0 (segments token body) :=
    fun m => plain (scanned ▸ (removeFrom_sublist 0 _).subset m)
  rw [List.take_zero, crlf_nil, List.length_nil] at kept
  rw [← segments_crlf inked] at kinds kept
  cases closed : failureFrom? 0 (segments token body) with
  | none =>
      rw [closed, Option.map_none, Option.map_eq_none_iff] at kinds
      rw [strip_eq closed, strip_eq kinds, kept, segments_crlf inked, statementCount_crlf,
        tidy_crlf _ plainKept]
      rfl
  | some failure =>
      rw [closed, Option.map_some, Option.map_eq_some_iff] at kinds
      obtain ⟨failure', closed', kind⟩ := kinds
      simp only [strip, closed, closed', Except.mapError, kind, Except.map]

/-- What stays of a body has its characters. -/
theorem strip_subset {body kept : Text} (done : strip token body = .ok kept) : kept ⊆ body := by
  cases closed : failureFrom? 0 (segments token body) with
  | none =>
      rw [strip_eq closed, Except.ok.injEq] at done
      intro c m
      have here := (removeFrom_sublist 0 (segments token body)).subset (tidy_subset _ _ (done.symm ▸ m))
      rwa [segments_text] at here
  | some failure =>
      simp only [strip, closed] at done
      cases done

end Entity

end Regraft
