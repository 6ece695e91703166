import Regraft.Marker.Strip
import Regraft.Proofs.Local
import Regraft.Proofs.Text.Layout
import Regraft.Proofs.Text.Lines

/-!
# Regraft.Proofs.Marker -- what stripping markers does

A body without opening marker and without lines of the lead is left alone (`strip_of_unmarked`), and
what insertion puts around carried-over code is stripped down to one blank line before the code and
the end of its last line (`strip_banner`).  The second is for ordinary markers, which lie in one line
and do not start with indentation; the standard ones are (`ordinary_standard`).
-/

namespace Regraft.MarkerPair

set_option autoImplicit false

open Text Reader

/-! ## Bodies without markers -/

theorem cut?_of_no_opening {m : MarkerPair} {body : Text} (none_ : ¬ m.opening <:+: body) :
    m.cut? body = none := by
  rw [cut?, cutAt?_eq_none.2 none_]

theorem removeRegions_of_no_opening {m : MarkerPair} {body : Text}
    (none_ : ¬ m.opening <:+: body) : m.removeRegions body = body := by
  rw [removeRegions]
  split
  · rfl
  · rename_i h
    rw [cut?_of_no_opening none_] at h
    cases h

theorem removeRegions_of_cut {m : MarkerPair} {body : Text} {c : Cut} (cut : m.cut? body = some c) :
    m.removeRegions body = m.removeRegions c.left := by
  rw [removeRegions]
  split
  · rename_i uncut
    rw [cut] at uncut
    cases uncut
  · rename_i c' cut'
    rw [cut, Option.some.injEq] at cut'
    rw [cut']

/-- A body that a round leaves alone has no opening marker. -/
theorem not_opening_of_stripOnce {m : MarkerPair} {body : Text} (fixed : m.stripOnce body = body) :
    ¬ m.opening <:+: body := by
  have uncut : m.cut? body = none := by
    cases cut : m.cut? body with
    | none => rfl
    | some c =>
        have round : m.stripOnce body = m.stripOnce c.left := by
          rw [stripOnce, stripOnce, removeRegions_of_cut cut]
        have short := cut?_length cut
        have left := (m.stripOnce_sublist c.left).length_le
        rw [← round, fixed] at left
        omega
  rw [← cutAt?_eq_none]
  cases opened : cutAt? m.opening body with
  | none => rfl
  | some p =>
      obtain ⟨before, after⟩ := p
      simp only [cut?, opened] at uncut
      split at uncut <;> cases uncut

/-- Without opening marker and without lines of the lead there is nothing to strip. -/
theorem strip_of_unmarked {m : MarkerPair} {body : Text} (noOpening : ¬ m.opening <:+: body)
    (noLead : m.lead ≠ [] → occurrences (leadLine m.lead) body = []) : m.strip body = body := by
  refine strip_of_stripOnce ?_
  rw [stripOnce, removeRegions_of_no_opening noOpening, removeLeadLines]
  split
  · rfl
  · rename_i lead
    exact remove_of_occurrences (leadLine_suffixed m.lead)
      (noLead fun none_ => lead (by rw [none_]; rfl))

/-! ## Lines of the lead -/

theorem mem_leadLine {lead : Text} {before : Option Char} {t rest : Text} :
    ((), rest) ∈ leadLine lead before t ↔
      (before = none ∨ before = some '\n') ∧
        ∃ ind more e, (∀ c ∈ ind, isIndent c = true) ∧ (∀ c ∈ more, c ≠ '\r' ∧ c ≠ '\n') ∧
          (IsLineEnd e ∨ e = [] ∧ rest = []) ∧ t = ind ++ lead ++ more ++ e ++ rest := by
  simp only [leadLine, mem_bind, exists_unit, mem_when, mem_indent, mem_literal, mem_skip,
    mem_orElse, mem_lineEnd, mem_pure, mem_textEnd, Bool.or_eq_true, beq_iff_eq, Bool.and_eq_true,
    bne_iff_ne, ne_eq]
  constructor
  · rintro ⟨_, ⟨start, rfl⟩, m₁, ⟨ind, rfl, hi⟩, m₂, rfl, m₃, ⟨more, rfl, hm⟩, ends⟩
    refine ⟨start, ?_⟩
    rcases ends with ⟨e, m₄, ⟨he, rfl⟩, -, rfl⟩ | ⟨rfl, rfl⟩
    · exact ⟨ind, more, e, hi, hm, Or.inl he, by simp⟩
    · exact ⟨ind, more, [], hi, hm, Or.inr ⟨rfl, rfl⟩, by simp⟩
  · rintro ⟨start, ind, more, e, hi, hm, ends, rfl⟩
    refine ⟨_, ⟨start, rfl⟩, lead ++ more ++ e ++ rest, ⟨ind, by simp, hi⟩, more ++ e ++ rest,
      by simp, e ++ rest, ⟨more, by simp, hm⟩, ?_⟩
    rcases ends with he | ⟨rfl, rfl⟩
    · exact Or.inl ⟨e, rest, ⟨he, rfl⟩, trivial, rfl⟩
    · exact Or.inr ⟨rfl, rfl⟩

theorem atLineStart_of_mem_leadLine {lead front t rest : Text} {before : Option Char}
    (read : ((), rest) ∈ leadLine lead (front.getLast?.or before) t) : AtLineStart front := by
  rcases (mem_leadLine.1 read).1 with none_ | feed
  · exact Or.inl (by simpa using (Option.or_eq_none_iff.1 none_).1)
  · cases last : front.getLast? with
    | none => exact Or.inl (by simpa using last)
    | some c =>
        rw [last, Option.some_or, Option.some.injEq] at feed
        exact Or.inr (by rw [last, feed])

theorem leadLine_consuming {lead : Text} (some_ : lead ≠ []) : Consuming (leadLine lead) := by
  rintro before t ⟨⟨⟩, rest⟩ m
  have long := List.length_pos_iff.2 some_
  obtain ⟨-, ind, more, e, -, -, -, rfl⟩ := mem_leadLine.1 m
  simp only [List.length_append]
  omega

/-- Whether `rest` is what a text has behind its first line and the end of that line, where it has
one. -/
def BehindLine (t rest : Text) : Prop :=
  ∃ b z, (∀ c ∈ b, c ≠ '\r' ∧ c ≠ '\n') ∧ t = b ++ z ∧
    ((∃ e, IsLineEnd e ∧ z = e ++ rest) ∨ z = [] ∧ rest = [])

theorem BehindLine.suffix {t rest : Text} (h : BehindLine t rest) : rest <:+ t := by
  obtain ⟨b, z, -, rfl, ⟨e, -, rfl⟩ | ⟨rfl, rfl⟩⟩ := h
  · exact (List.suffix_append e rest).trans (List.suffix_append b _)
  · exact List.nil_suffix

theorem exists_behindLine {t : Text} (whole : WholeLineEnds t) : ∃ rest, BehindLine t rest := by
  induction t with
  | nil => exact ⟨[], [], [], by simp, rfl, Or.inr ⟨rfl, rfl⟩⟩
  | cons c t ih =>
      by_cases feed : c = '\n'
      · exact ⟨t, [], c :: t, by simp, rfl, Or.inl ⟨['\n'], Or.inr rfl, by rw [feed]; rfl⟩⟩
      by_cases ret : c = '\r'
      · subst ret
        have next := whole t List.suffix_rfl
        cases t with
        | nil => cases next
        | cons d t =>
            obtain rfl := Option.some.inj next
            exact ⟨t, [], '\r' :: '\n' :: t, by simp, rfl, Or.inl ⟨['\r', '\n'], Or.inl rfl, rfl⟩⟩
      · obtain ⟨rest, b, z, hb, rfl, ends⟩ := ih (WholeLineEnds.right (s := [c]) whole)
        exact ⟨rest, c :: b, z, List.forall_mem_cons.2 ⟨⟨ret, feed⟩, hb⟩, rfl, ends⟩

theorem opensWith_of_mem_leadLine {lead : Text} (isLead : IsLead lead) {before : Option Char}
    {t rest : Text} (m : ((), rest) ∈ leadLine lead before t) : opensWith lead t = true := by
  obtain ⟨-, ind, more, e, hi, -, -, rfl⟩ := mem_leadLine.1 m
  exact (opensWith_iff isLead).2 ⟨ind, more ++ e ++ rest, hi, by simp⟩

/-- Where no line starts with the lead, none is read, whatever comes behind the last line feed. -/
theorem silent_leadLine {lead : Text} (isLead : IsLead lead) {t more : Text}
    (none_ : leadsLine lead t = false) (start : more = [] ∨ AtLineStart t) (before : Option Char) :
    SilentBefore (leadLine lead) before t more := by
  intro front c back e
  refine List.eq_nil_iff_forall_not_mem.2 fun p m => ?_
  obtain ⟨⟨⟩, rest⟩ := p
  have atStart := atLineStart_of_mem_leadLine m
  have opens : opensWith lead (c :: back) = true := by
    have whole := opensWith_of_mem_leadLine isLead m
    rcases start with rfl | rfl | feed
    · rwa [List.append_nil] at whole
    · simp at e
    · have last : (c :: back).getLast? = some '\n' := by
        rwa [e, List.getLast?_append_cons] at feed
      obtain ⟨line, e'⟩ := List.getLast?_eq_some_iff.1 last
      rw [e', List.append_assoc, List.singleton_append, opensWith_feed isLead] at whole
      rw [e']
      exact opensWith_append isLead whole _
  have later : leadsLine lead (c :: back) = false := leadsLine_right isLead atStart (e ▸ none_)
  rw [leadsLine, opens] at later
  cases later

theorem removeLeadLines_eq_leftFrom {m : MarkerPair} (led : m.lead ≠ []) (body : Text) :
    m.removeLeadLines body = leftFrom (leadLine m.lead) none body := by
  rw [removeLeadLines, if_neg (by simpa using led), remove_eq_leftFrom]

/-- In a text that a round leaves alone no line of the lead starts. -/
theorem silent_of_stripOnce {m : MarkerPair} {body : Text} (fixed : m.stripOnce body = body)
    (some_ : m.lead ≠ []) : SilentBefore (leadLine m.lead) none body [] := by
  have lines := fixed
  rw [stripOnce, removeRegions_of_no_opening (not_opening_of_stripOnce fixed),
    removeLeadLines_eq_leftFrom some_] at lines
  exact silent_of_leftFrom (leadLine_suffixed m.lead) (leadLine_consuming some_) lines

theorem removeLeadLines_of_none {m : MarkerPair} (isLead : IsLead m.lead) {body : Text}
    (none_ : leadsLine m.lead body = false) : m.removeLeadLines body = body := by
  rw [removeLeadLines_eq_leftFrom isLead.ne_nil]
  exact leftFrom_of_silent (silent_leadLine isLead none_ (Or.inl rfl) none)

/-- A line of the lead is read to its end and no other way. -/
theorem leadLine_unique {lead ind more e rest rest' : Text} (isLead : IsLead lead)
    {before : Option Char} (hi : ∀ c ∈ ind, isIndent c = true)
    (hm : ∀ c ∈ more, c ≠ '\r' ∧ c ≠ '\n') (he : IsLineEnd e ∨ e = [] ∧ rest = [])
    (m : ((), rest') ∈ leadLine lead before (ind ++ lead ++ more ++ e ++ rest)) : rest' = rest := by
  obtain ⟨-, ind', more', e', hi', hm', he', same⟩ := mem_leadLine.1 m
  have behind (x : Text) : ∀ c, (lead ++ x).head? = some c → isIndent c = false := by
    intro c head
    cases e : lead with
    | nil => exact absurd e isLead.ne_nil
    | cons d lead' =>
        rw [e] at head
        obtain rfl := Option.some.inj head
        exact isLead.head d (by rw [e]; rfl)
  have stops {e x : Text} (he : IsLineEnd e ∨ e = [] ∧ x = []) :
      ∀ c, (e ++ x).head? = some c → (c != '\r' && c != '\n') = false := by
    rcases he with (rfl | rfl) | ⟨rfl, rfl⟩ <;> intro c head
    · obtain rfl := Option.some.inj head
      decide
    · obtain rfl := Option.some.inj head
      decide
    · cases head
  have inLine {s : Text} (hs : ∀ c ∈ s, c ≠ '\r' ∧ c ≠ '\n') :
      ∀ c ∈ s, (c != '\r' && c != '\n') = true := by
    intro c m
    simp [hs c m]
  simp only [List.append_assoc] at same
  obtain ⟨-, same⟩ := append_inj_of_kind same hi hi' (behind _) (behind _)
  obtain ⟨-, same⟩ := append_inj_of_kind (List.append_cancel_left same) (inLine hm) (inLine hm')
    (stops he) (stops he')
  rcases he with he | ⟨rfl, rfl⟩ <;> rcases he' with he' | ⟨rfl, rfl⟩
  · exact (isLineEnd_append_inj same he he').2.symm
  · rcases he with rfl | rfl <;> simp at same
  · rcases he' with rfl | rfl <;> simp at same
  · rfl

/-- A line of the lead goes, with the rest of it and its end. -/
theorem leftFrom_leadLine {lead ind more e rest : Text} (isLead : IsLead lead)
    {before : Option Char} (start : before = none ∨ before = some '\n')
    (hi : ∀ c ∈ ind, isIndent c = true) (hm : ∀ c ∈ more, c ≠ '\r' ∧ c ≠ '\n')
    (ends : IsLineEnd e ∨ e = [] ∧ rest = []) :
    leftFrom (leadLine lead) before (ind ++ lead ++ more ++ e ++ rest) =
      leftFrom (leadLine lead) (ind ++ lead ++ more ++ e).getLast? rest := by
  have read : ((), rest) ∈ leadLine lead before (ind ++ lead ++ more ++ e ++ rest) :=
    mem_leadLine.2 ⟨start, ind, more, e, hi, hm, ends, rfl⟩
  have shorter : rest.length < (ind ++ lead ++ more ++ e ++ rest).length := by
    have := List.length_pos_iff.2 isLead.ne_nil
    simp only [List.length_append]
    omega
  rw [leftFrom_of_reading (List.ne_nil_of_mem read)
    (fun p m => leadLine_unique isLead hi hm ends m) shorter, Text.taken_append]

/-! ## Banners -/

/-- Markers that lie in one line, do not start with indentation and are not in the words around
carried-over code. -/
structure Ordinary (m : MarkerPair) : Prop where
  opening : IsLead m.opening
  opening_last : ∀ c, m.opening.getLast? = some c → isBlank c = false
  closing : IsLead m.closing
  lead : IsLead m.lead
  notice : ∀ line ∈ noticeLines, ¬ m.closing <:+: line
  footer : ¬ m.opening <:+: m.footer
  footer_line : ∀ c ∈ m.footer, c ≠ '\r' ∧ c ≠ '\n'

theorem isLead_of_head {lead t : Text} {c : Char} (e : lead = c :: t)
    (other : isIndent c = false) (noFeed : '\n' ∉ lead) : IsLead lead where
  ne_nil := by simp [e]
  head := by
    intro d head
    rw [e] at head
    obtain rfl := Option.some.inj head
    exact other
  noFeed := noFeed

theorem ordinary_standard : standard.Ordinary where
  opening := isLead_of_head (c := '/') (t := standard.opening.tail) (by decide) rfl (by decide)
  opening_last := by
    have last : standard.opening.getLast? = some 'e' := by decide
    intro c h
    rw [last] at h
    obtain rfl := Option.some.inj h
    decide
  closing := isLead_of_head (c := '/') (t := standard.closing.tail) (by decide) rfl (by decide)
  lead := isLead_of_head (c := '/') (t := standard.lead.tail) (by decide) rfl (by decide)
  notice := by decide +kernel
  footer := by decide +kernel
  footer_line := by
    have line : standard.footer.all (fun c => c != '\r' && c != '\n') = true := by decide
    simpa using line

/-- A notice is an opening line, the lines of the notice, and a closing line. -/
theorem notice_eq (m : MarkerPair) (indent : Text) :
    m.notice indent = indent ++ m.opening ++ ('\n' :: noticeLines.flatMap fun line =>
      indent ++ line ++ ['\n']) ++ indent ++ m.closing ++ ['\n'] := by
  simp [notice]

theorem atLineStart_lines (indent : Text) (lines : List Text) :
    AtLineStart ('\n' :: lines.flatMap fun line => indent ++ line ++ ['\n']) := by
  refine Or.inr ?_
  rw [List.getLast?_cons]
  induction lines with
  | nil => rfl
  | cons line lines ih =>
      rw [List.flatMap_cons, List.getLast?_append]
      cases lines with
      | nil => simp
      | cons l ls =>
          cases e : (List.flatMap (fun line => indent ++ line ++ ['\n']) (l :: ls)).getLast? with
          | none => simp at e
          | some c =>
              rw [e] at ih
              exact ih

theorem not_infix_lines {mark indent : Text} (isMark : IsMark mark) {lines : List Text}
    (absent : ∀ line ∈ lines, ¬ mark <:+: indent ++ line) :
    ¬ mark <:+: '\n' :: lines.flatMap fun line => indent ++ line ++ ['\n'] := by
  have notNil : ¬ mark <:+: [] := fun h => isMark.ne_nil (List.infix_nil.1 h)
  have first (t : Text) : mark <:+: '\n' :: t ↔ mark <:+: t := by
    have parted := infix_separated (s := []) (t := t) isMark.noFeed
    rw [List.nil_append] at parted
    rw [parted]
    simp only [notNil, false_or]
  rw [first]
  induction lines with
  | nil => exact notNil
  | cons line lines ih =>
      rw [List.flatMap_cons, List.append_assoc, List.singleton_append,
        infix_separated isMark.noFeed, not_or]
      exact ⟨absent line List.mem_cons_self, ih fun l m => absent l (List.mem_cons_of_mem _ m)⟩

theorem strip_of_rounds {m : MarkerPair} {body left : Text} (first : m.stripOnce body = left)
    (second : m.stripOnce left = left) : m.strip body = left := by
  rw [strip, first]
  split
  · rename_i same
    exact same.symm
  · exact strip_of_stripOnce second

/-- The first round cuts the notice out. -/
theorem removeRegions_banner {m : MarkerPair} {s indent t : Text} (opening : IsMark m.opening)
    (closing : IsMark m.closing) (notice : ∀ line ∈ noticeLines, ¬ m.closing <:+: indent ++ line)
    (start : AtLineStart s) (hi : ∀ c ∈ indent, isIndent c = true)
    (absent : ¬ m.opening <:+: s) (left : ¬ m.opening <:+: s ++ indent ++ '\n' :: t) :
    m.removeRegions (s ++ m.notice indent ++ t) = s ++ indent ++ '\n' :: t := by
  have opened : cutAt? m.opening (s ++ m.notice indent ++ t) =
      some (s ++ indent, ('\n' :: noticeLines.flatMap fun line => indent ++ line ++ ['\n']) ++
        indent ++ m.closing ++ ('\n' :: t)) := by
    have := opening.cutAt?_line start absent hi
      (('\n' :: noticeLines.flatMap fun line => indent ++ line ++ ['\n']) ++
        indent ++ m.closing ++ ('\n' :: t))
    rw [← this, notice_eq]
    simp
  have closed := closing.cutAt?_line (atLineStart_lines indent noticeLines)
    (not_infix_lines closing notice) hi ('\n' :: t)
  have cut : m.cut? (s ++ m.notice indent ++ t) = some (.paired (s ++ indent ++ '\n' :: t)) := by
    rw [cut?, opened]
    simp only
    rw [closed]
  rw [removeRegions_of_cut cut, Cut.left, removeRegions_of_no_opening left]

/-- The line of a footer goes with its end. -/
theorem removeLeadLines_footer {m : MarkerPair} (ord : m.Ordinary) {s indent z rest : Text}
    (start : AtLineStart s) (hi : ∀ c ∈ indent, isIndent c = true)
    (before : leadsLine m.lead s = false) (behind : leadsLine m.lead rest = false)
    (ends : BehindLine z rest) :
    m.removeLeadLines (s ++ indent ++ m.footer ++ z) = s ++ rest := by
  obtain ⟨b, z', hb, rfl, ends⟩ := ends
  have words : ∀ c ∈ " end of carried-over statements".toList ++ b, c ≠ '\r' ∧ c ≠ '\n' := by
    intro c member
    rcases List.mem_append.1 member with member | member
    · exact ord.footer_line c (List.mem_append_right _ member)
    · exact hb c member
  have text : s ++ indent ++ m.footer ++ (b ++ z') = s ++ (indent ++ m.lead ++
      (" end of carried-over statements".toList ++ b) ++ z') := by
    simp [footer]
  obtain ⟨e, he, rfl⟩ : ∃ e, (IsLineEnd e ∨ e = [] ∧ rest = []) ∧ z' = e ++ rest := by
    rcases ends with ⟨e, he, rfl⟩ | ⟨rfl, rfl⟩
    · exact ⟨e, Or.inl he, rfl⟩
    · exact ⟨[], Or.inr ⟨rfl, rfl⟩, rfl⟩
  rw [removeLeadLines_eq_leftFrom ord.lead.ne_nil, text,
    leftFrom_append_of_silent (silent_leadLine ord.lead before (Or.inr start) none), ← List.append_assoc,
    leftFrom_leadLine ord.lead start.getLast?_or hi words he,
    leftFrom_of_silent (silent_leadLine ord.lead behind (Or.inl rfl) _)]

/-- A marker of one line is in none of several lines together if it is in none of them. -/
theorem not_infix_unwrapped {mark s indent preserved t : Text} (isLead : IsLead mark)
    (start : AtLineStart s) (hi : ∀ c ∈ indent, isIndent c = true) (before : ¬ mark <:+: s)
    (inside : ¬ mark <:+: preserved) (behind : ¬ mark <:+: t) :
    ¬ mark <:+: s ++ indent ++ '\n' :: (preserved ++ '\n' :: t) := by
  have line : ¬ mark <:+: indent := by
    have := infix_indent isLead hi []
    rw [List.append_nil] at this
    rw [this]
    exact fun h => isLead.ne_nil (List.infix_nil.1 h)
  rw [List.append_assoc, infix_atLineStart isLead start, infix_separated isLead.noFeed,
    infix_separated isLead.noFeed]
  simp [before, inside, line, behind]

/-- Below lines without the lead, a line of indentation and lines of code without it have none. -/
theorem leadsLine_unwrapped {lead s indent preserved : Text} (isLead : IsLead lead)
    (start : AtLineStart s) (hi : ∀ c ∈ indent, isIndent c = true) (before : leadsLine lead s = false)
    (inside : leadsLine lead preserved = false) :
    leadsLine lead (s ++ indent ++ '\n' :: (preserved ++ ['\n'])) = false := by
  rw [List.append_assoc]
  refine leadsLine_append isLead start before ?_
  rw [leadsLine_indent hi, ← List.nil_append ('\n' :: _), leadsLine_feed isLead,
    leadsLine_feed isLead, leadsLine_nil isLead, inside]
  rfl

/-- Of what is put around carried-over code, stripping leaves the indentation of the notice as a line
of its own and the end of the last line of the code. -/
theorem strip_banner {m : MarkerPair} (ord : m.Ordinary) {s indent preserved z rest : Text}
    (start : AtLineStart s) (hi : ∀ c ∈ indent, isIndent c = true)
    (openBefore : ¬ m.opening <:+: s) (openIn : ¬ m.opening <:+: preserved)
    (openBehind : ¬ m.opening <:+: m.footer ++ z) (leadBefore : leadsLine m.lead s = false)
    (leadIn : leadsLine m.lead preserved = false) (leadBehind : leadsLine m.lead rest = false)
    (ends : BehindLine z rest) :
    m.strip (s ++ (m.notice indent ++ preserved ++ '\n' :: indent ++ m.footer) ++ z) =
      s ++ indent ++ '\n' :: (preserved ++ '\n' :: rest) := by
  have notice : ∀ line ∈ noticeLines, ¬ m.closing <:+: indent ++ line := by
    intro line member
    rw [infix_indent ord.closing hi]
    exact ord.notice line member
  -- no opening marker is in the body without its notice, nor in what stripping leaves
  have openRest : ¬ m.opening <:+: rest := fun h =>
    openBehind (h.trans (ends.suffix.trans (List.suffix_append ..)).isInfix)
  have openLine {t : Text} (h : ¬ m.opening <:+: t) :=
    not_infix_unwrapped ord.opening start hi openBefore openIn h
  have leadFront := leadsLine_unwrapped ord.lead start hi leadBefore leadIn
  have startFront : AtLineStart (s ++ indent ++ '\n' :: (preserved ++ ['\n'])) := by
    refine Or.inr ?_
    rw [List.getLast?_append, List.getLast?_cons, List.getLast?_append]
    rfl
  have front (t : Text) : s ++ indent ++ '\n' :: (preserved ++ '\n' :: t) =
      s ++ indent ++ '\n' :: (preserved ++ ['\n']) ++ t := by
    simp
  refine strip_of_rounds ?_ ?_
  · have text : s ++ (m.notice indent ++ preserved ++ '\n' :: indent ++ m.footer) ++ z =
        s ++ m.notice indent ++ (preserved ++ '\n' :: (indent ++ m.footer ++ z)) := by
      simp
    have openTail : ¬ m.opening <:+: indent ++ m.footer ++ z := by
      rw [List.append_assoc, infix_indent ord.opening hi]
      exact openBehind
    have line : s ++ indent ++ '\n' :: (preserved ++ '\n' :: (indent ++ m.footer ++ z)) =
        s ++ indent ++ '\n' :: (preserved ++ ['\n']) ++ indent ++ m.footer ++ z := by
      simp
    rw [stripOnce, text, removeRegions_banner ord.opening.isMark ord.closing.isMark notice start hi openBefore
        (openLine openTail), line,
      removeLeadLines_footer ord startFront hi leadFront leadBehind ends]
    exact (front rest).symm
  · rw [stripOnce, removeRegions_of_no_opening (openLine openRest), front]
    exact removeLeadLines_of_none ord.lead
      (leadsLine_append ord.lead startFront leadFront leadBehind)

end Regraft.MarkerPair
