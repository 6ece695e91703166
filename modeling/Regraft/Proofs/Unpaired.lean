import Regraft.Proofs.Banner
import Regraft.Proofs.Unmarked

/-!
# Regraft.Proofs.Unpaired -- what an opening marker without partner costs

Such a marker goes with the rest of its line and the line feed that ends it, and with what stands before
it there only where that is blank.  So it costs its own line exactly if the line has nothing else in front of
the marker, or is the last one (`strip_unpaired`): text that stands before the marker goes on with the line
below, and where it is a comment, the code of that line becomes part of the comment
(`strip_unpaired_joins`).
-/

namespace Regraft

set_option autoImplicit false

open Text Reader

namespace Text

/-! ## Lines -/

/-- The lines of a text, each up to its line feed; behind the last line feed only something counts. -/
def feedLines : Text → List Text
  | [] => []
  | c :: t =>
      if c = '\n' then [] :: feedLines t
      else
        match feedLines t with
        | [] => [[c]]
        | line :: more => (c :: line) :: more

theorem feedLines_feed (t : Text) : feedLines ('\n' :: t) = [] :: feedLines t := rfl

@[simp] theorem feedLines_eq_nil {t : Text} : feedLines t = [] ↔ t = [] := by
  cases t with
  | nil => simp [feedLines]
  | cons c t =>
      rw [feedLines]
      split
      · simp
      · cases feedLines t <;> simp

theorem feedLines_cons {c : Char} {t line : Text} {more : List Text} (other : c ≠ '\n')
    (lines : feedLines t = line :: more) : feedLines (c :: t) = (c :: line) :: more := by
  rw [feedLines, if_neg other, lines]

theorem feedLines_line {line : Text} (noFeed : '\n' ∉ line) (t : Text) :
    feedLines (line ++ '\n' :: t) = line :: feedLines t := by
  induction line with
  | nil => exact feedLines_feed t
  | cons c line ih =>
      rw [List.mem_cons, not_or] at noFeed
      exact feedLines_cons (Ne.symm noFeed.1) (ih noFeed.2)

theorem feedLines_of_noFeed {line : Text} (some_ : line ≠ []) (noFeed : '\n' ∉ line) :
    feedLines line = [line] := by
  induction line with
  | nil => exact absurd rfl some_
  | cons c line ih =>
      rw [List.mem_cons, not_or] at noFeed
      by_cases last : line = []
      · rw [feedLines, if_neg (Ne.symm noFeed.1), feedLines_eq_nil.2 last, last]
      · exact feedLines_cons (Ne.symm noFeed.1) (ih last noFeed.2)

/-- The lines above a place at which a line starts are lines of their own. -/
theorem feedLines_append {above : Text} (start : AtLineStart above) (t : Text) :
    feedLines (above ++ t) = feedLines above ++ feedLines t := by
  induction above with
  | nil => rfl
  | cons c above ih =>
      have rest := ih (AtLineStart.right (s := [c]) start)
      by_cases feed : c = '\n'
      · subst feed
        rw [List.cons_append, feedLines_feed, feedLines_feed, rest, List.cons_append]
      · cases lines : feedLines above with
        | nil =>
            obtain rfl := feedLines_eq_nil.1 lines
            rcases start with none_ | last
            · cases none_
            · exact absurd (Option.some.inj last) feed
        | cons line more =>
            rw [lines, List.cons_append] at rest
            rw [List.cons_append, feedLines_cons feed rest, feedLines_cons feed lines,
              List.cons_append]

/-- Text in front of a line becomes part of that line. -/
theorem length_feedLines_append {line t : Text} (noFeed : '\n' ∉ line) (some_ : t ≠ []) :
    (feedLines (line ++ t)).length = (feedLines t).length := by
  induction line with
  | nil => rfl
  | cons c line ih =>
      rw [List.mem_cons, not_or] at noFeed
      have rest := ih noFeed.2
      cases lines : feedLines (line ++ t) with
      | nil => simp [some_] at lines
      | cons first more =>
          rw [lines] at rest
          rw [List.cons_append, feedLines_cons (Ne.symm noFeed.1) lines, ← rest, List.length_cons,
            List.length_cons]

theorem afterLine_append {line : Text} (inLine : ∀ c ∈ line, c ≠ '\r' ∧ c ≠ '\n') (t : Text) :
    MarkerPair.afterLine (line ++ t) = MarkerPair.afterLine t := by
  induction line with
  | nil => rfl
  | cons c line ih =>
      obtain ⟨⟨noReturn, noFeed⟩, inLine⟩ := List.forall_mem_cons.1 inLine
      rw [List.cons_append, MarkerPair.afterLine, ih inLine]
      all_goals simp [noReturn, noFeed]

/-- A text is its first line and what comes after that, or has no line feed. -/
theorem firstLine {t : Text} (noReturn : '\r' ∉ t) :
    (∃ line, '\n' ∉ line ∧ t = line ++ '\n' :: MarkerPair.afterLine t) ∨
      '\n' ∉ t ∧ MarkerPair.afterLine t = [] := by
  fun_induction MarkerPair.afterLine t with
  | case1 => exact Or.inr ⟨List.not_mem_nil, rfl⟩
  | case2 t => exact Or.inl ⟨[], List.not_mem_nil, rfl⟩
  | case3 => simp at noReturn
  | case4 => simp at noReturn
  | case5 c t feed _ _ ih =>
      rcases ih fun m => noReturn (List.mem_cons_of_mem _ m) with ⟨line, inLine, parts⟩ | ⟨inLine, none_⟩
      · exact Or.inl ⟨c :: line, by simp [inLine, Ne.symm feed], by rw [List.cons_append, ← parts]⟩
      · exact Or.inr ⟨by simp [inLine, Ne.symm feed], none_⟩

/-- What comes after a line is the text without its first line. -/
theorem feedLines_afterLine {t : Text} (noReturn : '\r' ∉ t) :
    feedLines (MarkerPair.afterLine t) = (feedLines t).tail := by
  fun_induction MarkerPair.afterLine t with
  | case1 => rfl
  | case2 => rfl
  | case3 => simp at noReturn
  | case4 => simp at noReturn
  | case5 c t feed _ _ ih =>
      rw [ih (fun m => noReturn (List.mem_cons_of_mem _ m))]
      cases lines : feedLines t with
      | nil => rw [feedLines, if_neg feed, lines]; rfl
      | cons line more => rw [feedLines_cons feed lines]; rfl

/-- A literal without line feed stands above a place at which a line starts, or below it. -/
theorem infix_of_atLineStart {needle above t : Text} (noFeed : '\n' ∉ needle)
    (start : AtLineStart above) (h : needle <:+: above ++ t) : needle <:+: above ∨ needle <:+: t := by
  rcases start with rfl | feed
  · exact Or.inr h
  · obtain ⟨lines, rfl⟩ := List.getLast?_eq_some_iff.1 feed
    rw [List.append_assoc, List.singleton_append, infix_separated noFeed] at h
    exact h.imp_left fun part => part.trans List.infix_append_left

/-! ## Leads -/

/-- Whether a text starts, behind spaces and tabs, with a lead that is not empty. -/
def Led (lead t : Text) : Prop :=
  lead ≠ [] ∧ ∃ ind rest, (∀ c ∈ ind, isIndent c = true) ∧ t = ind ++ lead ++ rest

variable {lead above line t : Text}

/-- A line that starts with a lead is above a place at which a line starts, or below it. -/
theorem Leads.of_append (noFeed : '\n' ∉ lead) (start : AtLineStart above)
    (h : Leads lead (above ++ t)) : Leads lead above ∨ Leads lead t := by
  obtain ⟨front, ind, rest, atStart, hi, parts⟩ := h
  rcases start with rfl | feed
  · exact Or.inr ⟨front, ind, rest, atStart, hi, parts⟩
  · obtain ⟨lines, rfl⟩ := List.getLast?_eq_some_iff.1 feed
    rw [List.append_assoc, List.singleton_append, List.append_assoc front] at parts
    rcases append_separated parts (noFeed_indent_lead noFeed hi) with
      ⟨back, rfl⟩ | ⟨front, rfl, below⟩
    · exact Or.inl ⟨front, ind, back ++ ['\n'], atStart, hi, by simp⟩
    · refine Or.inr ⟨front, ind, rest, ?_, hi, by simp [below]⟩
      rw [← List.singleton_append, ← List.append_assoc] at atStart
      exact atStart.right

theorem Leads.append_left (start : AtLineStart above) (h : Leads lead t) : Leads lead (above ++ t) := by
  obtain ⟨front, ind, rest, atStart, hi, rfl⟩ := h
  refine ⟨above ++ front, ind, rest, ?_, hi, by simp⟩
  rcases atStart with rfl | feed
  · rwa [List.append_nil]
  · exact Or.inr (by rw [List.getLast?_append, feed]; rfl)

theorem Leads.of_afterLine (some_ : lead ≠ []) (noReturn : '\r' ∉ t)
    (h : Leads lead (MarkerPair.afterLine t)) : Leads lead t := by
  rcases firstLine noReturn with ⟨line, -, parts⟩ | ⟨-, none_⟩
  · have start : AtLineStart (line ++ ['\n']) := Or.inr (by simp)
    have whole := h.append_left start
    rwa [List.append_assoc, List.singleton_append, ← parts] at whole
  · rw [none_] at h
    obtain ⟨front, ind, rest, -, -, parts⟩ := h
    simp [some_] at parts

/-- Where a line starts with a lead, it is the first one or one below it. -/
theorem Leads.of_line (some_ : lead ≠ []) (noFeed : '\n' ∉ line) (h : Leads lead (line ++ t)) :
    Led lead (line ++ t) ∨ Leads lead t := by
  obtain ⟨front, ind, rest, atStart, hi, parts⟩ := h
  rw [List.append_assoc, List.append_assoc] at parts
  rcases atStart with rfl | feed
  · exact Or.inl ⟨some_, ind, rest, hi, by simp [parts]⟩
  · rcases List.append_eq_append_iff.1 parts with ⟨more, rfl, below⟩ | ⟨more, rfl, -⟩
    · exact Or.inr ⟨more, ind, rest, AtLineStart.right (Or.inr feed), hi, by simp [below]⟩
    · exact absurd (List.mem_append_left _ (List.mem_of_getLast? feed)) noFeed

end Text

namespace MarkerPair

variable {m : MarkerPair} {lead : Text}

/-! ## Lead lines -/

theorem HasLeadLine.leads {t : Text} (h : HasLeadLine lead t) : Leads lead t := by
  obtain ⟨above, ind, more, e, below, start, hi, -, -, rfl⟩ := h
  exact ⟨above, ind, more ++ e ++ below, start, hi, by simp⟩

/-- Where no line starts with the lead, none is read. -/
theorem silent_of_not_leads {t : Text} (none_ : ¬ Leads lead t) (before : Option Char) :
    SilentBefore (leadLine lead) before t [] := by
  intro front c back e
  rw [List.append_nil]
  refine List.eq_nil_iff_forall_not_mem.2 fun p read => none_ ?_
  obtain ⟨⟨⟩, rest⟩ := p
  obtain ⟨-, ind, more, end_, hi, -, -, here⟩ := mem_leadLine.1 read
  exact ⟨front, ind, more ++ end_ ++ rest, atLineStart_of_mem_leadLine read, hi, by simp [e, here]⟩

/-- A line that starts with the lead goes, with the line feed that ends it. -/
theorem leftFrom_led {t : Text} {before : Option Char} (led : Led lead t) (noFeed : '\n' ∉ lead)
    (noReturn : '\r' ∉ t) (start : before = none ∨ before = some '\n') :
    ∃ before', leftFrom (leadLine lead) before t = leftFrom (leadLine lead) before' (afterLine t) := by
  obtain ⟨some_, ind, tail, hi, parts⟩ := led
  have readable : ∃ rest, ((), rest) ∈ leadLine lead before t := by
    have whole : WholeLineEnds tail := fun rest suffix =>
      absurd (suffix.subset List.mem_cons_self) fun member => noReturn (by rw [parts]; simp [member])
    obtain ⟨rest, more, z, hm, rfl, ends⟩ := exists_behindLine whole
    refine ⟨rest, mem_leadLine.2 ⟨start, ind, more, ?_⟩⟩
    rcases ends with ⟨e, he, rfl⟩ | ⟨rfl, rfl⟩
    · exact ⟨e, hi, hm, Or.inl he, by simp [parts]⟩
    · exact ⟨[], hi, hm, Or.inr ⟨rfl, rfl⟩, by simp [parts]⟩
  have same : ∀ p ∈ leadLine lead before t, p.2 = afterLine t := by
    rintro ⟨⟨⟩, rest⟩ read
    rcases rest_of_leadLine noFeed read with ⟨line, inLine, e⟩ | ⟨oneLine, rfl⟩ <;>
      rcases firstLine noReturn with ⟨line', inLine', e'⟩ | ⟨oneLine', none_⟩
    · exact (append_char_inj (e.symm.trans e') inLine inLine').2
    · exact absurd (by simp [e]) oneLine'
    · exact absurd (by rw [e']; simp) oneLine
    · exact none_.symm
  obtain ⟨rest, read⟩ := readable
  refine ⟨_, leftFrom_of_reading (List.ne_nil_of_mem read) same ?_⟩
  rw [← same _ read]
  exact leadLine_consuming some_ _ _ _ read

/-- Below lines that do not start with the lead, a line that does goes, and what comes after it stays. -/
theorem removeLeadLines_led {above t : Text} (noFeed : '\n' ∉ m.lead) (noReturn : '\r' ∉ t)
    (start : AtLineStart above) (noAbove : ¬ Leads m.lead above)
    (noAfter : ¬ Leads m.lead (afterLine t)) (led : Led m.lead t) :
    m.removeLeadLines (above ++ t) = above ++ afterLine t := by
  have silent : SilentBefore (leadLine m.lead) none above t := by
    rcases start with rfl | feed
    · intro front c back e
      cases front <;> cases e
    · obtain ⟨lines, rfl⟩ := List.getLast?_eq_some_iff.1 feed
      refine silent_lines noFeed (fun leads => noAbove ?_) none t
      obtain ⟨front, ind, rest, start, hi, rfl⟩ := leads
      exact ⟨front, ind, rest ++ ['\n'], start, hi, by simp⟩
  obtain ⟨before', gone⟩ := leftFrom_led led noFeed noReturn start.getLast?_or
  rw [removeLeadLines_eq_leftFrom led.1, leftFrom_append_of_silent silent, gone,
    leftFrom_of_silent (silent_of_not_leads noAfter before')]

/-! ## One cut -/

theorem strip_stripOnce (m : MarkerPair) (body : Text) : m.strip (m.stripOnce body) = m.strip body := by
  by_cases same : m.stripOnce body = body
  · rw [same]
  · exact (strip_of_changed same).symm

/-- A cut is the first step of stripping. -/
theorem strip_of_cut {body : Text} {c : Cut} (cut : m.cut? body = some c) :
    m.strip body = m.strip c.left := by
  rw [← strip_stripOnce m body, ← strip_stripOnce m c.left, stripOnce, stripOnce,
    removeRegions_of_cut cut]

/-- What is kept of the line of a marker without partner: the text before the marker, unless it is
blank. -/
def keptOfLine (pre : Text) : Text :=
  if isBlankText pre then [] else pre

/-- A body without carriage returns, with an opening marker that has no partner, in pieces: the lines above
that of the marker, what stands there before the marker and behind it, the end of the line, and the lines
below.  The marker is the first of its kind. -/
structure Unpaired (m : MarkerPair) (body above pre post ending below : Text) : Prop where
  parts : body = above ++ pre ++ m.opening ++ (post ++ ending ++ below)
  start : AtLineStart above
  line : '\n' ∉ pre ++ m.opening ++ post
  ends : ending = ['\n'] ∨ ending = [] ∧ below = []
  first : ∀ front back, body = front ++ m.opening ++ back → (above ++ pre).length ≤ front.length
  closing : ¬ m.closing <:+: post ++ ending ++ below
  noReturn : '\r' ∉ body

namespace Unpaired

variable {body above pre post ending below : Text}

theorem noFeed_pre (h : Unpaired m body above pre post ending below) : '\n' ∉ pre := fun feed =>
  h.line (by simp [feed])

theorem noReturn_kept (h : Unpaired m body above pre post ending below) : '\r' ∉ pre ++ below := by
  refine fun member => h.noReturn ?_
  rw [h.parts]
  rcases List.mem_append.1 member with m | m <;> simp [m]

theorem feedLines_body (h : Unpaired m body above pre post ending below) :
    feedLines body = feedLines above ++ (pre ++ m.opening ++ post) :: feedLines below := by
  have whole : body = above ++ (pre ++ m.opening ++ post ++ (ending ++ below)) := by
    rw [h.parts]
    simp
  rw [whole, feedLines_append h.start]
  rcases h.ends with rfl | ⟨rfl, rfl⟩
  · rw [List.singleton_append, feedLines_line h.line]
  · rw [List.append_nil, List.append_nil,
      feedLines_of_noFeed (by simp [m.opening_ne_nil]) h.line]
    rfl

/-- The cut at the marker. -/
theorem cut?_eq (h : Unpaired m body above pre post ending below) :
    m.cut? body = some (.unpaired (above ++ pre).length (above ++ keptOfLine pre ++ below)) := by
  have opened : cutAt? m.opening body = some (above ++ pre, post ++ ending ++ below) :=
    cutAt?_eq_some.2 ⟨h.parts, h.first⟩
  have before : dropBlankTail (above ++ pre) = above ++ keptOfLine pre := by
    rw [dropBlankTail, splitLastLine_eq rfl h.noFeed_pre h.start, keptOfLine]
    dsimp only
    split <;> simp
  have inLine : ∀ c ∈ m.opening ++ post, c ≠ '\r' ∧ c ≠ '\n' := by
    intro c member
    constructor
    · rintro rfl
      exact h.noReturn (by rw [h.parts]; rcases List.mem_append.1 member with m | m <;> simp [m])
    · rintro rfl
      exact h.line (by rw [List.append_assoc]; exact List.mem_append_right _ member)
  have whole : m.OpensWhole := by
    intro rest e
    exact absurd rfl (inLine '\r' (by rw [e]; simp)).1
  have after : m.dropMarker (post ++ ending ++ below) = below := by
    rw [dropMarker_of_opensWhole whole, List.append_assoc, ← List.append_assoc m.opening,
      afterLine_append inLine]
    rcases h.ends with rfl | ⟨rfl, rfl⟩ <;> rfl
  rw [cut?, opened]
  dsimp only
  rw [cutAt?_eq_none.2 h.closing]
  dsimp only
  rw [before, after]

/-- Where what is kept has no lead of its own, it stays. -/
theorem strip_kept (h : Unpaired m body above pre post ending below) (noFeed : '\n' ∉ m.lead)
    (others : m.lead ≠ [] → ¬ Leads m.lead above ∧ ¬ Leads m.lead below)
    (clean : ¬ m.opening <:+: above ++ keptOfLine pre ++ below)
    (free : isBlankText pre = true ∨ ¬ Led m.lead (pre ++ below)) :
    m.strip body = above ++ keptOfLine pre ++ below := by
  rw [strip_of_cut h.cut?_eq, Cut.left]
  refine strip_of_isUnmarked ⟨clean, fun some_ marked => ?_⟩
  obtain ⟨noAbove, noBelow⟩ := others some_
  have leads := marked.leads
  rw [List.append_assoc] at leads
  rcases leads.of_append noFeed h.start with led | led
  · exact noAbove led
  · rw [keptOfLine] at led
    split at led
    · exact noBelow led
    · rename_i inked
      rcases led.of_line some_ h.noFeed_pre with led | led
      · exact free.elim inked fun unled => unled led
      · exact noBelow led

/-- Where what is kept starts with the lead, the line below goes with it. -/
theorem strip_joined (h : Unpaired m body above pre post ending below) (noFeed : '\n' ∉ m.lead)
    (others : m.lead ≠ [] → ¬ Leads m.lead above ∧ ¬ Leads m.lead below)
    (clean : ¬ m.opening <:+: above ++ keptOfLine pre ++ below) (inked : isBlankText pre = false)
    (led : Led m.lead (pre ++ below)) : m.strip body = above ++ afterLine below := by
  obtain ⟨noAbove, noBelow⟩ := others led.1
  have noReturn := h.noReturn_kept
  have kept : keptOfLine pre = pre := by rw [keptOfLine, if_neg (by simp [inked])]
  have after : afterLine (pre ++ below) = afterLine below :=
    afterLine_append (fun c m =>
      ⟨fun e => noReturn (List.mem_append_left _ (e ▸ m)), fun e => h.noFeed_pre (e ▸ m)⟩) below
  have noAfter : ¬ Leads m.lead (afterLine below) := fun leads =>
    noBelow (leads.of_afterLine led.1 fun m => noReturn (List.mem_append_right _ m))
  rw [kept, List.append_assoc] at clean
  have round : m.stripOnce (above ++ (pre ++ below)) = above ++ afterLine below := by
    rw [stripOnce, removeRegions_of_no_opening clean,
      removeLeadLines_led noFeed noReturn h.start noAbove (after ▸ noAfter) led, after]
  rw [strip_of_cut h.cut?_eq, Cut.left, kept, List.append_assoc, ← strip_stripOnce, round]
  refine strip_of_isUnmarked ⟨fun opening => clean ?_, fun _ marked => ?_⟩
  · have opening_ : '\n' ∉ m.opening := fun feed => h.line (by simp [feed])
    rcases infix_of_atLineStart opening_ h.start opening with part | part
    · exact part.trans (List.prefix_append ..).isInfix
    · exact (part.trans (afterLine_suffix below).isInfix).trans ⟨above ++ pre, [], by simp⟩
  · rcases marked.leads.of_append noFeed h.start with leads | leads
    · exact noAbove leads
    · exact noAfter leads

/-- The line goes alone, and what is kept of it stands in its place, exactly if nothing else is on the line
in front of the marker, or the line is the last one and does not start with the lead there. -/
theorem feedLines_strip (h : Unpaired m body above pre post ending below) (noFeed : '\n' ∉ m.lead)
    (others : m.lead ≠ [] → ¬ Leads m.lead above ∧ ¬ Leads m.lead below)
    (clean : ¬ m.opening <:+: above ++ keptOfLine pre ++ below) :
    feedLines (m.strip body) = feedLines above ++ feedLines (keptOfLine pre) ++ feedLines below ↔
      isBlankText pre = true ∨ below = [] ∧ ¬ Led m.lead pre := by
  have kept := h.strip_kept noFeed others clean
  constructor
  · intro lines
    refine or_iff_not_imp_left.2 fun inked => ?_
    rw [Bool.not_eq_true] at inked
    have whole : keptOfLine pre = pre := by rw [keptOfLine, if_neg (by simp [inked])]
    have some_ : pre ≠ [] := by
      rintro rfl
      cases inked
    rw [whole, feedLines_of_noFeed some_ h.noFeed_pre] at lines
    have length := congrArg List.length lines
    by_cases led : Led m.lead (pre ++ below)
    · have below_ : '\r' ∉ below := fun m => h.noReturn_kept (List.mem_append_right _ m)
      rw [h.strip_joined noFeed others clean inked led, feedLines_append h.start,
        feedLines_afterLine below_] at length
      simp only [List.length_append, List.length_tail, List.length_cons, List.length_nil] at length
      omega
    · by_cases last : below = []
      · exact ⟨last, by simpa [last] using led⟩
      · rw [kept (Or.inr led), whole, List.append_assoc, feedLines_append h.start,
          List.length_append, length_feedLines_append h.noFeed_pre last] at length
        simp only [List.length_append, List.length_cons, List.length_nil] at length
        omega
  · rintro (blank | ⟨rfl, unled⟩)
    · rw [kept (Or.inl blank), keptOfLine, if_pos blank, List.append_nil, feedLines_append h.start]
      simp [feedLines]
    · rw [kept (Or.inr (by simpa using unled)), List.append_nil, feedLines_append h.start]
      simp [feedLines]

end Unpaired

/-- An opening marker without partner goes with the rest of its line, and with what stands before it there
if that is blank.  Otherwise what stands before it goes on with the line below, and the two go together
where they start with the lead.  So the marker costs its own line only, all but what stands before it, exactly
if that is blank, or the line is the last one and does not start with the lead in front of the marker. -/
theorem strip_unpaired {body above pre post ending below : Text}
    (h : Unpaired m body above pre post ending below) (noFeed : '\n' ∉ m.lead)
    (others : m.lead ≠ [] → ¬ Leads m.lead above ∧ ¬ Leads m.lead below)
    (clean : ¬ m.opening <:+: above ++ keptOfLine pre ++ below) :
    feedLines body = feedLines above ++ (pre ++ m.opening ++ post) :: feedLines below ∧
      (isBlankText pre = true ∨ ¬ Led m.lead (pre ++ below) →
        m.strip body = above ++ keptOfLine pre ++ below) ∧
      (isBlankText pre = false → Led m.lead (pre ++ below) →
        m.strip body = above ++ afterLine below) ∧
      (feedLines (m.strip body) =
          feedLines above ++ feedLines (keptOfLine pre) ++ feedLines below ↔
        isBlankText pre = true ∨ below = [] ∧ ¬ Led m.lead pre) :=
  ⟨h.feedLines_body, h.strip_kept noFeed others clean, h.strip_joined noFeed others clean,
    h.feedLines_strip noFeed others clean⟩

def loneBody : Text :=
  "a();\n  // scaffold-merge:begin-notice x\nkeep();\n".toList

theorem strip_unpaired_lone :
    Unpaired standard loneBody "a();\n".toList "  ".toList " x".toList ['\n'] "keep();\n".toList ∧
      feedLines loneBody = ["a();".toList, "  // scaffold-merge:begin-notice x".toList,
        "keep();".toList] ∧
      feedLines (standard.strip loneBody) = ["a();".toList, "keep();".toList] := by
  have h : Unpaired standard loneBody "a();\n".toList "  ".toList " x".toList ['\n']
      "keep();\n".toList := {
    parts := rfl
    start := Or.inr rfl
    line := by decide
    ends := Or.inl rfl
    first := (cutAt?_eq_some.1 (show cutAt? standard.opening loneBody = some ("a();\n  ".toList,
      " x\nkeep();\n".toList) by decide)).2
    closing := cutAt?_eq_none.1 (by decide)
    noReturn := by decide }
  have others : standard.lead ≠ [] →
      ¬ Leads standard.lead "a();\n".toList ∧ ¬ Leads standard.lead "keep();\n".toList := fun _ =>
    ⟨Text.not_leads_of_infix (cutAt?_eq_none.1 (by decide)),
      Text.not_leads_of_infix (cutAt?_eq_none.1 (by decide))⟩
  obtain ⟨lines, -, -, alone⟩ := strip_unpaired h (by decide) others (cutAt?_eq_none.1 (by decide))
  refine ⟨h, lines.trans rfl, (alone.2 (Or.inl rfl)).trans rfl⟩

/-- A body in which a comment and a marker without partner share a line. -/
def sharedBody : Text :=
  "// todo // scaffold-merge:begin-notice\nkeep();\n".toList

/-- The line feed goes with the marker, and the code of the next line becomes part of the comment. -/
theorem strip_unpaired_joins :
    Unpaired standard sharedBody [] "// todo ".toList [] ['\n'] "keep();\n".toList ∧
      sharedBody.tails.countP standard.opening.isPrefixOf = 1 ∧
      ¬ Leads standard.lead "keep();\n".toList ∧
      standard.strip sharedBody = "// todo keep();\n".toList ∧
      ¬ standard.opening <:+: "// todo keep();\n".toList ∧
      ¬ Leads standard.lead "// todo keep();\n".toList ∧
      "keep();".toList ∈ feedLines sharedBody ∧
      "keep();".toList ∉ feedLines (standard.strip sharedBody) := by
  have h : Unpaired standard sharedBody [] "// todo ".toList [] ['\n'] "keep();\n".toList := {
    parts := rfl
    start := Or.inl rfl
    line := by decide
    ends := Or.inl rfl
    first := (cutAt?_eq_some.1 (show cutAt? standard.opening sharedBody = some ("// todo ".toList,
      "\nkeep();\n".toList) by decide)).2
    closing := cutAt?_eq_none.1 (by decide)
    noReturn := by decide }
  have stripped : standard.strip sharedBody = "// todo keep();\n".toList := by
    decide +kernel
  refine ⟨h, by decide, Text.not_leads_of_infix (cutAt?_eq_none.1 (by decide)), stripped,
    cutAt?_eq_none.1 (by decide), Text.not_leads_of_infix (cutAt?_eq_none.1 (by decide)),
    by decide, ?_⟩
  rw [stripped]
  decide

end MarkerPair

end Regraft
