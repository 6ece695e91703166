import Regraft.Proofs.Laid.Basic

/-!
# Regraft.Proofs.Laid.Markers -- markers in a body that is laid out in parts

Regions go first, from the front of the body: the first opening marker is that of the first region
(`Laid.exists_region`).  Then the comment lines go with the indentation before them.  Every other part
is clear, and clear text put together is clear, so one round is enough (`Laid.strip`).
-/

namespace Regraft.CarryOver

set_option autoImplicit false

open Text Reader Rules Entity MarkerPair

variable {r : Rules} {param : Text} {kinds : List Kind} {word : Bool} {t : Text}

theorem Fits.clear {k : Kind} (fits : Fits r param k t) (region : k ≠ .region)
    (comment : k ≠ .comment) : r.markers.Clear t := by
  cases k with
  | region => exact absurd rfl region
  | comment => exact absurd rfl comment
  | _ => exact fits.1

/-- Only regions have the opening marker. -/
theorem Fits.absent_opening {k : Kind} (fits : Fits r param k t) (region : k ≠ .region) :
    Absent r.markers.opening t := by
  by_cases comment : k = .comment
  · subst comment
    exact fits.1
  · exact (fits.clear region comment).opening

theorem absent_opening_part (visible : r.markers.Visible) {k : Kind} {g : Text} (gap : Gap k word g)
    (fits : Fits r param k t) (region : k ≠ .region) : Absent r.markers.opening (g ++ t) :=
  (visible.clear_of_blank gap.spacing.blank).opening.append r.markers.opening_ne_nil
    (fits.absent_opening region)

theorem clear_part (visible : r.markers.Visible) {k : Kind} {g : Text} (gap : Gap k word g)
    (fits : Fits r param k t) (region : k ≠ .region) (comment : k ≠ .comment) :
    r.markers.Clear (g ++ t) :=
  (visible.clear_of_blank gap.spacing.blank).append visible.lead_ne_nil (fits.clear region comment)

theorem Laid.absent_opening (visible : r.markers.Visible) (h : Laid r param kinds word t)
    (region : .region ∉ kinds) : Absent r.markers.opening t := by
  induction h with
  | blank spacing => exact (visible.clear_of_blank spacing.blank).opening
  | part mem gap fits _ ih =>
      rw [← List.append_assoc]
      exact (absent_opening_part visible gap fits (ne_of_mem_of_not_mem mem region)).append
        r.markers.opening_ne_nil ih

theorem Laid.clear (visible : r.markers.Visible) (h : Laid r param kinds word t)
    (region : .region ∉ kinds) (comment : .comment ∉ kinds) : r.markers.Clear t := by
  induction h with
  | blank spacing => exact visible.clear_of_blank spacing.blank
  | part mem gap fits _ ih =>
      rw [← List.append_assoc]
      exact (clear_part visible gap fits (ne_of_mem_of_not_mem mem region)
        (ne_of_mem_of_not_mem mem comment)).append visible.lead_ne_nil ih

/-! ## Regions -/

/-- A body without regions, or the cut at its first region. -/
theorem Laid.exists_region (visible : r.markers.Visible) (h : Laid r param (.region :: kinds) word t)
    (region : .region ∉ kinds) :
    Laid r param kinds word t ∨
      ∃ front inner back x, cutAt? r.markers.opening t = some (front, inner) ∧
        cutAt? r.markers.closing inner = some (x, back) ∧
        Laid r param (.region :: kinds) word (front ++ back) := by
  induction h with
  | blank spacing => exact Or.inl (.blank spacing)
  | @part word k g t rest mem gap fits later ih =>
      rcases List.mem_cons.1 mem with rfl | mem'
      · right
        obtain ⟨x, rfl, closes⟩ := fits
        have gapAbsent := (visible.clear_of_blank gap.spacing.blank).opening
        have opens : cutAt? r.markers.opening
            (r.markers.opening ++ (x ++ r.markers.closing) ++ rest) =
              some ([], x ++ r.markers.closing ++ rest) :=
          cutAt?_eq_some.2 ⟨by simp, fun _ _ _ => Nat.zero_le _⟩
        have here := gapAbsent.unsplit.cutAt?_right r.markers.opening_ne_nil gapAbsent.inside opens
        rw [List.append_nil] at here
        exact ⟨g, _, rest, x, here, cutAt?_extend closes rest,
          later.spaced gap.spacing (gap.apart (by simp))⟩
      · rcases ih with alone | ⟨front, inner, back, x, opens, closes, left⟩
        · exact Or.inl (.part mem' gap fits alone)
        · right
          have absent := absent_opening_part visible gap fits (ne_of_mem_of_not_mem mem' region)
          have here := absent.unsplit.cutAt?_right r.markers.opening_ne_nil absent.inside opens
          rw [List.append_assoc] at here
          refine ⟨_, inner, back, x, here, closes, ?_⟩
          rw [List.append_assoc, List.append_assoc]
          exact .part mem gap fits left

theorem Laid.removeRegions (visible : r.markers.Visible) (h : Laid r param (.region :: kinds) word t)
    (region : .region ∉ kinds) : Laid r param kinds word (r.markers.removeRegions t) := by
  induction length : t.length using Nat.strongRecOn generalizing t with
  | ind n ih =>
      rcases h.exists_region visible region with alone | ⟨front, inner, back, x, opens, closes, left⟩
      · rwa [removeRegions_of_no_opening (alone.absent_opening visible region).inside]
      · have cut : r.markers.cut? t = some (.paired (front ++ back)) := by
          rw [cut?, opens]
          simp only
          rw [closes]
        rw [removeRegions_of_cut cut]
        exact ih _ (length ▸ cut?_length cut) left rfl

/-! ## Comment lines -/

/-- In front of ink that starts no comment line, and in white space, none is read. -/
theorem silent_clear (visible : r.markers.Visible) (clear : r.markers.Clear t)
    (last : ∃ c, t.getLast? = some c ∧ isBlank c = false) (before : Option Char) (more : Text) :
    SilentBefore (leadLine r.markers.lead) before t more := by
  intro front c back e
  refine List.eq_nil_iff_forall_not_mem.2 fun p m => ?_
  obtain ⟨⟨⟩, rest⟩ := p
  have start := atLineStart_of_mem_leadLine m
  obtain ⟨-, ind, line, e', hi, -, -, parts⟩ := mem_leadLine.1 m
  have whole : t ++ more = (front ++ ind) ++ r.markers.lead ++ (line ++ e' ++ rest) := by
    rw [e, List.append_assoc, parts]
    simp
  rcases clear.lead_unsplit.sides rfl visible.lead_ne_nil whole with ⟨beyond, inside⟩ | ⟨x, parts', -⟩
  · exact clear.lead ⟨front, ind, beyond, start, hi, inside⟩
  · -- the text would end in indentation
    obtain ⟨d, last, inked⟩ := last
    rw [e, List.append_assoc] at parts'
    rw [e, List.getLast?_append_cons] at last
    have := hi d (by
      rw [List.append_cancel_left parts']
      exact List.mem_append_left _ (List.mem_of_getLast? last))
    rw [isIndent_of_inked inked] at this
    cases this

theorem silent_lines (visible : r.markers.Visible) {lines more : Text}
    (blank : isBlankText lines = true) (start : more = [] ∨ AtLineStart lines)
    (before : Option Char) : SilentBefore (leadLine r.markers.lead) before lines more := by
  refine silent_leadLine visible.isLead (Bool.eq_false_iff.2 fun leads => ?_) start before
  exact (visible.clear_of_blank blank).lead (leads_of_leadsLine visible.isLead leads)

/-- A comment line goes with the indentation before it, and the next line starts behind it. -/
theorem leftFrom_commentLine {lead ind more e : Text} (isLead : IsLead lead)
    (hi : ∀ c ∈ ind, isIndent c = true) (hm : ∀ c ∈ more, c ≠ '\r' ∧ c ≠ '\n') (he : IsLineEnd e)
    (rest : Text) :
    leftFrom (leadLine lead) (some '\n') (ind ++ (lead ++ more ++ e ++ rest)) =
      leftFrom (leadLine lead) (some '\n') rest := by
  have text : ind ++ (lead ++ more ++ e ++ rest) = ind ++ lead ++ more ++ e ++ rest := by
    simp
  rw [text, leftFrom_leadLine isLead (Or.inr rfl) hi hm (Or.inl he), isLineEnd_last he]

theorem CommentLines.leftFrom {lead ind lines rest : Text} (isLead : IsLead lead)
    (h : CommentLines lead lines) (hi : ∀ c ∈ ind, isIndent c = true) :
    Reader.leftFrom (leadLine lead) (some '\n') (ind ++ (lines ++ rest)) =
      Reader.leftFrom (leadLine lead) (some '\n') rest := by
  induction h generalizing ind with
  | last hm he => exact leftFrom_commentLine isLead hi hm he rest
  | @cons more e ind' below hm he hi' _ ih =>
      rw [List.append_assoc (lead ++ more ++ e), leftFrom_commentLine isLead hi hm he,
        List.append_assoc ind', ih hi']

/-- Without its comment lines a body is laid out in the other parts. -/
theorem Laid.removeComments (visible : r.markers.Visible) (names : r.CallNames param)
    (h : Laid r param (.comment :: kinds) word t) (region : .region ∉ kinds)
    (comment : .comment ∉ kinds) (before : Option Char) :
    Laid r param kinds word (leftFrom (leadLine r.markers.lead) before t) := by
  induction h generalizing before with
  | @blank word g spacing =>
      rw [leftFrom_of_silent (silent_lines visible spacing.blank (Or.inl rfl) before)]
      exact .blank spacing
  | @part word k g t rest mem gap fits later ih =>
      rcases List.mem_cons.1 mem with rfl | mem'
      · -- the lines above stay
        obtain ⟨-, comments⟩ := fits
        obtain ⟨lines, ind, rfl, start, spacing, hi⟩ := gap.spacing.exists_lines
        obtain ⟨above, rfl⟩ : ∃ above, lines = above ++ ['\n'] := by
          rcases start with rfl | feed
          · exact absurd (gap.line rfl) (noFeed_of_all_isIndent hi)
          · exact List.getLast?_eq_some_iff.1 feed
        have silent : SilentBefore (leadLine r.markers.lead) before (above ++ ['\n'])
            (ind ++ (t ++ rest)) :=
          silent_lines visible spacing.blank (Or.inr start) before
        rw [List.append_assoc, leftFrom_append_of_silent silent, List.getLast?_concat, Option.some_or,
          comments.leftFrom visible.isLead hi]
        exact (ih _).spaced spacing (by simp)
      · have other := ne_of_mem_of_not_mem mem' region
        have other' := ne_of_mem_of_not_mem mem' comment
        have last : ∃ c, (g ++ t).getLast? = some c ∧ isBlank c = false := by
          obtain ⟨c, last, inked⟩ := fits.last_inked names other other'
          exact ⟨c, by rw [List.getLast?_append, last]; rfl, inked⟩
        have silent := silent_clear visible (clear_part visible gap fits other other') last before rest
        rw [← List.append_assoc, leftFrom_append_of_silent silent, List.append_assoc]
        exact .part mem' gap fits (ih _)

/-! ## The pass -/

/-- Stripping takes the regions and the comment lines and leaves the other parts. -/
theorem Laid.strip (visible : r.markers.Visible) (names : r.CallNames param)
    (h : Laid r param (.region :: .comment :: kinds) word t) (region : .region ∉ kinds)
    (comment : .comment ∉ kinds) : Laid r param kinds word (r.markers.strip t) := by
  have noRegions := h.removeRegions visible (by simp [region])
  have left := noRegions.removeComments visible names region comment none
  rw [← removeLeadLines_eq_leftFrom visible.lead_ne_nil] at left
  rwa [strip_of_rounds rfl (left.clear visible region comment).stripOnce_eq]

end Regraft.CarryOver
