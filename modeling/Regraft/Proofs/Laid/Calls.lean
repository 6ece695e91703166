import Regraft.Proofs.Laid.Statements

/-!
# Regraft.Proofs.Laid.Calls -- forwarding calls in a body that is laid out in parts

A call goes with the indentation before it and the rest of its line.  The cut may bring two parts of
code together, which code does not mind: nothing begins in it and ends behind it.  So what is left is
code and white space (`Laid.removeCalls`), and no call is found in that (`Laid.silent`).
-/

namespace Regraft

set_option autoImplicit false

open Text Reader

/-- Silence in two texts one behind the other. -/
theorem Reader.SilentBefore.append {α : Type} {r : Option Char → Reader α} {before : Option Char}
    {s t more : Text} (hs : SilentBefore r before s (t ++ more))
    (ht : SilentBefore r (s.getLast?.or before) t more) : SilentBefore r before (s ++ t) more := by
  induction s generalizing before with
  | nil => exact ht
  | cons c s ih =>
      rw [getLast?_or_cons] at ht
      refine .cons ?_ (ih hs.tail ht)
      simpa using hs [] c s rfl

namespace CarryOver

open Rules Entity

variable {r : Rules} {param : Text} {kinds : List Kind} {word : Bool} {t : Text}

/-! ## Code -/

/-- No call starts in white space with nothing behind it. -/
theorem silent_blank (names : r.CallNames param) {g : Text} (blank : isBlankText g = true)
    (before : Option Char) : SilentBefore (r.forwardingCall param) before g [] := by
  rintro front c back rfl
  rw [isBlankText_append, Bool.and_eq_true] at blank
  refine List.eq_nil_iff_forall_not_mem.2 fun p m => ?_
  obtain ⟨⟨⟩, rest⟩ := p
  obtain ⟨ind, this, bare, tail, -, hthis, hbare, -, -, e⟩ := mem_forwardingCall.1 m
  obtain ⟨d, more, call, inked⟩ :=
    IsCall.starts_inked names ⟨this, bare, hthis, hbare, rfl⟩
  rw [List.append_nil, List.append_assoc ind, call] at e
  exact not_mem_of_isBlankText blank.2 inked (by simp [e])

/-- No call starts in code and the gap before it, whatever follows. -/
theorem silent_code (names : r.CallNames param) {g : Text} (blank : isBlankText g = true)
    (code : Code r param t) (before : Option Char) (more : Text) :
    SilentBefore (r.forwardingCall param) before (g ++ t) more := by
  obtain ⟨c, rest, e, inked, -⟩ := code.starts
  obtain ⟨d, last, inked'⟩ := code.last_inked
  have unsplit : Unsplit (r.IsCall param) (g ++ t) := by
    refine (unsplit_of_blank blank fun call reads b head => ?_).append code.unsplit_call
    obtain ⟨b', rest', rfl, inked⟩ := reads.starts_inked names
    obtain rfl := Option.some.inj head
    exact inked
  refine silent_append names (silent_gap names blank ⟨c, rest, e, inked⟩
    (firstCall?_eq_none_iff_silent.1 code.noCall) none) unsplit ⟨d, ?_, inked'⟩ before more
  rw [List.getLast?_append, last]
  rfl

/-- Nothing but code has no calls. -/
theorem Laid.silent (names : r.CallNames param) (h : Laid r param [.code] word t)
    (before : Option Char) : SilentBefore (r.forwardingCall param) before t [] := by
  induction h generalizing before with
  | blank spacing => exact silent_blank names spacing.blank before
  | part mem gap fits _ ih =>
      obtain rfl := List.mem_singleton.1 mem
      rw [← List.append_assoc]
      exact (silent_code names gap.spacing.blank fits.2 before _).append (ih _)

/-! ## The pass -/

/-- White space may be gone from the front. -/
theorem Laid.drop_blank (names : r.CallNames param) {s : Text} (h : Laid r param kinds word (s ++ t))
    (region : .region ∉ kinds) (comment : .comment ∉ kinds) (blank : isBlankText s = true) :
    Laid r param kinds false t := by
  generalize whole : s ++ t = u at h
  cases h with
  | blank spacing => exact .blank (whole ▸ spacing).right
  | @part _ k g part rest mem gap fits later =>
      have comment' := ne_of_mem_of_not_mem mem comment
      obtain ⟨c, more, rfl, inked, -⟩ := fits.starts names (ne_of_mem_of_not_mem mem region) comment'
      obtain ⟨g', rfl, rfl⟩ : ∃ g', g = s ++ g' ∧ t = g' ++ (c :: more ++ rest) := by
        rcases List.append_eq_append_iff.1 whole with inGap | ⟨x, rfl, e⟩
        · exact inGap
        · cases x with
          | nil => exact ⟨[], by simp, e.symm⟩
          | cons d x =>
              obtain ⟨rfl, -⟩ := List.cons.inj e
              exact absurd (by simp) (not_mem_of_isBlankText blank inked)
      exact .part mem ⟨gap.spacing.right, fun _ _ => rfl, fun e => absurd e comment'⟩ fits later

/-- Code may stand behind anything. -/
theorem Laid.behind {g : Text} {word' : Bool} (h : Laid r param [.code] word t) (spacing : Spacing g) :
    Laid r param [.code] word' (g ++ t) := by
  cases h with
  | blank hg => exact .blank (spacing.append hg)
  | part mem gap fits later =>
      obtain rfl := List.mem_singleton.1 mem
      rw [← List.append_assoc]
      exact .part mem ⟨spacing.append gap.spacing, by simp, by simp⟩ fits later

/-- A call behind a gap goes with the indentation before it, and the walk goes on behind it. -/
theorem leftFrom_call (names : r.CallNames param) {g call : Text} {before : Option Char}
    (spacing : Spacing g) (apart : g = [] → wordAt before = false) (reads : r.IsCall param call)
    (rest : Text) :
    ∃ lines taken tail more, Spacing lines ∧ isBlankText tail = true ∧ rest = tail ++ more ∧
      wordAt taken = false ∧
      leftFrom (r.forwardingCall param) before (g ++ (call ++ rest)) =
        lines ++ leftFrom (r.forwardingCall param) taken more := by
  obtain ⟨lines, ind, rfl, start, spacing', hi⟩ := spacing.exists_lines
  have edge := wordAt_gap spacing.blank apart
  rw [List.getLast?_append, Option.or_assoc] at edge
  obtain ⟨tail, more, htail, rfl, found⟩ := reads.exists_first? names hi edge rest
  have text : lines ++ ind ++ (call ++ (tail ++ more)) = lines ++ (ind ++ call ++ tail ++ more) := by
    simp
  rw [← List.append_assoc] at found
  refine ⟨lines, (ind ++ call ++ tail).getLast?, tail, more, spacing', isBlankText_callTail htail,
    rfl, wordAt_taken names reads htail, ?_⟩
  rw [text, leftFrom_append_of_silent (silent_blankLines names spacing'.blank start before _),
    leftFrom_of_first? names reads found]

/-- Without its calls a body of calls and code is nothing but code. -/
theorem Laid.leftFrom_calls (names : r.CallNames param) (before : Option Char)
    (h : Laid r param [.call, .code] (wordAt before) t) :
    Laid r param [.code] (wordAt before) (leftFrom (r.forwardingCall param) before t) := by
  induction length : t.length using Nat.strongRecOn generalizing before t with
  | ind n ih =>
      generalize e : wordAt before = word at h
      cases h with
      | blank spacing =>
          rw [leftFrom_of_silent (silent_blank names spacing.blank before)]
          exact .blank spacing
      | @part _ k g t rest mem gap fits later =>
          rcases List.mem_cons.1 mem with rfl | code
          · obtain ⟨-, reads, -⟩ := fits
            obtain ⟨lines, taken, tail, more, spacing, blank, rfl, edge, left⟩ :=
              leftFrom_call names gap.spacing (fun none_ => e.trans (gap.apart (by simp) none_)) reads
                rest
            have laid := later.drop_blank names (by simp) (by simp) blank
            have shorter : more.length < n := by
              obtain ⟨c, back, rfl, -⟩ := reads.starts names
              simp only [List.length_append, List.length_cons] at length
              omega
            rw [← edge] at laid
            rw [left]
            exact (ih more.length shorter _ laid rfl).behind spacing
          · obtain rfl := List.mem_singleton.1 code
            obtain ⟨d, last, -⟩ := fits.2.last_inked
            have behind : (g ++ t).getLast?.or before = t.getLast? := by
              rw [List.getLast?_append, last]
              rfl
            have shorter : rest.length < n := by
              obtain ⟨c, back, rfl, -⟩ := fits.2.starts
              simp only [List.length_append, List.length_cons] at length
              omega
            rw [← List.append_assoc,
              leftFrom_append_of_silent (silent_code names gap.spacing.blank fits.2 before rest),
              List.append_assoc, behind]
            exact .part (by simp) gap fits (ih rest.length shorter _ later rfl)

theorem Laid.removeCalls (names : r.CallNames param) (h : Laid r param [.call, .code] false t) :
    Laid r param [.code] false (r.removeCalls param t) := by
  rw [Rules.removeCalls, remove_eq_leftFrom]
  exact Laid.leftFrom_calls names none h

end CarryOver

end Regraft
