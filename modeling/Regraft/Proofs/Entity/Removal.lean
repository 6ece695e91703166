import Regraft.Entity.Strip
import Regraft.Proofs.Entity.Join
import Regraft.Proofs.Text.Layout

/-!
# Regraft.Proofs.Entity.Removal -- what stays when entity statements are taken out

Next to a statement, removal takes white space only: `keptBefore_cases` lists the two things that can
happen, and `solid_removeFrom` says that no other character goes.  How much white space goes depends
on what follows; `frontFrom` follows the cursor over a first part of the segments, and
`frontFrom_swap` and `trimEnd_frontFrom` tell how little of what follows matters.
-/

namespace Regraft.Entity

set_option autoImplicit false

open Text

/-! ## The end of a line -/

theorem lineTail?_nil : lineTail? [] = some 0 := rfl

theorem lineTail?_indent {c : Char} (h : isIndent c = true) (t : Text) :
    lineTail? (c :: t) = (lineTail? t).map (· + 1) := by
  simp only [lineTail?, indentation, List.takeWhile_cons_of_pos h, List.length_cons,
    List.drop_succ_cons]
  split <;> rfl

theorem lineTail?_other {c : Char} (h : isIndent c = false) (t : Text) :
    lineTail? (c :: t) =
      if c = '\n' then some 1 else if c = '\r' ∧ t.head? = some '\n' then some 2 else none := by
  have blank : indentation (c :: t) = [] := by
    rw [indentation, List.takeWhile_cons_of_neg (by simp [h])]
  simp only [lineTail?, blank, List.length_nil, List.drop_zero]
  split
  · rename_i e
    cases e
  · rename_i e
    obtain ⟨rfl, -⟩ := List.cons.inj e
    rfl
  · rename_i e
    obtain ⟨rfl, rfl⟩ := List.cons.inj e
    rfl
  · rename_i feed e
    have notFeed : c ≠ '\n' := fun same => feed t (by rw [same])
    rw [if_neg notFeed, if_neg]
    rintro ⟨rfl, next⟩
    obtain ⟨t', rfl⟩ : ∃ t', t = '\n' :: t' := by
      cases t with
      | nil => simp at next
      | cons d t => exact ⟨t, by simpa using next⟩
    exact e t' rfl

/-- The end of a line is white space. -/
theorem lineTail?_spec {t : Text} {n : Nat} (h : lineTail? t = some n) :
    n ≤ t.length ∧ isBlankText (t.take n) = true := by
  induction t generalizing n with
  | nil =>
      rw [lineTail?_nil, Option.some.injEq] at h
      subst h
      exact ⟨Nat.le_refl _, rfl⟩
  | cons c t ih =>
      cases ind : isIndent c with
      | true =>
          rw [lineTail?_indent ind, Option.map_eq_some_iff] at h
          obtain ⟨k, found, rfl⟩ := h
          obtain ⟨bound, blank⟩ := ih found
          refine ⟨Nat.succ_le_succ bound, ?_⟩
          rw [List.take_succ_cons, isBlankText_cons, isBlank_of_isIndent ind, blank]
          rfl
      | false =>
          rw [lineTail?_other ind] at h
          split at h
          · rename_i feed
            simp only [Option.some.injEq] at h
            subst h feed
            exact ⟨by simp, by simp; decide⟩
          · split at h
            · rename_i ends
              obtain ⟨rfl, next⟩ := ends
              simp only [Option.some.injEq] at h
              cases t with
              | nil => simp at next
              | cons d t =>
                  obtain rfl : d = '\n' := by simpa using next
                  subst h
                  exact ⟨by simp, by simp; decide⟩
            · simp at h

/-- The rest of a line is known before the end of the text. -/
theorem lineTail?_swap {t : Text} (known : ∃ c ∈ t, isIndent c = false ∧ c ≠ '\r') (a b : Text) :
    lineTail? (t ++ a) = lineTail? (t ++ b) := by
  induction t with
  | nil => simp at known
  | cons c t ih =>
      cases ind : isIndent c with
      | true =>
          obtain ⟨d, m, other⟩ := known
          rcases List.mem_cons.1 m with rfl | m
          · rw [ind] at other
            cases other.1
          · rw [List.cons_append, List.cons_append, lineTail?_indent ind, lineTail?_indent ind,
              ih ⟨d, m, other⟩]
      | false =>
          rw [List.cons_append, List.cons_append, lineTail?_other ind, lineTail?_other ind]
          split
          · rfl
          · obtain ⟨d, m, other⟩ := known
            cases t with
            | nil =>
                rcases List.mem_cons.1 m with rfl | m
                · rw [if_neg fun h => other.2 h.1, if_neg fun h => other.2 h.1]
                · simp at m
            | cons e t => rfl

/-- The rest of a line ends with its line feed. -/
theorem lineTail?_le {s t : Text} {n : Nat} (feed : '\n' ∈ s) (h : lineTail? (s ++ t) = some n) :
    n ≤ s.length := by
  have swap := lineTail?_swap ⟨'\n', feed, by decide, by decide⟩ t []
  rw [h, List.append_nil] at swap
  exact (lineTail?_spec swap.symm).1

/-! ## One statement -/

/-- What stays of the text before a statement, `skip` characters of which are gone, and how much
goes behind the statement. -/
def keptBefore (skip : Nat) (before next : Text) : Text × Nat :=
  let kept := before.drop skip
  let (whole, last) := splitLastLine kept
  if isBlankText last then
    match lineTail? next with
    | some n => (whole, n)
    | none => (kept, 0)
  else (kept, 0)

theorem removeFrom_statement (skip : Nat) (before : Text) (s : Statement) (more : List Segment) :
    removeFrom skip (.statement before s :: more) =
      (keptBefore skip before (textOf more)).1 ++
        removeFrom (keptBefore skip before (textOf more)).2 more := by
  rw [removeFrom, keptBefore]
  simp only
  split
  · cases lineTail? (textOf more) <;> rfl
  · rfl

/-- A statement goes by itself, or with the white space around it on its line. -/
theorem keptBefore_cases (skip : Nat) (before next : Text) :
    keptBefore skip before next = (before.drop skip, 0) ∨
      ∃ whole last n, before.drop skip = whole ++ last ∧ isBlankText last = true ∧
        AtLineStart whole ∧ lineTail? next = some n ∧ keptBefore skip before next = (whole, n) := by
  rw [keptBefore]
  simp only
  split
  · rename_i blank
    cases e : lineTail? next with
    | none => exact Or.inl rfl
    | some n =>
        exact Or.inr ⟨_, _, n, (splitLastLine_append _).symm, blank,
          (splitLastLine_spec _).2, rfl, rfl⟩
  · exact Or.inl rfl

theorem keptBefore_swap {next next' : Text} (same : lineTail? next = lineTail? next') (skip : Nat)
    (before : Text) : keptBefore skip before next = keptBefore skip before next' := by
  simp only [keptBefore, same]

theorem solid_keptBefore (skip : Nat) (before next : Text) :
    solid (keptBefore skip before next).1 = solid (before.drop skip) := by
  rcases keptBefore_cases skip before next with e | ⟨whole, last, n, parts, blank, -, -, e⟩
  · rw [e]
  · rw [e, parts, solid_append, solid_eq_nil.2 blank, List.append_nil]

theorem trimEnd_keptBefore (skip : Nat) (before next : Text) :
    trimEnd (keptBefore skip before next).1 = trimEnd (before.drop skip) := by
  rcases keptBefore_cases skip before next with e | ⟨whole, last, n, parts, blank, -, -, e⟩
  · rw [e]
  · rw [e, parts, trimEnd_append_blank _ blank]

theorem keptBefore_skip (skip : Nat) (before next : Text) :
    (keptBefore skip before next).2 = 0 ∨
      lineTail? next = some (keptBefore skip before next).2 := by
  rcases keptBefore_cases skip before next with e | ⟨whole, last, n, -, -, -, tail, e⟩
  · rw [e]
    exact Or.inl rfl
  · rw [e]
    exact Or.inr tail

/-! ## All statements -/

/-- What a segment has outside its statement. -/
def Segment.between : Segment → Text
  | .statement before _ => before
  | .noLambda before taken => before ++ taken
  | .openEnded before taken => before ++ taken
  | .unclosed before head _ after => before ++ head ++ '{' :: after
  | .rest t => t

def betweenOf (segs : List Segment) : Text :=
  segs.flatMap Segment.between

theorem betweenOf_cons (seg : Segment) (more : List Segment) :
    betweenOf (seg :: more) = seg.between ++ betweenOf more := rfl

theorem textOf_prependFirst {segs : List Segment} (some_ : segs ≠ []) (g : Text) :
    textOf (prependFirst g segs) = g ++ textOf segs := by
  cases segs with
  | nil => exact absurd rfl some_
  | cons seg more => simp [prependFirst]

/-- A segment that is no statement is copied. -/
theorem removeFrom_other {seg : Segment} (other : ∀ before s, seg ≠ .statement before s)
    (skip : Nat) (more : List Segment) :
    removeFrom skip (seg :: more) = seg.text.drop skip ++ removeFrom 0 more := by
  cases seg with
  | statement before s => exact absurd rfl (other before s)
  | _ => rw [removeFrom]; simp

theorem solid_drop_of_blank {t : Text} {n : Nat} (blank : isBlankText (t.take n) = true) :
    solid (t.drop n) = solid t := by
  conv => rhs; rw [← List.take_append_drop n t]
  rw [solid_append, solid_eq_nil.2 blank, List.nil_append]

theorem isBlankText_take_left {s t : Text} {n : Nat}
    (blank : isBlankText ((s ++ t).take n) = true) : isBlankText (s.take n) = true := by
  rw [List.take_append, isBlankText_append, Bool.and_eq_true] at blank
  exact blank.1

/-- Taking statements out takes nothing else but white space. -/
theorem solid_removeFrom {skip : Nat} {segs : List Segment}
    (blank : isBlankText ((textOf segs).take skip) = true) :
    solid (removeFrom skip segs) = solid (betweenOf segs) := by
  induction segs generalizing skip with
  | nil => rfl
  | cons seg more ih =>
      rw [textOf_cons] at blank
      rw [betweenOf, List.flatMap_cons, solid_append]
      cases seg with
      | statement before s =>
          rw [Segment.text, List.append_assoc] at blank
          have later : isBlankText
              ((textOf more).take (keptBefore skip before (textOf more)).2) = true := by
            rcases keptBefore_skip skip before (textOf more) with none_ | tail
            · rw [none_]
              rfl
            · exact (lineTail?_spec tail).2
          rw [removeFrom_statement, solid_append, ih later, solid_keptBefore,
            solid_drop_of_blank (isBlankText_take_left blank)]
          rfl
      | _ =>
          rw [removeFrom_other (by simp), solid_append, ih (by rw [List.take_zero]; rfl),
            solid_drop_of_blank (isBlankText_take_left blank)]
          rfl

/-! ## A first part of the segments -/

/-- What stays of segments that are followed by `next`, and how much of `next` goes. -/
def frontFrom (skip : Nat) : List Segment → Text → Text × Nat
  | [], _ => ([], skip)
  | .statement before _ :: more, next =>
      let here := keptBefore skip before (textOf more ++ next)
      let later := frontFrom here.2 more next
      (here.1 ++ later.1, later.2)
  | seg :: more, next =>
      let later := frontFrom 0 more next
      (seg.text.drop skip ++ later.1, later.2)

theorem removeFrom_append (skip : Nat) (init tail : List Segment) :
    removeFrom skip (init ++ tail) =
      (frontFrom skip init (textOf tail)).1 ++
        removeFrom (frontFrom skip init (textOf tail)).2 tail := by
  induction init generalizing skip with
  | nil => rfl
  | cons seg more ih =>
      rw [List.cons_append]
      cases seg with
      | statement before s =>
          rw [removeFrom_statement, ih, frontFrom, textOf_append]
          simp
      | _ =>
          rw [removeFrom_other (by simp), ih, frontFrom]
          all_goals simp

/-- How much goes of what follows is at most the rest of a blank line. -/
theorem frontFrom_skip {skip : Nat} {init : List Segment} {next : Text}
    (h : skip = 0 ∨ lineTail? (textOf init ++ next) = some skip) :
    (frontFrom skip init next).2 = 0 ∨ lineTail? next = some (frontFrom skip init next).2 := by
  induction init generalizing skip with
  | nil => exact h
  | cons seg more ih =>
      cases seg with
      | statement before s => exact ih (keptBefore_skip skip before (textOf more ++ next))
      | _ => exact ih (Or.inl rfl)

/-- A statement whose text neither starts nor ends with white space, as every scanned one. -/
def IsFirm (seg : Segment) : Prop :=
  ∃ before s c rest, seg = .statement before s ∧ s.text = c :: rest ∧ isBlank c = false ∧
    ∀ d, s.text.getLast? = some d → isBlank d = false

theorem IsFirm.inked {seg : Segment} (h : IsFirm seg) : ∃ c ∈ seg.text, isBlank c = false := by
  obtain ⟨before, s, c, rest, rfl, e, inked, -⟩ := h
  exact ⟨c, by simp [Segment.text, e], inked⟩

/-- Firm segments do not end with white space. -/
theorem last_of_firm {init : List Segment} (firm : ∀ seg ∈ init, IsFirm seg) {c : Char}
    (last : (textOf init).getLast? = some c) : isBlank c = false := by
  induction init with
  | nil => simp at last
  | cons seg more ih =>
      rw [textOf_cons, List.getLast?_append] at last
      cases e : (textOf more).getLast? with
      | some d =>
          rw [e, Option.some_or] at last
          exact ih (fun seg m => firm seg (List.mem_cons_of_mem _ m)) (e ▸ last)
      | none =>
          obtain ⟨before, s, d, rest, rfl, text, -, lastInk⟩ := firm seg List.mem_cons_self
          rw [e, Option.none_or, Segment.text, List.getLast?_append] at last
          refine lastInk c ?_
          rw [text, List.getLast?_cons] at last ⊢
          exact last

theorem known_of_inked {t : Text} (h : ∃ c ∈ t, isBlank c = false) :
    ∃ c ∈ t, isIndent c = false ∧ c ≠ '\r' := by
  obtain ⟨c, m, inked⟩ := h
  refine ⟨c, m, isIndent_of_inked inked, ?_⟩
  rintro rfl
  revert inked
  decide

/-- Behind the end of the line, what follows the segments does not matter. -/
theorem frontFrom_swap {next : Text} (known : ∃ c ∈ next, isIndent c = false ∧ c ≠ '\r')
    (a b : Text) (skip : Nat) (init : List Segment) :
    frontFrom skip init (next ++ a) = frontFrom skip init (next ++ b) := by
  induction init generalizing skip with
  | nil => rfl
  | cons seg more ih =>
      cases seg with
      | statement before s =>
          have known' : ∃ c ∈ textOf more ++ next, isIndent c = false ∧ c ≠ '\r' := by
            obtain ⟨c, m, other⟩ := known
            exact ⟨c, List.mem_append_right _ m, other⟩
          rw [frontFrom, frontFrom, ← List.append_assoc, ← List.append_assoc,
            keptBefore_swap (lineTail?_swap known' a b), ih]
      | _ => simp only [frontFrom, ih]

/-- What follows the segments decides on white space at their end only. -/
theorem trimEnd_frontFrom {init : List Segment} (firm : ∀ seg ∈ init, IsFirm seg) (skip : Nat)
    (next next' : Text) :
    trimEnd (frontFrom skip init next).1 = trimEnd (frontFrom skip init next').1 := by
  induction init generalizing skip with
  | nil => rfl
  | cons seg more ih =>
      obtain ⟨before, s, c, rest, rfl, -, -⟩ := firm seg List.mem_cons_self
      have firmMore : ∀ seg ∈ more, IsFirm seg := fun seg m => firm seg (List.mem_cons_of_mem _ m)
      cases more with
      | nil => simp only [frontFrom, List.append_nil, trimEnd_keptBefore]
      | cons seg more =>
          have known : ∃ c ∈ textOf (seg :: more), isIndent c = false ∧ c ≠ '\r' := by
            obtain ⟨c, m, inked⟩ := (firmMore seg List.mem_cons_self).inked
            exact known_of_inked ⟨c, List.mem_append_left _ m, inked⟩
          rw [frontFrom, frontFrom, keptBefore_swap (lineTail?_swap known next next')]
          exact trimEnd_append_congr _ (ih firmMore _)

/-- Taking statements out keeps the layout plain. -/
theorem plainBlanks_frontFrom {init : List Segment} (firm : ∀ seg ∈ init, IsFirm seg) (skip : Nat)
    (next : Text) (plain : plainBlanks (textOf init) = true) :
    plainBlanks (frontFrom skip init next).1 = true := by
  induction init generalizing skip with
  | nil => rfl
  | cons seg more ih =>
      obtain ⟨before, s, c, rest, rfl, e, inked, -⟩ := firm seg List.mem_cons_self
      rw [textOf_cons] at plain
      have later := ih (fun seg m => firm seg (List.mem_cons_of_mem _ m))
        (keptBefore skip before (textOf more ++ next)).2 (plainBlanks_right plain)
      rw [frontFrom]
      refine plainBlanks_append ?_ later
      have whole : plainBlanks before = true := by
        rw [Segment.text, e, List.append_assoc, List.cons_append] at plain
        exact plainBlanks_of_inked plain inked
      rcases keptBefore_cases skip before (textOf more ++ next) with
        e | ⟨w, l, n, parts, -, start, -, e⟩
      · rw [e]
        exact plainBlanks_drop whole skip
      · rw [e]
        have := plainBlanks_drop whole skip
        rw [parts] at this
        exact plainBlanks_of_atLineStart this start

/-! ## More text before the first segment -/

/-- Whether a first statement has something before it on its line. -/
def Headed : List Segment → Prop
  | .statement before _ :: _ => isBlankText before = false
  | _ => True

theorem keptBefore_prepend {g before next : Text} {k : Nat} (inked : isBlankText before = false)
    (bound : k ≤ g.length) :
    keptBefore k (g ++ before) next =
      (g.drop k ++ (keptBefore 0 before next).1, (keptBefore 0 before next).2) := by
  have drop : (g ++ before).drop k = g.drop k ++ before := List.drop_append_of_le_length bound
  by_cases feed : '\n' ∈ before
  · simp only [keptBefore, drop, splitLastLine_append_of_mem feed, List.drop_zero]
    split
    · cases lineTail? next <;> rfl
    · rfl
  · have here : splitLastLine before = ([], before) :=
      splitLastLine_eq rfl feed (Or.inl rfl)
    simp only [keptBefore, drop, splitLastLine_append_of_not_mem feed, List.drop_zero, here,
      isBlankText_append, inked, Bool.and_false, Bool.false_eq_true, if_false]

/-- Text before the first segment stays, as far as it is not gone already. -/
theorem removeFrom_prependFirst {g : Text} {segs : List Segment} {k : Nat} (some_ : segs ≠ [])
    (headed : Headed segs) (bound : k ≤ g.length) :
    removeFrom k (prependFirst g segs) = g.drop k ++ removeFrom 0 segs := by
  cases segs with
  | nil => exact absurd rfl some_
  | cons seg more =>
      rw [prependFirst]
      cases seg with
      | statement before s =>
          rw [Segment.prepend, removeFrom_statement, removeFrom_statement,
            keptBefore_prepend headed bound]
          simp
      | _ =>
          rw [removeFrom_other (by simp [Segment.prepend]), removeFrom_other (by simp),
            Segment.prepend_text, List.drop_append_of_le_length bound]
          simp

/-- Segments without statements are copied. -/
theorem removeFrom_copied {init : List Segment}
    (quiet : ∀ seg ∈ init, ∀ before s, seg ≠ .statement before s) (more : List Segment) :
    removeFrom 0 (init ++ more) = textOf init ++ removeFrom 0 more := by
  induction init with
  | nil => rfl
  | cons seg init ih =>
      rw [List.cons_append, removeFrom_other (quiet seg List.mem_cons_self),
        ih fun seg m => quiet seg (List.mem_cons_of_mem _ m)]
      simp

/-- So they are behind text that stands before the first of them. -/
theorem removeFrom_copied_behind {g : Text} {init : List Segment} {k : Nat} (some_ : init ≠ [])
    (quiet : ∀ seg ∈ init, ∀ before s, seg ≠ .statement before s) (bound : k ≤ g.length)
    (more : List Segment) :
    removeFrom k (prependFirst g (init ++ more)) =
      g.drop k ++ (textOf init ++ removeFrom 0 more) := by
  have headed : Headed (init ++ more) := by
    cases init with
    | nil => exact absurd rfl some_
    | cons seg init =>
        have other := quiet seg List.mem_cons_self
        cases seg with
        | statement before s => exact absurd rfl (other before s)
        | _ => trivial
  rw [removeFrom_prependFirst (by simp [some_]) headed bound, removeFrom_copied quiet]

theorem removeFrom_quiet {g w g₂ : Text} {init segs : List Segment} {k : Nat}
    (quiet : ∀ seg ∈ init, ∀ before s, seg ≠ .statement before s) (some_ : segs ≠ [])
    (headed : Headed segs) (bound : k ≤ g.length) :
    removeFrom k (prependFirst g (init ++ prependFirst (w ++ g₂) segs)) =
      g.drop k ++ (textOf (init ++ [.rest w]) ++ g₂) ++ removeFrom 0 segs := by
  by_cases alone : init = []
  · subst alone
    rw [List.nil_append, prependFirst_prependFirst, removeFrom_prependFirst some_ headed
      (by rw [List.length_append]; omega), List.drop_append_of_le_length bound]
    simp [Segment.text]
  · rw [removeFrom_copied_behind alone quiet bound,
      removeFrom_prependFirst some_ headed (Nat.zero_le _)]
    simp [Segment.text]

end Regraft.Entity
