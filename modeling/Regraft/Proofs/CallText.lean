import Regraft.Proofs.Extraction

/-!
# Regraft.Proofs.CallText -- texts of forwarding calls and white space

`CallText` texts are what a generated body has beside its entity statements.  A call ends at its
first semicolon, so such a text comes apart behind a semicolon (`CallText.split`).  Taking the calls
out of it leaves white space (`CallText.isBlankText_leftFrom`), and blank lines where the text is
made of whole lines (`CallText.leftFrom_lines`).  `silent_append` is about hand-written code: where it
cuts no call in two, what follows it brings none about.
-/

namespace Regraft.Rules

set_option autoImplicit false

open Text Reader CarryOver

/-- The names in a forwarding call are words. -/
structure CallNames (r : Rules) (param : Text) : Prop where
  forward_some : r.forward ≠ []
  forward : ∀ c ∈ r.forward, isWord c = true
  param : ∀ c ∈ param, isWord c = true

theorem callNames_standard {param : Text} (words : ∀ c ∈ param, isWord c = true) :
    Rules.standard.CallNames param where
  forward_some := by decide
  forward := List.all_eq_true.1 (by decide)
  param := words

variable {r : Rules} {param : Text}

/-! ## One call -/

/-- Whether a character ends or opens something that a call has no part in. -/
def IsForeign (c : Char) : Prop :=
  c = ';' ∨ c = '}' ∨ c = '<'

theorem IsForeign.not_blank {c : Char} (h : IsForeign c) : isBlank c = false := by
  rcases h with rfl | rfl | rfl <;> decide

theorem IsForeign.not_word {c : Char} (h : IsForeign c) : isWord c = false := by
  rcases h with rfl | rfl | rfl <;> decide

theorem not_mem_blank {c : Char} {t : Text} (h : IsForeign c) (blank : isBlankText t = true) :
    c ∉ t :=
  not_mem_of_isBlankText blank h.not_blank

theorem not_mem_words {c : Char} {t : Text} (h : IsForeign c) (words : ∀ d ∈ t, isWord d = true) :
    c ∉ t := by
  intro m
  have := words c m
  rw [h.not_word] at this
  cases this

/-- A call ends with its first semicolon. -/
theorem IsCall.ends (names : r.CallNames param) {call : Text} (h : r.IsCall param call) :
    ∃ front, call = front ++ [';'] ∧ ∀ c, IsForeign c → c ∉ front := by
  obtain ⟨this, bare, hthis, ⟨w₁, w₂, w₃, w₄, h₁, h₂, h₃, h₄, rfl⟩, rfl⟩ := h
  refine ⟨this ++ (r.forward ++ w₁ ++ '(' :: w₂ ++ param ++ w₃ ++ ')' :: w₄), by simp, ?_⟩
  intro c foreign
  have other : c ≠ '(' ∧ c ≠ ')' ∧ c ≠ '.' ∧ c ∉ "this".toList := by
    rcases foreign with rfl | rfl | rfl <;> decide
  have receiver : c ∉ this := by
    rcases hthis with rfl | ⟨left, right, hl, hr, rfl⟩
    · simp
    · simp only [List.mem_append, List.mem_cons, not_or]
      exact ⟨⟨other.2.2.2, not_mem_blank foreign hl⟩, other.2.2.1, not_mem_blank foreign hr⟩
  simp only [List.mem_append, List.mem_cons, not_or]
  exact ⟨receiver, ⟨⟨⟨⟨not_mem_words foreign names.forward, not_mem_blank foreign h₁⟩, other.1,
    not_mem_blank foreign h₂⟩, not_mem_words foreign names.param⟩, not_mem_blank foreign h₃⟩,
    other.2.1, not_mem_blank foreign h₄⟩

/-- A call starts with a word. -/
theorem IsCall.starts (names : r.CallNames param) {call : Text} (h : r.IsCall param call) :
    ∃ c rest, call = c :: rest ∧ isWord c = true := by
  obtain ⟨this, bare, rfl | ⟨left, right, -, -, rfl⟩, ⟨w₁, w₂, w₃, w₄, -, -, -, -, rfl⟩, rfl⟩ := h
  · cases e : r.forward with
    | nil => exact absurd e names.forward_some
    | cons c forward => exact ⟨c, _, rfl, names.forward c (by rw [e]; exact List.mem_cons_self)⟩
  · exact ⟨'t', _, rfl, by decide⟩

theorem IsCall.starts_inked (names : r.CallNames param) {call : Text} (h : r.IsCall param call) :
    ∃ c rest, call = c :: rest ∧ isBlank c = false := by
  obtain ⟨c, rest, e, word⟩ := h.starts names
  exact ⟨c, rest, e, isBlank_of_isWord word⟩

/-- Behind a call a semicolon is the last solid character as long as no other ends the text. -/
theorem IsCall.solid_last (names : r.CallNames param) {call t : Text} (h : r.IsCall param call)
    (ends : solid t = [] ∨ (solid t).getLast? = some ';') :
    (solid (call ++ t)).getLast? = some ';' := by
  obtain ⟨front, rfl, -⟩ := h.ends names
  rw [solid_append, List.getLast?_append]
  rcases ends with none_ | last
  · rw [none_, solid_append, List.getLast?_append]
    rfl
  · rw [last]
    rfl

/-- A text starts with at most one call. -/
theorem call_append_inj (names : r.CallNames param) {call call' t t' : Text}
    (h : r.IsCall param call) (h' : r.IsCall param call') (e : call ++ t = call' ++ t') :
    call = call' ∧ t = t' := by
  obtain ⟨front, rfl, none_⟩ := h.ends names
  obtain ⟨front', rfl, absent⟩ := h'.ends names
  rw [List.append_assoc, List.append_assoc] at e
  obtain ⟨rfl, rest⟩ := append_char_inj e (none_ ';' (Or.inl rfl)) (absent ';' (Or.inl rfl))
  exact ⟨rfl, rest⟩

/-- A start of a call that ends where a statement ends is the whole call. -/
theorem IsCall.whole (names : r.CallNames param) {call s t : Text} (h : r.IsCall param call)
    (e : call = s ++ t) (ends : s.getLast? = some ';' ∨ s.getLast? = some '}') : t = [] := by
  obtain ⟨front, rfl, none_⟩ := h.ends names
  rcases List.eq_nil_or_concat t with rfl | ⟨t', c, rfl⟩
  · rfl
  · exfalso
    rw [List.concat_eq_append, ← List.append_assoc] at e
    obtain ⟨rfl, -⟩ := List.append_inj' e rfl
    rcases ends with last | last
    · exact none_ ';' (Or.inl rfl) (List.mem_append_left _ (List.mem_of_getLast? last))
    · exact none_ '}' (Or.inr (Or.inl rfl)) (List.mem_append_left _ (List.mem_of_getLast? last))

theorem forwardingCall_consuming (r : Rules) (param : Text) :
    Consuming (r.forwardingCall param) := by
  rintro before t ⟨⟨⟩, rest⟩ m
  obtain ⟨ind, this, bare, tail, -, -, ⟨w₁, w₂, w₃, w₄, -, -, -, -, rfl⟩, -, -, rfl⟩ :=
    mem_forwardingCall.1 m
  simp only [List.length_append, List.length_cons]
  omega

/-- No call is found exactly if none is read anywhere. -/
theorem firstCall?_eq_none_iff_silent {t : Text} :
    r.firstCall? param t = none ↔ SilentBefore (r.forwardingCall param) none t [] := by
  rw [firstCall?, Option.map_eq_none_iff, List.head?_eq_none_iff]
  exact ⟨silent_of_occurrences (r.forwardingCall_consuming param), occurrences_of_silent⟩

/-- A call is read where no word goes on. -/
theorem forwardingCall_ne_nil (names : r.CallNames param) {ind call rest : Text}
    {before : Option Char} (hi : ∀ c ∈ ind, isIndent c = true) (h : r.IsCall param call)
    (edge : wordAt (ind.getLast?.or before) = false) :
    r.forwardingCall param before (ind ++ call ++ rest) ≠ [] := by
  obtain ⟨this, bare, hthis, hbare, rfl⟩ := h
  have some_ : ((), rest) ∈ r.forwardingCall param before (ind ++ (this ++ bare) ++ rest) := by
    refine mem_forwardingCall.2 ⟨ind, this, bare, [], hi, hthis, hbare,
      ⟨[], [], by simp, Or.inl rfl, rfl⟩, ?_, by simp⟩
    have starts : wordAt (bare ++ [] ++ rest).head? = true := by
      obtain ⟨c, more, rfl, word⟩ :=
        IsCall.starts names ⟨[], bare, Or.inl rfl, hbare, rfl⟩
      exact word
    have ends : wordAt ((ind ++ this).getLast?.or before) = false := by
      rcases hthis with rfl | ⟨left, right, -, hr, rfl⟩
      · rwa [List.append_nil]
      · rcases List.eq_nil_or_concat right with rfl | ⟨right, d, rfl⟩
        · rw [← List.append_assoc, List.getLast?_concat]
          show wordAt (some '.') = false
          decide
        · simp only [List.concat_eq_append, List.getLast?_append, List.getLast?_cons,
            Option.some_or, Option.getD_some]
          exact isWord_of_isBlank (isBlankText_iff.1 hr d (by simp))
    rw [starts, ends]
    decide
  intro none_
  rw [none_] at some_
  cases some_

/-! ## Call texts -/

/-- Forwarding calls and white space. -/
inductive CallText (r : Rules) (param : Text) : Text → Prop where
  | nil : CallText r param []
  | blank {c : Char} {t : Text} : isBlank c = true → CallText r param t →
      CallText r param (c :: t)
  | call {call t : Text} : r.IsCall param call → CallText r param t →
      CallText r param (call ++ t)

namespace CallText

theorem append {s t : Text} (hs : CallText r param s) (ht : CallText r param t) :
    CallText r param (s ++ t) := by
  induction hs with
  | nil => exact ht
  | blank white _ ih => exact .blank white ih
  | call reads _ ih =>
      rw [List.append_assoc]
      exact .call reads ih

theorem of_blank {t : Text} (blank : isBlankText t = true) : CallText r param t := by
  induction t with
  | nil => exact .nil
  | cons c t ih =>
      rw [isBlankText_cons, Bool.and_eq_true] at blank
      exact .blank blank.1 (ih blank.2)

/-- A text of pieces that are white space and calls. -/
theorem of_pieces {pieces : List (Piece Unit)}
    (plain : ∀ c, Piece.plain c ∈ pieces → isBlank c = true)
    (hits : ∀ taken a, Piece.hit taken a ∈ pieces → CallText r param taken) :
    CallText r param (pieces.flatMap Piece.text) := by
  induction pieces with
  | nil => exact .nil
  | cons p pieces ih =>
      have later := ih (fun c m => plain c (List.mem_cons_of_mem _ m))
        fun taken a m => hits taken a (List.mem_cons_of_mem _ m)
      rw [List.flatMap_cons]
      cases p with
      | plain c => exact .blank (plain c List.mem_cons_self) later
      | hit taken a => exact (hits taken a List.mem_cons_self).append later

/-- A text of which only white space is left has nothing but calls. -/
theorem of_leftFrom (before : Option Char) {t : Text}
    (blank : isBlankText (leftFrom (r.forwardingCall param) before t) = true) :
    CallText r param t := by
  have text := cuts_text (r.forwardingCall_suffixed param) before t
  rw [← text]
  refine of_pieces (fun c m => ?_) fun taken a m => ?_
  · refine isBlankText_iff.1 blank c ?_
    rw [leftFrom, List.mem_flatMap]
    exact ⟨_, m, List.mem_singleton.2 rfl⟩
  · obtain ⟨-, b, rest, read, -⟩ := mem_cuts_hit (r.forwardingCall_suffixed param) m
    obtain ⟨ind, this, bare, tail, hi, hthis, hbare, htail, -, e⟩ := mem_forwardingCall.1 read
    obtain rfl := List.append_cancel_right e
    rw [List.append_assoc ind]
    exact ((of_blank (isBlankText_of_all_isIndent hi)).append
      (by simpa using CallText.call ⟨this, bare, hthis, hbare, rfl⟩ .nil)).append
      (of_blank (isBlankText_callTail htail))

/-- A call text comes apart behind a semicolon. -/
theorem split (names : r.CallNames param) {s t : Text} (h : CallText r param (s ++ t))
    (ends : solid s = [] ∨ (solid s).getLast? = some ';') :
    CallText r param s ∧ CallText r param t := by
  generalize whole : s ++ t = u at h
  induction h generalizing s with
  | nil =>
      obtain ⟨rfl, rfl⟩ := List.append_eq_nil_iff.1 whole
      exact ⟨.nil, .nil⟩
  | @blank c u white h ih =>
      cases s with
      | nil =>
          rw [List.nil_append] at whole
          exact ⟨.nil, whole ▸ .blank white h⟩
      | cons d s =>
          obtain ⟨rfl, rest⟩ := List.cons.inj whole
          rw [solid_cons, if_pos white] at ends
          obtain ⟨left, right⟩ := ih ends rest
          exact ⟨.blank white left, right⟩
  | @call call u reads h ih =>
      rcases List.append_eq_append_iff.1 whole with ⟨more, e, rest⟩ | ⟨more, e, rest⟩
      · -- the cut lies in the call, so it lies before or behind it
        rcases ends with blank | last
        · cases s with
          | nil =>
              rw [List.nil_append] at e
              exact ⟨.nil, rest ▸ e ▸ .call reads h⟩
          | cons d s =>
              obtain ⟨c, back, same, inked⟩ := reads.starts_inked names
              rw [same] at e
              obtain ⟨rfl, -⟩ := List.cons.inj e
              rw [solid_cons, inked] at blank
              simp at blank
        · obtain ⟨tail, parts, -⟩ := trimEnd_append s
          rw [← getLast?_trimEnd] at last
          have whole : call = trimEnd s ++ (tail ++ more) := by
            rw [← List.append_assoc, ← parts, e]
          obtain ⟨rfl, rfl⟩ := List.append_eq_nil_iff.1 (reads.whole names whole (Or.inl last))
          rw [List.append_nil] at e
          rw [List.nil_append] at rest
          rw [← e, rest]
          exact ⟨by simpa using CallText.call reads .nil, h⟩
      · subst e
        have ends' : solid more = [] ∨ (solid more).getLast? = some ';' := by
          rw [solid_append] at ends
          rcases ends with blank | last
          · exact Or.inl (List.append_eq_nil_iff.1 blank).2
          · cases e : solid more with
            | nil => exact Or.inl rfl
            | cons d rest =>
                rw [e, List.getLast?_append_cons] at last
                exact Or.inr last
        obtain ⟨left, right⟩ := ih ends' rest.symm
        exact ⟨.call reads left, right⟩

/-- The solid characters of a call text end a call. -/
theorem ends (names : r.CallNames param) {t : Text} (h : CallText r param t) :
    solid t = [] ∨ (solid t).getLast? = some ';' := by
  induction h with
  | nil => exact Or.inl rfl
  | blank white _ ih => rwa [solid_cons, if_pos white]
  | call reads _ ih => exact Or.inr (reads.solid_last names ih)

/-- What stands before a call ends a call itself, unless a receiver was put in front of the call. -/
theorem ends_before (names : r.CallNames param) {s t call z : Text}
    (h : CallText r param (s ++ t)) (reads : r.IsCall param call)
    (starts : solid t = solid call ++ z) (alone : ¬ receiverWord <:+ solid s) :
    solid s = [] ∨ (solid s).getLast? = some ';' := by
  generalize whole : s ++ t = u at h
  induction h generalizing s with
  | nil => exact Or.inl (by rw [(List.append_eq_nil_iff.1 whole).1]; rfl)
  | @blank c u white h ih =>
      cases s with
      | nil => exact Or.inl rfl
      | cons d s =>
          obtain ⟨rfl, rest⟩ := List.cons.inj whole
          rw [solid_cons, if_pos white] at alone ⊢
          exact ih alone rest
  | @call call' u reads' h ih =>
      rcases List.append_eq_append_iff.1 whole with ⟨more, e, rest⟩ | ⟨more, rfl, rest⟩
      · rcases List.eq_nil_or_concat more with rfl | ⟨more, c, rfl⟩
        · have last := reads'.solid_last (t := []) names (Or.inl rfl)
          rw [List.append_nil] at e last
          exact Or.inr (e ▸ last)
        · -- the rest of the call is the call that starts behind the cut
          obtain ⟨front', rfl, absent⟩ := reads'.ends names
          rw [List.concat_eq_append, ← List.append_assoc] at e
          obtain ⟨rfl, same⟩ := List.append_inj' e rfl
          obtain rfl : ';' = c := by simpa using same
          obtain ⟨front, rfl, none_⟩ := reads.ends names
          have absent : ';' ∉ solid more := fun m =>
            absent ';' (Or.inl rfl) (List.mem_append_right _ (mem_solid.1 m).1)
          have absent' : ';' ∉ solid front := fun m => none_ ';' (Or.inl rfl) (mem_solid.1 m).1
          have text : solid more ++ ';' :: solid u = solid front ++ ';' :: z := by
            have semi : solid [';'] = [';'] := by decide
            rw [rest, List.concat_eq_append, solid_append, solid_append, solid_append, semi] at starts
            simpa only [List.append_assoc, List.singleton_append] using starts
          obtain ⟨same, -⟩ := append_char_inj text absent absent'
          have word : solid (s ++ more ++ [';']) = solid s ++ solid (front ++ [';']) := by
            rw [solid_append, solid_append, same, List.append_assoc, ← solid_append]
          have inWords := solid_call reads'
          rw [word] at inWords
          rcases solid_call reads with e' | e' <;> rw [e'] at inWords <;> rcases inWords with w | w
          · exact Or.inl (List.append_left_eq_self.1 w)
          · rw [List.append_cancel_right w] at alone
            exact absurd (List.suffix_refl _) alone
          · rw [← List.append_assoc] at w
            have := List.append_left_eq_self.1 w
            exact Or.inl (List.append_eq_nil_iff.1 this).1
          · exact Or.inl (List.append_left_eq_self.1 w)
      · have alone' : ¬ receiverWord <:+ solid more := fun ends =>
          alone (by rw [solid_append]; exact ends.trans (List.suffix_append ..))
        exact Or.inr (reads'.solid_last names (ih alone' rest.symm))

theorem not_mem_foreign (names : r.CallNames param) {t : Text} (h : CallText r param t) {c : Char}
    (foreign : IsForeign c) (other : c ≠ ';') : c ∉ t := by
  induction h with
  | nil => simp
  | @blank d t white _ ih =>
      rw [List.mem_cons, not_or]
      refine ⟨?_, ih⟩
      rintro rfl
      rw [foreign.not_blank] at white
      cases white
  | @call call t reads _ ih =>
      obtain ⟨front, rfl, none_⟩ := reads.ends names
      rw [List.mem_append, List.mem_append, List.mem_singleton, not_or, not_or]
      exact ⟨⟨none_ c foreign, other⟩, ih⟩

/-- What a reading of a call leaves of a call text is one. -/
theorem of_reading (names : r.CallNames param) {ind call tail rest : Text}
    (h : CallText r param (ind ++ call ++ tail ++ rest)) (reads : r.IsCall param call)
    (htail : IsCallTail tail) : CallText r param rest := by
  obtain ⟨front, rfl, -⟩ := reads.ends names
  refine (h.split names (Or.inr ?_)).2
  rw [solid_append, solid_eq_nil.2 (isBlankText_callTail htail), List.append_nil, solid_append,
    solid_append, List.getLast?_append, List.getLast?_append]
  rfl

end CallText

/-! ## Taking calls out -/

theorem wordAt_of_blank {c : Char} (blank : isBlank c = true) : wordAt (some c) = false :=
  isWord_of_isBlank blank

/-- No word goes on behind a call. -/
theorem wordAt_taken (names : r.CallNames param) {ind call tail : Text}
    (reads : r.IsCall param call) (htail : IsCallTail tail) :
    wordAt (ind ++ call ++ tail).getLast? = false := by
  cases last : tail.getLast? with
  | some c =>
      rw [List.getLast?_append, last]
      exact wordAt_of_blank
        (isBlankText_iff.1 (isBlankText_callTail htail) c (List.mem_of_getLast? last))
  | none =>
      obtain ⟨front, rfl, -⟩ := reads.ends names
      rw [List.getLast?_append, last, List.getLast?_append, List.getLast?_append]
      show wordAt (some ';') = false
      decide

/-- A reading, with the text it takes in three parts. -/
theorem reading_of_first? {before : Option Char} {t : Text} {p : Unit × Text}
    (found : first? (r.forwardingCall param before) t = some p) :
    ∃ ind call tail, (∀ c ∈ ind, isIndent c = true) ∧ r.IsCall param call ∧ IsCallTail tail ∧
      t = ind ++ call ++ tail ++ p.2 := by
  obtain ⟨⟨⟩, rest⟩ := p
  obtain ⟨ind, this, bare, tail, hi, hthis, hbare, htail, -, rfl⟩ :=
    mem_forwardingCall.1 (mem_of_first? found)
  exact ⟨ind, this ++ bare, tail, hi, ⟨this, bare, hthis, hbare, rfl⟩, htail, by simp⟩

theorem leftFrom_of_first? {before : Option Char} {ind call tail rest : Text}
    (names : r.CallNames param) (reads : r.IsCall param call)
    (found : first? (r.forwardingCall param before) (ind ++ call ++ tail ++ rest) =
      some ((), rest)) :
    leftFrom (r.forwardingCall param) before (ind ++ call ++ tail ++ rest) =
      leftFrom (r.forwardingCall param) (ind ++ call ++ tail).getLast? rest := by
  have shorter : rest.length < (ind ++ call ++ tail ++ rest).length := by
    obtain ⟨c, more, rfl, -⟩ := reads.starts names
    simp only [List.length_append, List.length_cons]
    omega
  rw [leftFrom, cuts_hit found shorter, Text.taken_append]
  rfl

/-- Of a call text only white space is left. -/
theorem CallText.isBlankText_leftFrom (names : r.CallNames param) {before : Option Char} {t : Text}
    (h : CallText r param t) (edge : wordAt before = false) :
    isBlankText (leftFrom (r.forwardingCall param) before t) = true := by
  induction length : t.length using Nat.strongRecOn generalizing before t with
  | ind n ih =>
      cases found : first? (r.forwardingCall param before) t with
      | some p =>
          obtain ⟨ind, call, tail, hi, reads, htail, rfl⟩ := reading_of_first? found
          obtain ⟨⟨⟩, rest⟩ := p
          rw [leftFrom_of_first? names reads found]
          refine ih rest.length ?_ (h.of_reading names reads htail)
            (wordAt_taken names reads htail) rfl
          obtain ⟨c, more, rfl, -⟩ := reads.starts names
          simp only [List.length_append, List.length_cons] at length
          omega
      | none =>
          have none_ : r.forwardingCall param before t = [] := first?_eq_none.1 found
          cases h with
          | nil =>
              rw [leftFrom, cuts_nil]
              rfl
          | @blank c t white h =>
              rw [leftFrom, cuts_plain none_, List.flatMap_cons, isBlankText_append]
              have later := ih t.length (by simp at length; omega) h (wordAt_of_blank white) rfl
              rw [leftFrom] at later
              rw [later, Bool.and_true, Piece.kept, isBlankText_cons, white]
              rfl
          | @call call t reads h =>
              have some_ : r.forwardingCall param before ([] ++ call ++ t) ≠ [] :=
                forwardingCall_ne_nil names (by simp) reads (by simpa using edge)
              exact absurd none_ some_

/-! ## Whole lines -/

/-- No call starts in white space with a line feed. -/
theorem forwardingCall_of_blank (names : r.CallNames param) {s : Text}
    (blank : isBlankText s = true) (feed : '\n' ∈ s) (before : Option Char) (more : Text) :
    r.forwardingCall param before (s ++ more) = [] := by
  cases found : first? (r.forwardingCall param before) (s ++ more) with
  | none => exact first?_eq_none.1 found
  | some p =>
      exfalso
      obtain ⟨ind, call, tail, hi, reads, -, e⟩ := reading_of_first? found
      rw [List.append_assoc, List.append_assoc] at e
      rcases List.append_eq_append_iff.1 e with ⟨inIndent, rfl, -⟩ | ⟨gap, rfl, e'⟩
      · exact noFeed_of_all_isIndent hi (List.mem_append_left _ feed)
      · obtain ⟨c, back, rfl, inked⟩ := reads.starts_inked names
        cases gap with
        | nil =>
            rw [List.append_nil] at feed
            exact noFeed_of_all_isIndent hi feed
        | cons d gap =>
            obtain ⟨rfl, -⟩ := List.cons.inj e'
            rw [isBlankText_append, isBlankText_cons, inked] at blank
            simp at blank

/-- No call starts in blank lines. -/
theorem silent_blankLines (names : r.CallNames param) {lines : Text}
    (blank : isBlankText lines = true) (start : AtLineStart lines) (before : Option Char)
    (more : Text) : SilentBefore (r.forwardingCall param) before lines more := by
  rintro front c back rfl
  rw [isBlankText_append, Bool.and_eq_true] at blank
  refine forwardingCall_of_blank names blank.2 ?_ _ more
  rcases start with none_ | feed
  · simp at none_
  · rw [List.getLast?_append_cons] at feed
    exact List.mem_of_getLast? feed

/-- A call text of whole lines starts with a blank line, or with a call on its first line. -/
theorem CallText.line_cases {t : Text} (h : CallText r param t) (plain : plainBlanks t = true)
    (feed : t.getLast? = some '\n') :
    ∃ ind, (∀ c ∈ ind, isIndent c = true) ∧
      ((∃ e rest, IsLineEnd e ∧ t = ind ++ e ++ rest) ∨
        ∃ call rest, r.IsCall param call ∧ t = ind ++ call ++ rest) := by
  induction h with
  | nil => simp at feed
  | @blank c t white _ ih =>
      rw [plainBlanks, Bool.and_eq_true] at plain
      cases hc : isIndent c with
      | true =>
          have feed' : t.getLast? = some '\n' := by
            cases t with
            | nil =>
                obtain rfl : c = '\n' := by simpa using feed
                revert hc
                decide
            | cons d t => rwa [List.getLast?_cons_cons] at feed
          obtain ⟨ind, hi, cases_⟩ := ih plain.2 feed'
          refine ⟨c :: ind, ?_, ?_⟩
          · intro d m
            rcases List.mem_cons.1 m with rfl | m
            · exact hc
            · exact hi d m
          · rcases cases_ with ⟨e, rest, he, rfl⟩ | ⟨call, rest, reads, rfl⟩
            · exact Or.inl ⟨e, rest, he, rfl⟩
            · exact Or.inr ⟨call, rest, reads, rfl⟩
      | false =>
          have here := plain.1
          simp only [white, hc, Bool.not_true, Bool.false_or, Bool.or_eq_true, beq_iff_eq,
            Bool.and_eq_true] at here
          refine ⟨[], by simp, Or.inl ?_⟩
          rcases here with rfl | ⟨rfl, next⟩
          · exact ⟨['\n'], t, Or.inr rfl, rfl⟩
          · obtain ⟨rest, rfl⟩ : ∃ rest, t = '\n' :: rest := by
              cases t with
              | nil => simp at next
              | cons d t => exact ⟨t, by simpa using next⟩
            exact ⟨['\r', '\n'], rest, Or.inl rfl, rfl⟩
  | @call call t reads _ ih => exact ⟨[], by simp, Or.inr ⟨call, t, reads, rfl⟩⟩

/-- What goes with a call does not reach beyond the end of a line. -/
theorem IsCallTail.whole {tail s more : Text} (h : IsCallTail tail) (e : tail = s ++ more)
    (feed : s.getLast? = some '\n') : more = [] := by
  have m : '\n' ∈ s := List.mem_of_getLast? feed
  obtain ⟨blank, lineEnd, hb, ends, rfl⟩ := h
  rcases List.eq_nil_or_concat more with rfl | ⟨more, c, rfl⟩
  · rfl
  · exfalso
    rw [List.concat_eq_append, ← List.append_assoc] at e
    have front : '\n' ∉ blank ++ lineEnd.dropLast := by
      rw [List.mem_append, not_or]
      refine ⟨noFeed_of_all_isIndent hb, ?_⟩
      rcases ends with rfl | rfl | rfl <;> decide
    refine front ?_
    rcases ends with rfl | ends
    · rw [List.append_nil] at e
      rw [e]
      simp [m]
    · have same := congrArg List.dropLast e
      rw [List.dropLast_append_of_ne_nil (by rcases ends with rfl | rfl <;> simp),
        List.dropLast_concat] at same
      rw [same]
      exact List.mem_append_left _ m

/-- Behind white space no word goes on, if none did where there is none. -/
theorem wordAt_gap {g : Text} {before : Option Char} (blank : isBlankText g = true)
    (apart : g = [] → wordAt before = false) : wordAt (g.getLast?.or before) = false := by
  cases last : g.getLast? with
  | none => exact apart (List.getLast?_eq_none_iff.1 last)
  | some c => exact wordAt_of_blank (isBlankText_iff.1 blank c (List.mem_of_getLast? last))

/-- A call is read together with the indentation before it and with what goes with it. -/
theorem IsCall.exists_first? (names : r.CallNames param) {before : Option Char}
    {ind call : Text} (hi : ∀ c ∈ ind, isIndent c = true) (reads : r.IsCall param call)
    (edge : wordAt (ind.getLast?.or before) = false) (rest : Text) :
    ∃ tail more, IsCallTail tail ∧ rest = tail ++ more ∧
      first? (r.forwardingCall param before) (ind ++ call ++ rest) = some ((), more) := by
  cases found : first? (r.forwardingCall param before) (ind ++ call ++ rest) with
  | none => exact absurd (first?_eq_none.1 found) (forwardingCall_ne_nil names hi reads edge)
  | some p =>
      obtain ⟨ind', call', tail, hi', reads', htail, same⟩ := reading_of_first? found
      have behind {call : Text} (reads : r.IsCall param call) (x : Text) :
          ∀ c, (call ++ x).head? = some c → isIndent c = false := by
        intro c head
        obtain ⟨d, back, rfl, inked⟩ := reads.starts_inked names
        obtain rfl := Option.some.inj head
        exact isIndent_of_inked inked
      rw [List.append_assoc, List.append_assoc, List.append_assoc] at same
      obtain ⟨rfl, sameCall⟩ := append_inj_of_kind same hi hi' (behind reads _) (behind reads' _)
      obtain ⟨-, parts⟩ := call_append_inj names reads reads' sameCall
      exact ⟨tail, p.2, htail, parts, rfl⟩

/-- A call in whole lines is read together with white space of these lines only. -/
theorem IsCall.first?_lines (names : r.CallNames param) {before : Option Char}
    {ind call rest : Text} (hi : ∀ c ∈ ind, isIndent c = true) (reads : r.IsCall param call)
    (edge : wordAt before = false) (feed : (ind ++ call ++ rest).getLast? = some '\n') (u : Text) :
    ∃ tail more, IsCallTail tail ∧ rest = tail ++ more ∧
      first? (r.forwardingCall param before) (ind ++ call ++ tail ++ (more ++ u)) =
        some ((), more ++ u) := by
  obtain ⟨tail, left, htail, parts, found⟩ :=
    reads.exists_first? names hi (wordAt_gap (isBlankText_of_all_isIndent hi) fun _ => edge) (rest ++ u)
  -- the line feed at the end keeps the reading inside
  have feedRest : rest.getLast? = some '\n' := by
    cases rest with
    | nil =>
        obtain ⟨front, rfl, -⟩ := reads.ends names
        simp at feed
    | cons d rest => rwa [List.getLast?_append_cons] at feed
  obtain ⟨more, rfl, rfl⟩ : ∃ more, rest = tail ++ more ∧ left = more ++ u := by
    rcases List.append_eq_append_iff.1 parts with ⟨more, e, e'⟩ | ⟨more, e, e'⟩
    · obtain rfl := htail.whole e feedRest
      exact ⟨[], by simpa using e.symm, by simpa using e'.symm⟩
    · exact ⟨more, e, e'⟩
  refine ⟨tail, more, htail, rfl, ?_⟩
  rwa [List.append_assoc tail, ← List.append_assoc _ tail] at found

/-- Of whole lines of a call text only blank lines are left, and the text behind them is read as it
would be by itself. -/
theorem CallText.leftFrom_lines (names : r.CallNames param) {before : Option Char} {t : Text}
    (h : CallText r param t) (plain : plainBlanks t = true) (start : AtLineStart t)
    (edge : wordAt before = false) (u : Text) :
    ∃ lines before', BlankLines lines ∧ wordAt before' = false ∧
      leftFrom (r.forwardingCall param) before (t ++ u) =
        lines ++ leftFrom (r.forwardingCall param) before' u := by
  induction length : t.length using Nat.strongRecOn generalizing before t with
  | ind n ih =>
      rcases start with rfl | feed
      · exact ⟨[], before, .nil, edge, rfl⟩
      obtain ⟨ind, hi, ⟨e, rest, he, rfl⟩ | ⟨call, rest, reads, rfl⟩⟩ := h.line_cases plain feed
      · -- a blank line stays
        have blank : isBlankText (ind ++ e) = true := by
          rw [isBlankText_append, isBlankText_of_all_isIndent hi, isBlankText_of_isLineEnd he]
          rfl
        have silent := silent_blankLines names blank (Or.inr (isLineEnd_last he ind)) before (rest ++ u)
        have shorter : rest.length < n := by
          rcases he with rfl | rfl <;>
            simp only [List.length_append, List.length_cons, List.length_nil] at length <;> omega
        have edge' : wordAt ((ind ++ e).getLast?.or before) = false := by
          rw [isLineEnd_last he]
          show wordAt (some '\n') = false
          decide
        obtain ⟨lines, before', hl, hb, left⟩ := ih rest.length shorter
          (h.split names (Or.inl (solid_eq_nil.2 blank))).2 (plainBlanks_right plain)
          (AtLineStart.right (Or.inr feed)) edge' rfl
        refine ⟨ind ++ e ++ lines, before', .line hi he hl, hb, ?_⟩
        rw [List.append_assoc, leftFrom_append_of_silent silent, left]
        simp
      · -- a call goes, with what goes with it
        obtain ⟨tail, more, htail, rfl, found⟩ := reads.first?_lines names hi edge feed u
        rw [← List.append_assoc] at h plain feed length
        have shorter : more.length < n := by
          obtain ⟨c, back, rfl, -⟩ := reads.starts names
          simp only [List.length_append, List.length_cons] at length
          omega
        obtain ⟨lines, before', hl, hb, left⟩ := ih more.length shorter
          (h.of_reading names reads htail) (plainBlanks_right plain)
          (AtLineStart.right (Or.inr feed)) (wordAt_taken names reads htail) rfl
        refine ⟨lines, before', hl, hb, ?_⟩
        rw [← List.append_assoc, List.append_assoc _ more, leftFrom_of_first? names reads found,
          left]

/-! ## Hand-written code -/

/-- Code that ends where a statement ends cuts no call in two. -/
theorem unsplit_call (names : r.CallNames param) {t : Text}
    (ends : t.getLast? = some ';' ∨ t.getLast? = some '}') : Unsplit (r.IsCall param) t := by
  rintro x y ⟨front, rfl⟩ some_ more reads
  have same : (front ++ x).getLast? = x.getLast? := by
    rw [List.getLast?_append, List.getLast?_eq_some_getLast some_]
    rfl
  rw [same] at ends
  exact more (reads.whole names rfl ends)

/-- A call that starts in code which cuts none in two lies in the code. -/
theorem IsCall.within {ind call s more x : Text} (hi : ∀ c ∈ ind, isIndent c = true)
    (reads : r.IsCall param call) (unsplit : Unsplit (r.IsCall param) s)
    (last : ∃ c, s.getLast? = some c ∧ isBlank c = false) (same : s ++ more = ind ++ call ++ x) :
    ∃ beyond, s = ind ++ call ++ beyond := by
  have some_ : call ≠ [] := by
    obtain ⟨this, bare, -, ⟨w₁, w₂, w₃, w₄, -, -, -, -, rfl⟩, rfl⟩ := reads
    simp
  rcases unsplit.sides reads some_ same with inside | ⟨front, rfl, -⟩
  · exact inside
  · obtain ⟨c, last, inked⟩ := last
    have := hi c (List.mem_append_left _ (List.mem_of_getLast? last))
    rw [isIndent_of_inked inked] at this
    cases this

/-- What follows code that cuts no call in two brings none about in it, and neither does what stands
before it. -/
theorem silent_append (names : r.CallNames param) {t : Text}
    (silent : SilentBefore (r.forwardingCall param) none t []) (unsplit : Unsplit (r.IsCall param) t)
    (last : ∃ c, t.getLast? = some c ∧ isBlank c = false) (before : Option Char) (more : Text) :
    SilentBefore (r.forwardingCall param) before t more := by
  intro front c back e
  refine List.eq_nil_iff_forall_not_mem.2 fun p m => ?_
  obtain ⟨⟨⟩, rest⟩ := p
  obtain ⟨ind, this, bare, tail, hi, hthis, hbare, htail, atEdge, same⟩ := mem_forwardingCall.1 m
  have reads : r.IsCall param (this ++ bare) := ⟨this, bare, hthis, hbare, rfl⟩
  have last' : ∃ d, (c :: back).getLast? = some d ∧ isBlank d = false := by
    obtain ⟨d, last, inked⟩ := last
    rw [e, List.getLast?_append_cons] at last
    exact ⟨d, last, inked⟩
  -- the call ends before the code does
  obtain ⟨beyond, inside⟩ := reads.within hi (unsplit.suffix ⟨front, e.symm⟩) last'
    (x := tail ++ rest) (by rw [same]; simp)
  have starts (more : Text) : wordAt (bare ++ more).head? = true := by
    obtain ⟨d, more', rfl, word⟩ := IsCall.starts names ⟨[], bare, Or.inl rfl, hbare, rfl⟩
    exact word
  have read : ((), beyond) ∈ r.forwardingCall param (front.getLast?.or none) (c :: back ++ []) := by
    refine mem_forwardingCall.2 ⟨ind, this, bare, [], hi, hthis, hbare,
      ⟨[], [], by simp, Or.inl rfl, rfl⟩, ?_, by rw [List.append_nil, inside]; simp⟩
    rw [List.append_assoc, starts] at atEdge ⊢
    cases placed : (ind ++ this).getLast? with
    | some d => rwa [placed] at atEdge
    | none =>
        cases placed' : front.getLast? with
        | some d => rwa [placed, placed'] at atEdge
        | none => decide
  rw [silent front c back e] at read
  cases read

/-- A call that starts in white space starts behind it. -/
theorem forwardingCall_gap (names : r.CallNames param) {g t : Text} {before : Option Char}
    (blank : isBlankText g = true) (starts : ∃ c rest, t = c :: rest ∧ isBlank c = false)
    (none_ : r.forwardingCall param none t = []) : r.forwardingCall param before (g ++ t) = [] := by
  refine List.eq_nil_iff_forall_not_mem.2 fun p m => ?_
  obtain ⟨⟨⟩, rest⟩ := p
  obtain ⟨ind, this, bare, tail, hi, hthis, hbare, -, -, e⟩ := mem_forwardingCall.1 m
  have reads : r.IsCall param (this ++ bare) := ⟨this, bare, hthis, hbare, rfl⟩
  have parts : g ++ t = ind ++ (this ++ bare ++ (tail ++ rest)) := by
    rw [e]
    simp
  have ink {t : Text} (starts : ∃ c rest, t = c :: rest ∧ isBlank c = false) (x : Text) :
      ∀ c, (t ++ x).head? = some c → isBlank c = false := by
    obtain ⟨c, rest, rfl, inked⟩ := starts
    intro d head
    obtain rfl := Option.some.inj head
    exact inked
  obtain ⟨-, rfl⟩ := append_inj_of_kind parts (isBlankText_iff.1 blank)
    (fun c m => isBlank_of_isIndent (hi c m)) (by simpa using ink starts [])
    (ink (reads.starts_inked names) _)
  exact @forwardingCall_ne_nil r param names [] (this ++ bare) (tail ++ rest) none (by simp) reads
    (by decide) none_

/-- White space in front of code brings no call about. -/
theorem silent_gap (names : r.CallNames param) {g t : Text} (blank : isBlankText g = true)
    (starts : ∃ c rest, t = c :: rest ∧ isBlank c = false)
    (silent : SilentBefore (r.forwardingCall param) none t []) (before : Option Char) :
    SilentBefore (r.forwardingCall param) before (g ++ t) [] := by
  obtain ⟨c, rest, rfl, inked⟩ := starts
  have here : r.forwardingCall param none (c :: rest) = [] := by
    simpa using silent [] c rest rfl
  induction g generalizing before with
  | nil =>
      refine .cons ?_ silent.tail
      rw [List.append_nil]
      exact forwardingCall_gap (g := []) names rfl ⟨c, rest, rfl, inked⟩ here
  | cons d g ih =>
      refine .cons ?_ (ih ?_ _)
      · rw [List.append_nil]
        exact forwardingCall_gap names blank ⟨c, rest, rfl, inked⟩ here
      · rw [isBlankText_cons, Bool.and_eq_true] at blank
        exact blank.2

end Regraft.Rules
