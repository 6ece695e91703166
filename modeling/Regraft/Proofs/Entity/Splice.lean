import Regraft.Proofs.Entity.Collapse
import Regraft.Proofs.Entity.Outside

/-!
# Regraft.Proofs.Entity.Splice -- entity statements around inserted text

What stripping leaves of a body with text put into it is what it leaves of the two parts of the body,
with that text between.  `frontOf` is what stays of the first part: how the body goes on decides on
white space at its end only (`trimEnd_frontOf`).
-/

namespace Regraft.Entity

set_option autoImplicit false

open Text

variable {token : Text}

/-! ## Scanned segments -/

def IsQuiet (seg : Segment) : Prop :=
  ∀ before s, seg ≠ .statement before s

def IsShut (seg : Segment) : Prop :=
  ∀ before head depth after, seg ≠ .unclosed before head depth after

theorem forall_prependFirst {p : Segment → Prop} (same : ∀ g seg, p (seg.prepend g) ↔ p seg)
    {g : Text} {segs : List Segment} :
    (∀ seg ∈ prependFirst g segs, p seg) ↔ ∀ seg ∈ segs, p seg := by
  cases segs with
  | nil => rfl
  | cons seg more => simp [prependFirst, same]

theorem isQuiet_prepend (g : Text) (seg : Segment) : IsQuiet (seg.prepend g) ↔ IsQuiet seg := by
  cases seg <;> simp [IsQuiet, Segment.prepend]

theorem isShut_prepend (g : Text) (seg : Segment) : IsShut (seg.prepend g) ↔ IsShut seg := by
  cases seg with
  | unclosed before head depth after =>
      exact ⟨fun h => absurd rfl (h _ _ _ _), fun h => absurd rfl (h _ _ _ _)⟩
  | _ => simp [IsShut, Segment.prepend]

/-- A statement starts with the anchor and ends with a semicolon. -/
def Statement.Sound (token : Text) (s : Statement) : Prop :=
  Alike token s.anchor ∧ s.tail.getLast? = some ';'

theorem Scan.sound {t : Text} {segs : List Segment} (h : Scan token t segs) {before : Text}
    {s : Statement} (m : .statement before s ∈ segs) : s.Sound token := by
  induction h with
  | rest => simp at m
  | noLambda _ _ _ ih => exact ih (List.mem_of_ne_of_mem (by simp) m)
  | unclosed => simp at m
  | openEnded _ _ _ _ _ ih => exact ih (List.mem_of_ne_of_mem (by simp) m)
  | @statement t before' found after head block inner tail more depth segs cut _ _ ends _ ih =>
      rcases List.mem_cons.1 m with e | m
      · obtain ⟨-, rfl⟩ := Segment.statement.inj e
        obtain ⟨tail', same, last, -⟩ := afterEnd?_swap ends
        obtain rfl : tail = tail' := List.append_cancel_right same
        exact ⟨cutAnchor?_alike cut, last⟩
      · exact ih m

theorem Statement.Sound.text_last {s : Statement} (h : s.Sound token) :
    s.text.getLast? = some ';' := by
  rw [Statement.text, List.getLast?_append, List.getLast?_cons, List.getLast?_append,
    List.getLast?_cons, h.2]
  rfl

theorem Statement.Sound.firm {s : Statement} (inked : Inked token) (h : s.Sound token)
    (before : Text) : IsFirm (.statement before s) := by
  cases e : s.anchor with
  | nil =>
      have := h.1.length_eq
      rw [e] at this
      exact absurd (List.length_eq_zero_iff.1 this) inked.ne_nil
  | cons c rest =>
      refine ⟨before, s, c, _, rfl, by rw [Statement.text, e]; rfl,
        h.1.not_blank inked.not_blank c (by rw [e]; exact List.mem_cons_self), fun d last => ?_⟩
      rw [h.text_last] at last
      obtain rfl := Option.some.inj last
      decide

/-- Where the statements among segments stand. -/
theorem block_spec {segs : List Segment}
    (sound : ∀ before s, .statement before s ∈ segs → s.Sound token) {offset : Nat} {b : Block}
    (m : b ∈ blocksFrom offset segs) :
    (∃ front found back, textOf segs = front ++ found ++ back ∧ Alike token found ∧
      b.anchorStart = offset + front.length) ∧
      ∃ front back, textOf segs = front ++ ';' :: back ∧
        b.stop = offset + (front.length + 1) := by
  induction segs generalizing offset with
  | nil => simp [blocksFrom] at m
  | cons seg more ih =>
      have later (m : b ∈ blocksFrom (offset + seg.text.length) more) :
          (∃ front found back, textOf (seg :: more) = front ++ found ++ back ∧ Alike token found ∧
            b.anchorStart = offset + front.length) ∧
            ∃ front back, textOf (seg :: more) = front ++ ';' :: back ∧
              b.stop = offset + (front.length + 1) := by
        obtain ⟨⟨front, found, back, e, alike, start⟩, front', back', e', stop⟩ :=
          ih (fun before s m => sound before s (List.mem_cons_of_mem _ m)) m
        refine ⟨⟨seg.text ++ front, found, back, by rw [textOf_cons, e]; simp, alike, ?_⟩,
          seg.text ++ front', back', by rw [textOf_cons, e']; simp, ?_⟩
        · rw [start, List.length_append]
          omega
        · rw [stop, List.length_append]
          omega
      cases seg with
      | statement before s =>
          rw [blocksFrom] at m
          rcases List.mem_cons.1 m with rfl | m
          · have here := sound before s List.mem_cons_self
            obtain ⟨front, last⟩ := List.getLast?_eq_some_iff.1 here.text_last
            refine ⟨⟨before, s.anchor, s.head ++ '{' :: s.inner ++ '}' :: s.tail ++ textOf more, ?_,
              here.1, rfl⟩, before ++ front, textOf more, ?_, ?_⟩
            · rw [textOf_cons, Segment.text, Statement.text]
              simp
            · rw [textOf_cons, Segment.text, last]
              simp
            · rw [Statement.block_stop, last]
              simp only [List.length_append, List.length_cons, List.length_nil]
              omega
          · exact later m
      | _ => exact later m

/-- A body can be stripped where no block stays open. -/
theorem failureFrom?_eq_none {offset : Nat} {segs : List Segment} :
    failureFrom? offset segs = none ↔ ∀ seg ∈ segs, IsShut seg := by
  induction segs generalizing offset with
  | nil => simp [failureFrom?]
  | cons seg more ih =>
      cases seg with
      | unclosed before head depth after =>
          simp only [failureFrom?, reduceCtorEq, false_iff]
          exact fun closed => closed _ List.mem_cons_self _ _ _ _ rfl
      | _ => simp [failureFrom?, ih, IsShut]

theorem blocksFrom_eq_nil {offset : Nat} {segs : List Segment} :
    blocksFrom offset segs = [] ↔ ∀ seg ∈ segs, IsQuiet seg := by
  induction segs generalizing offset with
  | nil => simp [blocksFrom]
  | cons seg more ih => cases seg <;> simp [blocksFrom, ih, IsQuiet]

theorem statementCount_eq_zero {segs : List Segment} :
    statementCount segs = 0 ↔ ∀ seg ∈ segs, IsQuiet seg := by
  rw [statementCount, List.countP_eq_zero]
  refine forall_congr' fun seg => forall_congr' fun _ => ?_
  cases seg <;> simp [IsQuiet]

/-- Whether stripping has nothing to do about a segment. -/
def IsIdle (seg : Segment) : Prop :=
  IsQuiet seg ∧ IsShut seg

theorem isIdle_rest (t : Text) : IsIdle (.rest t) :=
  ⟨by simp [IsQuiet], by simp [IsShut]⟩

theorem isIdle_noLambda (before taken : Text) : IsIdle (.noLambda before taken) :=
  ⟨by simp [IsQuiet], by simp [IsShut]⟩

theorem isIdle_openEnded (before taken : Text) : IsIdle (.openEnded before taken) :=
  ⟨by simp [IsQuiet], by simp [IsShut]⟩

theorem isIdle_prepend (g : Text) (seg : Segment) : IsIdle (seg.prepend g) ↔ IsIdle seg :=
  and_congr (isQuiet_prepend g seg) (isShut_prepend g seg)

theorem blocks_eq_nil {body : Text} :
    blocks token body = .ok [] ↔ ∀ seg ∈ segments token body, IsIdle seg := by
  simp only [blocks]
  split
  · rename_i failure open_
    refine iff_of_false (fun e => nomatch e) fun idle => ?_
    rw [failureFrom?_eq_none.2 fun seg m => (idle seg m).2] at open_
    cases open_
  · rename_i shut
    rw [Except.ok.injEq, blocksFrom_eq_nil]
    exact ⟨fun quiet seg m => ⟨quiet seg m, failureFrom?_eq_none.1 shut seg m⟩,
      fun idle seg m => (idle seg m).1⟩

theorem strip_of_no_block {body : Text} (none_ : blocks token body = .ok []) :
    strip token body = .ok body := by
  have idle := blocks_eq_nil.1 none_
  have count := statementCount_eq_zero.2 fun seg m => (idle seg m).1
  have done := strip_eq (failureFrom?_eq_none.2 fun seg m => (idle seg m).2)
  rw [done, strip_of_no_statement count done]

/-- A scan without open block ends with a text behind the last anchor. -/
theorem Scan.ends_rest {t : Text} {segs : List Segment} (h : Scan token t segs)
    (closed : ∀ seg ∈ segs, IsShut seg) : ∃ init w, segs = init ++ [.rest w] := by
  induction h with
  | @rest t => exact ⟨[], t, rfl⟩
  | unclosed => exact absurd rfl (closed _ List.mem_cons_self _ _ _ _)
  | noLambda _ _ _ ih =>
      obtain ⟨init, w, e⟩ := ih fun seg m => closed seg (List.mem_cons_of_mem _ m)
      exact ⟨_ :: init, w, by rw [e]; rfl⟩
  | openEnded _ _ _ _ _ ih =>
      obtain ⟨init, w, e⟩ := ih fun seg m => closed seg (List.mem_cons_of_mem _ m)
      exact ⟨_ :: init, w, by rw [e]; rfl⟩
  | statement _ _ _ _ _ ih =>
      obtain ⟨init, w, e⟩ := ih fun seg m => closed seg (List.mem_cons_of_mem _ m)
      exact ⟨_ :: init, w, by rw [e]; rfl⟩

/-- An anchor that opens no statement stays, and with it a character of the token that has no
case. -/
theorem Scan.onlyStatements {t : Text} {segs : List Segment} (h : Scan token t segs)
    (closed : ∀ seg ∈ segs, IsShut seg) {c : Char} (caseless : IsCaseless c)
    (inToken : c ∈ token) (absent : c ∉ betweenOf segs) : OnlyStatements segs := by
  have kept {found : Text} (alike : Alike token found) {seg : Segment} {more : List Segment}
      {x y : Text} (between : seg.between = x ++ (found ++ y)) (absent : c ∉ betweenOf (seg :: more)) :
      False := by
    refine absent ?_
    rw [betweenOf, List.flatMap_cons, between]
    have m := (alike.caseless_mem caseless).1 inToken
    simp [m]
  have later {seg : Segment} {more : List Segment} (absent : c ∉ betweenOf (seg :: more)) :
      c ∉ betweenOf more := by
    rw [betweenOf, List.flatMap_cons, List.mem_append, not_or] at absent
    exact absent.2
  induction h with
  | @rest t =>
      intro seg m
      rw [List.mem_singleton] at m
      exact Or.inr ⟨t, m⟩
  | unclosed => exact absurd rfl (closed _ List.mem_cons_self _ _ _ _)
  | noLambda cut => exact (kept (cutAnchor?_alike cut) rfl absent).elim
  | openEnded cut =>
      exact (kept (cutAnchor?_alike cut) (by rw [Segment.between, List.append_assoc, List.append_assoc])
        absent).elim
  | statement _ _ _ _ _ ih =>
      intro seg m
      rcases List.mem_cons.1 m with rfl | m
      · exact Or.inl ⟨_, _, rfl⟩
      · exact ih (fun seg m => closed seg (List.mem_cons_of_mem _ m)) (later absent) seg m

/-- Text behind the last anchor comes last. -/
theorem Scan.not_rest {t : Text} {init : List Segment} {last : Segment}
    (h : Scan token t (init ++ [last])) : ∀ seg ∈ init, ∀ x, seg ≠ .rest x := by
  generalize whole : init ++ [last] = segs at h
  induction h generalizing init with
  | rest =>
      cases init with
      | nil => simp
      | cons seg init => simp at whole
  | unclosed =>
      cases init with
      | nil => simp
      | cons seg init => simp at whole
  | noLambda _ _ _ ih =>
      cases init with
      | nil => simp
      | cons seg init =>
          obtain ⟨rfl, later⟩ := List.cons.inj whole
          intro seg m
          rcases List.mem_cons.1 m with rfl | m
          · simp
          · exact ih later seg m
  | openEnded _ _ _ _ _ ih =>
      cases init with
      | nil => simp
      | cons seg init =>
          obtain ⟨rfl, later⟩ := List.cons.inj whole
          intro seg m
          rcases List.mem_cons.1 m with rfl | m
          · simp
          · exact ih later seg m
  | statement _ _ _ _ _ ih =>
      cases init with
      | nil => simp
      | cons seg init =>
          obtain ⟨rfl, later⟩ := List.cons.inj whole
          intro seg m
          rcases List.mem_cons.1 m with rfl | m
          · simp
          · exact ih later seg m

/-! ## Places without anchor -/

theorem cutAnchor?_of_blank {t : Text} (inked : Inked token) (blank : isBlankText t = true) :
    cutAnchor? token t = none := by
  refine cutAnchor?_eq_none.2 fun front found back alike e => ?_
  cases found with
  | nil => exact inked.ne_nil (List.length_eq_zero_iff.1 alike.length_eq)
  | cons c found =>
      have ink := alike.not_blank inked.not_blank c List.mem_cons_self
      exact not_mem_of_isBlankText blank ink (by rw [e]; simp)

/-- A text that ends with a separator and has not all characters of the token stands before the first
anchor. -/
theorem cutAnchor?_behind {s back before found after : Text} {c d : Char} (last : s.getLast? = some c)
    (separates : IsCaseless c) (notIn : c ∉ token) (caseless : IsCaseless d) (inToken : d ∈ token)
    (absent : d ∉ s) (h : cutAnchor? token (s ++ back) = some (before, found, after)) :
    s <+: before := by
  obtain ⟨e, alike, -⟩ := cutAnchor?_eq_some.1 h
  have separator : c ∉ found := fun m => notIn ((alike.caseless_mem separates).2 m)
  have present : d ∈ found := (alike.caseless_mem caseless).1 inToken
  obtain ⟨s', rfl⟩ := List.getLast?_eq_some_iff.1 last
  have e' : s' ++ c :: back = before ++ found ++ after := by rw [← e]; simp
  rcases append_separated e' separator with ⟨back', rfl⟩ | ⟨front', rfl, -⟩
  · exact absurd (by simp [present]) absent
  · exact ⟨front', by simp⟩

/-- So it goes with the first segment. -/
theorem Scan.behind {s back : Text} {segs : List Segment} {c d : Char} (last : s.getLast? = some c)
    (separates : IsCaseless c) (notIn : c ∉ token) (caseless : IsCaseless d) (inToken : d ∈ token)
    (absent : d ∉ s) (h : Scan token (s ++ back) segs) :
    ∃ segs', segs' ≠ [] ∧ segs = prependFirst s segs' := by
  have first {before found after : Text}
      (cut : cutAnchor? token (s ++ back) = some (before, found, after)) :
      ∃ before', before = s ++ before' := by
    obtain ⟨before', e⟩ := cutAnchor?_behind last separates notIn caseless inToken absent cut
    exact ⟨before', e.symm⟩
  cases h with
  | rest => exact ⟨[.rest back], by simp, rfl⟩
  | @noLambda _ before found after head more segs cut _ _ =>
      obtain ⟨before', rfl⟩ := first cut
      exact ⟨.noLambda before' (found ++ head) :: segs, by simp, rfl⟩
  | @unclosed _ before found after head block depth stillOpen cut _ _ =>
      obtain ⟨before', rfl⟩ := first cut
      exact ⟨[.unclosed before' (found ++ head) stillOpen block], by simp, rfl⟩
  | @openEnded _ before found after head block inner next depth segs cut _ _ _ _ =>
      obtain ⟨before', rfl⟩ := first cut
      exact ⟨.openEnded before' (found ++ head ++ '{' :: inner ++ ['}']) :: segs, by simp, rfl⟩
  | @statement _ before found after head block inner tail more depth segs cut _ _ _ _ =>
      obtain ⟨before', rfl⟩ := first cut
      exact ⟨.statement before' ⟨found, head, inner, tail⟩ :: segs, by simp, rfl⟩

theorem headed_prependFirst {s : Text} (inked : isBlankText s = false) (segs : List Segment) :
    Headed (prependFirst s segs) := by
  cases segs with
  | nil => trivial
  | cons seg more =>
      cases seg with
      | statement before st =>
          show isBlankText (s ++ before) = false
          rw [isBlankText_append, inked]
          rfl
      | _ => trivial

theorem blocksFrom_prependFirst (offset : Nat) (u : Text) (segs : List Segment) :
    blocksFrom offset (prependFirst u segs) = blocksFrom (offset + u.length) segs := by
  cases segs with
  | nil => rfl
  | cons seg more =>
      have e : offset + (seg.prepend u).text.length = offset + u.length + seg.text.length := by
        rw [Segment.prepend_text, List.length_append]
        omega
      rw [prependFirst]
      cases seg with
      | statement before s =>
          rw [Segment.prepend] at e ⊢
          rw [blocksFrom, blocksFrom, e, List.length_append, ← Nat.add_assoc]
      | _ =>
          rw [Segment.prepend] at e ⊢
          rw [blocksFrom, blocksFrom, e] <;> simp

/-- No statement ends in white space: one that ends before the end of it ends before it. -/
theorem apart_of_blank {segs : List Segment}
    (sound : ∀ before s, .statement before s ∈ segs → s.Sound token) {above gap below : Text}
    (text : textOf segs = above ++ gap ++ below) (blank : isBlankText gap = true) {b : Block}
    (m : b ∈ blocksFrom 0 segs)
    (apart : (above ++ gap).length ≤ b.anchorStart ∨ b.stop ≤ (above ++ gap).length) :
    0 + above.length ≤ b.anchorStart ∨ b.stop ≤ 0 + above.length := by
  rw [List.length_append] at apart
  obtain ⟨-, front, back, e, stop⟩ := block_spec sound m
  rcases apart with early | late
  · exact Or.inl (by omega)
  · refine Or.inr (Nat.le_of_not_lt fun short => ?_)
    -- the semicolon of the statement would lie in the white space
    rw [Nat.zero_add] at stop short
    rw [text, List.append_assoc] at e
    obtain ⟨y, rfl, inGap⟩ := append_of_length_le e (by omega)
    rw [List.length_append] at stop
    obtain ⟨z, gap_, -⟩ : ∃ z, gap = (y ++ [';']) ++ z ∧ back = z ++ below := by
      refine append_of_length_le (by rw [inGap]; simp) ?_
      simp only [List.length_append, List.length_singleton]
      omega
    exact not_mem_of_isBlankText blank (by decide) (show ';' ∈ gap by rw [gap_]; simp)

/-! ## The first part of a body -/

/-- What stays of statements and the text behind them in a body that goes on with `next`. -/
def frontOf (init : List Segment) (u next : Text) : Text :=
  let front := frontFrom 0 init (u ++ next)
  front.1 ++ u.drop front.2

/-- How much of the text behind the statements goes. -/
def frontSkip (init : List Segment) (u next : Text) : Nat :=
  (frontFrom 0 init (u ++ next)).2

theorem frontSkip_cases (init : List Segment) (u next : Text) :
    frontSkip init u next = 0 ∨ lineTail? (u ++ next) = some (frontSkip init u next) :=
  frontFrom_skip (Or.inl rfl)

/-- Statements above the start of a line are followed by a line feed, if there are any. -/
theorem feed_of_atLineStart {init : List Segment} (firm : ∀ seg ∈ init, IsFirm seg) {u above : Text}
    (text : textOf init ++ u = above) (start : AtLineStart above) : '\n' ∈ u ∨ init = [] := by
  rcases start with rfl | feed
  · obtain ⟨none_, -⟩ := List.append_eq_nil_iff.1 text
    cases init with
    | nil => exact Or.inr rfl
    | cons seg more =>
        obtain ⟨c, m, -⟩ := (firm seg List.mem_cons_self).inked
        rw [textOf_cons] at none_
        rw [(List.append_eq_nil_iff.1 none_).1] at m
        cases m
  · rw [← text, List.getLast?_append] at feed
    cases last : u.getLast? with
    | some c =>
        rw [last, Option.some_or] at feed
        exact Or.inl (List.mem_of_getLast? (last.trans feed))
    | none =>
        rw [last, Option.none_or] at feed
        exact absurd (last_of_firm firm feed) (by decide)

/-- A line feed keeps what goes with a statement in front of what follows it. -/
theorem frontSkip_le_of_feed {init : List Segment} {u : Text} (feed : '\n' ∈ u ∨ init = [])
    (next : Text) : frontSkip init u next ≤ u.length := by
  rcases feed with feed | rfl
  · rcases frontSkip_cases init u next with none_ | ends
    · omega
    · exact lineTail?_le feed ends
  · exact Nat.zero_le _

/-- So does ink. -/
theorem frontSkip_le_of_inked (init : List Segment) (u : Text) {c : Char} (inked : isBlank c = false)
    (next : Text) : frontSkip init u (c :: next) ≤ u.length := by
  rcases frontSkip_cases init u (c :: next) with none_ | ends
  · omega
  · have blank := (lineTail?_spec ends).2
    refine Nat.le_of_not_lt fun long => ?_
    obtain ⟨k, e⟩ : ∃ k, frontSkip init u (c :: next) = u.length + (k + 1) :=
      ⟨frontSkip init u (c :: next) - u.length - 1, by omega⟩
    rw [e, List.take_length_add_append, List.take_succ_cons, isBlankText_append, isBlankText_cons,
      inked] at blank
    simp at blank

theorem frontOf_append_blank (init : List Segment) (u next : Text) {gap : Text}
    (blank : isBlankText gap = true) :
    trimEnd (frontOf init (u ++ gap) next) = trimEnd (frontOf init u (gap ++ next)) := by
  rw [frontOf, frontOf, List.append_assoc, List.drop_append, ← List.append_assoc]
  refine trimEnd_append_blank _ ?_
  rw [isBlankText_iff] at blank ⊢
  exact fun c m => blank c (List.mem_of_mem_drop m)

/-- How the body goes on decides on white space at the end only. -/
theorem trimEnd_frontOf {init : List Segment} (firm : ∀ seg ∈ init, IsFirm seg) (u next next' : Text) :
    trimEnd (frontOf init u next) = trimEnd (frontOf init u next') := by
  rw [frontOf, frontOf]
  cases blank : isBlankText u with
  | true =>
      have dropped (n : Nat) : isBlankText (u.drop n) = true := by
        rw [isBlankText_iff] at blank ⊢
        exact fun c m => blank c (List.mem_of_mem_drop m)
      rw [trimEnd_append_blank _ (dropped _), trimEnd_append_blank _ (dropped _)]
      exact trimEnd_frontFrom firm 0 _ _
  | false =>
      have ink : ∃ c ∈ u, isBlank c = false := by
        simpa [isBlankText] using blank
      rw [frontFrom_swap (known_of_inked ink) next next']

theorem solid_frontOf {init : List Segment} (firm : ∀ seg ∈ init, IsFirm seg) (u next : Text) :
    solid (frontOf init u next) = solid (betweenOf (init ++ [.rest u])) := by
  rw [← solid_trimEnd, trimEnd_frontOf firm u next [], solid_trimEnd, frontOf, List.append_nil]
  have stays := removeFrom_append 0 init [.rest u]
  have text : textOf [Segment.rest u] = u := by simp [Segment.text]
  have last (k : Nat) : removeFrom k [Segment.rest u] = u.drop k := by
    rw [removeFrom_other (by simp), removeFrom, List.append_nil, Segment.text]
  rw [text, last] at stays
  rw [← stays]
  exact solid_removeFrom (by rw [List.take_zero]; rfl)

theorem plainBlanks_frontOf {init : List Segment} (firm : ∀ seg ∈ init, IsFirm seg) {u : Text}
    (next : Text) (plain : plainBlanks (textOf init ++ u) = true)
    (whole : plainBlanks (textOf init) = true) : plainBlanks (frontOf init u next) = true := by
  rw [frontOf]
  exact plainBlanks_append (plainBlanks_frontFrom firm 0 _ whole)
    (plainBlanks_drop (plainBlanks_right plain) _)

/-- The first part of a body, and the rest of it. -/
theorem removeFrom_frontOf {init tail : List Segment} {u : Text} (some_ : tail ≠ [])
    (headed : Headed tail) (bound : frontSkip init u (textOf tail) ≤ u.length) :
    removeFrom 0 (init ++ prependFirst u tail) =
      frontOf init u (textOf tail) ++ removeFrom 0 tail := by
  rw [frontSkip] at bound
  rw [removeFrom_append, textOf_prependFirst some_, removeFrom_prependFirst some_ headed bound,
    frontOf, List.append_assoc]

/-- The first part of a body, text without statements, and the rest of the body. -/
theorem removeFrom_spliced {init pinit tail : List Segment} {u w gap : Text} (some_ : tail ≠ [])
    (headed : Headed tail) (quiet : ∀ seg ∈ pinit, IsQuiet seg)
    (bound : frontSkip init u (textOf (pinit ++ [.rest w]) ++ gap ++ textOf tail) ≤ u.length) :
    removeFrom 0 (init ++ prependFirst u (pinit ++ prependFirst (w ++ gap) tail)) =
      frontOf init u (textOf (pinit ++ [.rest w]) ++ gap ++ textOf tail) ++
        (textOf (pinit ++ [.rest w]) ++ gap) ++ removeFrom 0 tail := by
  have more : prependFirst (w ++ gap) tail ≠ [] := by
    cases tail with
    | nil => exact absurd rfl some_
    | cons seg tail => simp [prependFirst]
  have text : textOf (pinit ++ prependFirst (w ++ gap) tail) =
      textOf (pinit ++ [.rest w]) ++ gap ++ textOf tail := by
    rw [textOf_append, textOf_prependFirst some_]
    simp [Segment.text]
  rw [frontSkip] at bound
  rw [removeFrom_append, textOf_prependFirst (by simp [more]), text,
    removeFrom_quiet quiet some_ headed bound, frontOf]
  simp

/-- A first text that ends in ink stays whole. -/
theorem removeFrom_starts {s : Text} {c : Char} (last : s.getLast? = some c)
    (inked : isBlank c = false) {segs : List Segment} (some_ : segs ≠ []) :
    ∃ t, removeFrom 0 (prependFirst s segs) = s ++ t := by
  cases segs with
  | nil => exact absurd rfl some_
  | cons seg more =>
      rw [prependFirst]
      cases seg with
      | statement before st =>
          rw [Segment.prepend, removeFrom_statement]
          rcases keptBefore_cases 0 (s ++ before) (textOf more) with
            e | ⟨whole, tail, n, parts, blank, -, -, e⟩
          · rw [e]
            exact ⟨before ++ removeFrom 0 more, by simp⟩
          · rw [e]
            rw [List.drop_zero] at parts
            rcases List.append_eq_append_iff.1 parts with ⟨x, rfl, -⟩ | ⟨x, rfl, e'⟩
            · exact ⟨x ++ removeFrom n more, by simp⟩
            · -- what goes is white space, so it lies behind
              cases x with
              | nil => exact ⟨removeFrom n more, by simp⟩
              | cons d x =>
                  rw [List.getLast?_append_cons] at last
                  have m : c ∈ tail := by
                    rw [e']
                    exact List.mem_append_left _ (List.mem_of_getLast? last)
                  exact absurd m (not_mem_of_isBlankText blank inked)
      | _ =>
          rw [removeFrom_other (by simp [Segment.prepend]), Segment.prepend_text, List.drop_zero,
            List.append_assoc]
          exact ⟨_, rfl⟩

end Regraft.Entity
