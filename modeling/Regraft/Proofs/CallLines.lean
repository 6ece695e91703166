import Regraft.Proofs.Extraction
import Regraft.Proofs.Text.Breaks

/-!
# Regraft.Proofs.CallLines -- lines that the removal of forwarding calls joins

A call goes with the indentation in front of it and with the line end behind it, whatever else stands
on its line.  `Carved` sets the call itself, from its receiver or name to its semicolon, apart from
that white space, and `LineTaken` lists the line ends that go.  Removal keeps lines apart exactly if
none of these has something left on both sides, and it does where each call is the first on its line
(`removeCalls_linesApart`).
-/

namespace Regraft.Rules

set_option autoImplicit false

open Text Reader

variable {r : Rules} {param : Text}

/-! ## Calls and the white space around them -/

/-- Pieces of a body with the white space that goes with a call apart from it. -/
inductive Carved (r : Rules) (param : Text) : List (Piece Unit) → List (Piece Unit) → Prop where
  | nil : Carved r param [] []
  | plain (c : Char) {pieces parts : List (Piece Unit)} : Carved r param pieces parts →
      Carved r param (.plain c :: pieces) (.plain c :: parts)
  | call {ind call tail : Text} {pieces parts : List (Piece Unit)} :
      (∀ c ∈ ind, isIndent c = true) → r.IsCall param call → IsCallTail tail →
      Carved r param pieces parts →
      Carved r param (.hit (ind ++ call ++ tail) () :: pieces)
        (ind.map .plain ++ .hit call () :: (tail.map .plain ++ parts))

/-- A line end that goes with the call in front of it: what stays above it and what stays below. -/
inductive LineTaken : List (Piece Unit) → Text → Text → Prop where
  | here {taken : Text} {more : List (Piece Unit)} : '\n' ∈ taken.getLast? →
      LineTaken (.hit taken () :: more) [] (more.flatMap Piece.kept)
  | later {p : Piece Unit} {more : List (Piece Unit)} {above below : Text} :
      LineTaken more above below → LineTaken (p :: more) (p.kept ++ above) below

@[simp] theorem text_plain (t : Text) : (t.map (Piece.plain (α := Unit))).flatMap Piece.text = t := by
  simp [List.flatMap_map, Piece.text]

@[simp] theorem kept_plain (t : Text) : (t.map (Piece.plain (α := Unit))).flatMap Piece.kept = t := by
  simp [List.flatMap_map, Piece.kept]

/-- The pieces of a body can be carved. -/
theorem exists_carved {pieces : List (Piece Unit)}
    (hits : ∀ taken, .hit taken () ∈ pieces → ∃ ind call tail, (∀ c ∈ ind, isIndent c = true) ∧
      r.IsCall param call ∧ IsCallTail tail ∧ taken = ind ++ call ++ tail) :
    ∃ parts, Carved r param pieces parts := by
  induction pieces with
  | nil => exact ⟨[], .nil⟩
  | cons p pieces ih =>
      obtain ⟨parts, carved⟩ := ih fun taken m => hits taken (List.mem_cons_of_mem _ m)
      cases p with
      | plain c => exact ⟨_, carved.plain c⟩
      | hit taken a =>
          obtain ⟨ind, call, tail, hi, isCall, htail, rfl⟩ := hits taken List.mem_cons_self
          exact ⟨_, carved.call hi isCall htail⟩

theorem carved_cuts (r : Rules) (param body : Text) :
    ∃ parts, Carved r param (cuts (r.forwardingCall param) none body) parts := by
  refine exists_carved fun taken m => ?_
  obtain ⟨-, b, rest, read, -⟩ := mem_cuts_hit (r.forwardingCall_suffixed param) m
  obtain ⟨ind, this, bare, tail, hi, hthis, hbare, htail, -, e⟩ := mem_forwardingCall.1 read
  obtain rfl := List.append_cancel_right e
  exact ⟨ind, this ++ bare, tail, hi, ⟨this, bare, hthis, hbare, rfl⟩, htail, by simp⟩

theorem Carved.text_eq {pieces parts : List (Piece Unit)} (h : Carved r param pieces parts) :
    parts.flatMap Piece.text = pieces.flatMap Piece.text := by
  induction h with
  | nil => rfl
  | plain c _ ih => rw [List.flatMap_cons, List.flatMap_cons, ih]
  | call _ _ _ _ ih => simp [ih, Piece.text]

theorem Carved.isCall {pieces parts : List (Piece Unit)} (h : Carved r param pieces parts)
    {call : Text} (m : .hit call () ∈ parts) : r.IsCall param call := by
  induction h with
  | nil => cases m
  | plain c _ ih => exact ih (List.mem_of_ne_of_mem (by simp) m)
  | call _ isCall _ _ ih =>
      simp only [List.mem_append, List.mem_map, List.mem_cons, reduceCtorEq, and_false, exists_false,
        false_or, Piece.hit.injEq, and_true] at m
      rcases m with rfl | m
      · exact isCall
      · exact ih m

theorem Carved.kept_call (ind call tail : Text) (parts : List (Piece Unit)) :
    (ind.map Piece.plain ++ Piece.hit call () :: (tail.map Piece.plain ++ parts)).flatMap Piece.kept =
      ind ++ (tail ++ parts.flatMap Piece.kept) := by
  simp [Piece.kept]

/-- With its calls a body loses white space only. -/
theorem Carved.solid_kept {pieces parts : List (Piece Unit)} (h : Carved r param pieces parts) :
    solid (parts.flatMap Piece.kept) = solid (pieces.flatMap Piece.kept) := by
  induction h with
  | nil => rfl
  | plain c _ ih => rw [List.flatMap_cons, List.flatMap_cons, solid_append, solid_append, ih]
  | call hi _ htail _ ih =>
      rw [kept_call, solid_append, solid_append, solid_eq_nil.2 (isBlankText_of_all_isIndent hi),
        solid_eq_nil.2 (isBlankText_callTail htail), ih]
      rfl

/-! ## The line ends that go -/

theorem IsCall.getLast? {call : Text} (h : r.IsCall param call) : call.getLast? = some ';' := by
  obtain ⟨this, bare, -, ⟨w₁, w₂, w₃, w₄, -, -, -, -, rfl⟩, rfl⟩ := h
  simp [List.getLast?_append, List.getLast?_cons]

/-- A line feed behind a call is the last thing that goes with it. -/
theorem feed_iff {ind call tail : Text} (isCall : r.IsCall param call) (htail : IsCallTail tail) :
    (ind ++ call ++ tail).getLast? = some '\n' ↔ '\n' ∈ tail := by
  obtain ⟨blank, e, hb, ends, rfl⟩ := htail
  have last : (ind ++ call).getLast? = some ';' := by
    rw [List.getLast?_append, isCall.getLast?]
    rfl
  rw [List.getLast?_append (l := ind ++ call), last]
  constructor
  · intro last
    cases behind : (blank ++ e).getLast? with
    | none =>
        rw [behind] at last
        cases last
    | some c =>
        rw [behind] at last
        obtain rfl := Option.some.inj last
        exact List.mem_of_getLast? behind
  · intro m
    rcases List.mem_append.1 m with m | m
    · exact absurd m (noFeed_of_all_isIndent hb)
    · rcases ends with rfl | rfl | rfl
      · cases m
      · simp
      · simp

/-- A line feed outside the calls stays, or its line end goes with a call. -/
theorem Carved.mem_breaks {pieces parts : List (Piece Unit)} (h : Carved r param pieces parts)
    {k m : Nat} (feed : m ∈ breaks k (parts.flatMap Piece.kept)) :
    m ∈ breaks k (pieces.flatMap Piece.kept) ∨
      ∃ above below, LineTaken pieces above below ∧ m = k + (solid above).length := by
  induction h generalizing k with
  | nil => exact Or.inl feed
  | plain c _ ih =>
      rw [List.flatMap_cons, breaks_append, List.mem_append] at feed ⊢
      rcases feed with here | later
      · exact Or.inl (Or.inl here)
      · rcases ih later with stays | ⟨above, below, taken, rfl⟩
        · exact Or.inl (Or.inr stays)
        · refine Or.inr ⟨_, below, taken.later (p := .plain c), ?_⟩
          rw [solid_append, List.length_append, Nat.add_assoc]
  | @call ind call tail pieces parts hi isCall htail _ ih =>
      have blank := isBlankText_callTail htail
      rw [kept_call, breaks_append, breaks_of_no_feed (noFeed_of_all_isIndent hi), List.nil_append,
        solid_eq_nil.2 (isBlankText_of_all_isIndent hi), breaks_append, List.mem_append,
        solid_eq_nil.2 blank] at feed
      rcases feed with here | later
      · obtain ⟨feed, rfl⟩ := (mem_breaks_of_blank blank).1 here
        exact Or.inr ⟨[], _, .here ((feed_iff isCall htail).2 feed), rfl⟩
      · rcases ih later with stays | ⟨above, below, taken, rfl⟩
        · exact Or.inl stays
        · exact Or.inr ⟨_, below, taken.later (p := .hit (ind ++ call ++ tail) ()), rfl⟩

theorem LineTaken.kept_eq {pieces : List (Piece Unit)} {above below : Text}
    (h : LineTaken pieces above below) : pieces.flatMap Piece.kept = above ++ below := by
  induction h with
  | here => rfl
  | later _ ih => rw [List.flatMap_cons, ih, List.append_assoc]

/-- The line feed between what stays above and below is one of the body. -/
theorem Carved.feed {pieces parts : List (Piece Unit)} (h : Carved r param pieces parts)
    {above below : Text} (taken : LineTaken pieces above below) (k : Nat) :
    k + (solid above).length ∈ breaks k (parts.flatMap Piece.kept) := by
  induction h generalizing k above with
  | nil => cases taken
  | plain c _ ih =>
      cases taken with
      | later taken =>
          rw [List.flatMap_cons, breaks_append, List.mem_append, solid_append, List.length_append,
            ← Nat.add_assoc]
          exact Or.inr (ih taken _)
  | @call ind call tail pieces parts hi isCall htail _ ih =>
      have blank := isBlankText_callTail htail
      rw [kept_call, breaks_append, List.mem_append,
        solid_eq_nil.2 (isBlankText_of_all_isIndent hi), breaks_append, List.mem_append,
        solid_eq_nil.2 blank]
      cases taken with
      | here feed =>
          exact Or.inr (Or.inl ((mem_breaks_of_blank blank).2 ⟨(feed_iff isCall htail).1 feed, rfl⟩))
      | later taken => exact Or.inr (Or.inr (ih taken k))

/-! ## Calls that are the first on their line -/

/-- Where each call is the first on its line, what stays above a line end that goes is blank on its
last line. -/
theorem Carved.endsBlank {pieces parts : List (Piece Unit)} (h : Carved r param pieces parts)
    {front left above below : Text} (like : EndsLike front left 0)
    (first : ∀ init call more, parts = init ++ .hit call () :: more →
      EndsBlank (front ++ init.flatMap Piece.text))
    (taken : LineTaken pieces above below) : EndsBlank (left ++ above) := by
  induction h generalizing front left above with
  | nil => cases taken
  | plain c _ ih =>
      cases taken with
      | later taken =>
          rw [← List.append_assoc]
          have like' : EndsLike (front ++ [c]) (left ++ [c]) 0 := like.append (Nat.zero_le _)
          refine ih like' ?_ taken
          rintro init call more rfl
          simpa [Piece.text] using first (.plain c :: init) call more rfl
  | @call ind call tail pieces parts hi isCall htail _ ih =>
      have ends := like.blank ind (by simpa using first (ind.map .plain) call _ rfl)
      rw [List.drop_zero, endsBlank_append_of_not_mem (noFeed_of_all_isIndent hi)] at ends
      cases taken with
      | here => rw [List.append_nil]; exact ends.1
      | later taken =>
          have last : (front ++ ind ++ call).getLast? = some ';' := by
            rw [List.getLast?_append, isCall.getLast?]
            rfl
          have behind : EndsLike (front ++ ind ++ call) left tail.length :=
            .of_last last (by decide) fun _ => ends.1
          have like' := behind.append (Nat.le_refl tail.length)
          rw [List.drop_length, List.append_nil] at like'
          refine ih like' ?_ taken
          rintro init call' more rfl
          have := first (ind.map .plain ++ .hit call () :: (tail.map .plain ++ init)) call' more
            (by simp)
          simpa [Piece.text] using this

/-- The removal of forwarding calls takes white space only beside the calls, and joins two lines
exactly where a line end goes with a call while something is left on the line in front of it and on
the line behind.  It joins none where each call is the first on its line. -/
theorem removeCalls_linesApart (r : Rules) (param body : Text) :
    (∃ parts, Carved r param (cuts (r.forwardingCall param) none body) parts) ∧
      ∀ parts, Carved r param (cuts (r.forwardingCall param) none body) parts →
        parts.flatMap Piece.text = body ∧
        (∀ call, .hit call () ∈ parts → r.IsCall param call) ∧
        solid (r.removeCalls param body) = solid (parts.flatMap Piece.kept) ∧
        (LinesApart (parts.flatMap Piece.kept) (r.removeCalls param body) ↔
          ∀ above below, LineTaken (cuts (r.forwardingCall param) none body) above below →
            EndsBlank above ∨ StartsBlank below) ∧
        ((∀ front call back, parts = front ++ .hit call () :: back →
            EndsBlank (front.flatMap Piece.text)) →
          LinesApart (parts.flatMap Piece.kept) (r.removeCalls param body)) := by
  refine ⟨carved_cuts r param body, fun parts carved => ?_⟩
  have text := cuts_text (r.forwardingCall_suffixed param) none body
  have seams : LinesApart (parts.flatMap Piece.kept) (r.removeCalls param body) ↔
      ∀ above below, LineTaken (cuts (r.forwardingCall param) none body) above below →
        EndsBlank above ∨ StartsBlank below := by
    rw [removeCalls, remove_eq_leftFrom, leftFrom]
    refine linesApart_iff_seams (fun n m => ?_) fun above below taken => ?_
    · rcases carved.mem_breaks m with stays | ⟨above, below, taken, e⟩
      · exact Or.inl stays
      · exact Or.inr ⟨above, below, taken, by rw [e, Nat.zero_add]⟩
    · exact ⟨taken.kept_eq, by simpa using carved.feed taken 0⟩
  refine ⟨carved.text_eq.trans text, fun call m => carved.isCall m, ?_, seams, fun first => ?_⟩
  · rw [removeCalls, remove_eq_leftFrom, leftFrom, carved.solid_kept]
  · exact seams.2 fun above below taken => Or.inl (carved.endsBlank .nil first taken)

/-- A forwarding call in a comment, and a statement on the next line. -/
def commentedBody : Text :=
  "// OnModelCreatingPartial(b);\nSeed(b);\n".toList

/-- The call goes with the line end, and the statement becomes part of the comment. -/
theorem removeCalls_joins_lines :
    ∃ call, Rules.standard.IsCall ['b'] call ∧
      commentedBody = "// ".toList ++ call ++ "\nSeed(b);\n".toList ∧
      Rules.standard.removeCalls ['b'] commentedBody = "//Seed(b);\n".toList ∧
      ¬ LinesApart ("// ".toList ++ "\nSeed(b);\n".toList) "//Seed(b);\n".toList := by
  have isCall : Rules.standard.IsCall ['b'] "OnModelCreatingPartial(b);".toList :=
    ⟨[], _, Or.inl rfl, ⟨[], [], [], [], rfl, rfl, rfl, rfl, rfl⟩, rfl⟩
  exact ⟨_, isCall, by decide, by decide +kernel, by decide +kernel⟩

end Regraft.Rules
