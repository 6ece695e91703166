import Regraft.Proofs.Insertion

/-!
# Regraft.Proofs.Boundary -- where the method ends after a merge

A merge never moves the declaration and the opening brace of the method.  The closing brace moves by
the length of the insertion exactly if the new body is balanced with the carry-over in its place
(`run_boundary`): the check at the end of a merge counts the braces of a body that is located
already, and these always match, so it lets other carry-over through (`run_boundary_moved`).
-/

namespace Regraft.Merge

set_option autoImplicit false

open Text CarryOver

def Braceless (t : Text) : Prop :=
  '{' ∉ t ∧ '}' ∉ t

instance (t : Text) : Decidable (Braceless t) :=
  inferInstanceAs (Decidable (_ ∧ _))

theorem Braceless.append {s t : Text} (hs : Braceless s) (ht : Braceless t) :
    Braceless (s ++ t) := by
  simp only [Braceless, List.mem_append, not_or] at hs ht ⊢
  exact ⟨⟨hs.1, ht.1⟩, hs.2, ht.2⟩

theorem Braceless.isBalanced {t : Text} (h : Braceless t) : Brace.isBalanced t = true :=
  Brace.isBalanced_of_no_brace h.1 h.2

theorem braceless_of_isBlankText {t : Text} (blank : isBlankText t = true) : Braceless t := by
  exact ⟨not_mem_of_isBlankText blank (by decide), not_mem_of_isBlankText blank (by decide)⟩

theorem braceless_flatMap {α : Type} {f : α → Text} {l : List α} (h : ∀ a ∈ l, Braceless (f a)) :
    Braceless (l.flatMap f) := by
  simp only [Braceless, List.mem_flatMap, not_exists, not_and]
  exact ⟨fun a m => (h a m).1, fun a m => (h a m).2⟩

theorem braceless_notice {indent : Text} (blank : isBlankText indent = true) :
    Braceless (MarkerPair.standard.notice indent) := by
  have lines : ∀ line ∈ MarkerPair.standard.opening :: MarkerPair.noticeLines ++
      [MarkerPair.standard.closing], Braceless line := by
    decide
  refine braceless_flatMap fun line m => ?_
  exact ((braceless_of_isBlankText blank).append (lines line m)).append (by decide)

theorem braceless_footer : Braceless MarkerPair.standard.footer := by
  decide

/-- What is put around carried-over code has no braces. -/
theorem isBalanced_banner {before indent preserved after : Text}
    (hbefore : isBlankText before = true) (hindent : isBlankText indent = true)
    (hafter : isBlankText after = true) (x y : Text) :
    Brace.isBalanced (x ++ (before ++ banner .standard indent preserved ++ after) ++ y) =
      Brace.isBalanced (x ++ preserved ++ y) := by
  have front : Braceless (before ++ MarkerPair.standard.notice indent) :=
    (braceless_of_isBlankText hbefore).append (braceless_notice hindent)
  have feed : Braceless ['\n'] := by decide
  have back : Braceless (['\n'] ++ indent ++ MarkerPair.standard.footer ++ after) :=
    ((feed.append (braceless_of_isBlankText hindent)).append braceless_footer).append
      (braceless_of_isBlankText hafter)
  have e : x ++ (before ++ banner .standard indent preserved ++ after) ++ y =
      x ++ (before ++ MarkerPair.standard.notice indent) ++
        (preserved ++ (['\n'] ++ indent ++ MarkerPair.standard.footer ++ after) ++ y) := by
    have markers : Rules.standard.markers = MarkerPair.standard := rfl
    simp only [banner, markers, List.append_assoc, List.cons_append, List.nil_append]
  rw [e, Brace.isBalanced_insert front.isBalanced, ← List.append_assoc, ← List.append_assoc,
    Brace.isBalanced_insert back.isBalanced]

/-- The method of a merged text: the declaration and the opening brace are those of the new text, and
the block is closed anew. -/
theorem locate_apply {source : String} {new : Text} {m : Method} {p : Plan} {x y : Text}
    (found : (locate .standard source new).outcome = .ok m) (parts : m.body = x ++ y)
    (offset : p.offset = m.bodyStart + x.length) :
    (Method.locate Rules.standard.signature false (p.apply new)).outcome =
      match Brace.closeBlock 0 (x ++ p.insertion ++ y ++ '}' :: m.after) with
      | .error depth => .error (.unclosedBrace m.openBrace depth)
      | .ok (body, after) => .ok (some { m with body := body, after := after }) := by
  have located := locate_eq_ok.1 found
  rw [← text_of_locate found, apply_splice parts offset]
  exact Method.locate_swap (by decide) (by decide) located _

/-- After a merge the declaration and the opening brace stand where they stand in the new text, and
the closing brace is moved by the insertion exactly if the body of the new text is balanced with the
carry-over at the place of the insertion. -/
theorem run_boundary {oldSource newSource : String} {old new preserved merged : Text} {p : Plan}
    (done : (run .standard oldSource newSource old new).2 = .done preserved (some p) merged) :
    ∃ m m' x y, (locate .standard newSource new).outcome = .ok m ∧
      (locate .standard newSource merged).outcome = .ok m' ∧
      m.body = x ++ y ∧ p.offset = m.bodyStart + x.length ∧
      m'.start = m.start ∧ m'.stop = m.stop ∧ m'.openBrace = m.openBrace ∧
      (m'.closeBrace = m.closeBrace + p.insertion.length ↔
        Brace.isBalanced (x ++ preserved ++ y) = true) := by
  obtain ⟨-, m, found, planned, rfl, m', found'⟩ := run_eq_done.1 done
  split at planned
  · cases planned
  · rw [Option.some.injEq] at planned
    obtain ⟨x, y, before, indent, after, parts, offset, insertion, hbefore, hindent, hafter⟩ :=
      (planned ▸ place_planIn .standard m preserved : Place .standard m preserved p).insertion
    have spliced := locate_apply found parts offset
    have located : (Method.locate Rules.standard.signature false (p.apply new)).outcome =
        .ok (some m') := locate_eq_ok.1 found'
    rw [located] at spliced
    refine ⟨m, m', x, y, found, found', parts, offset, ?_⟩
    rw [← isBalanced_banner hbefore hindent hafter, ← insertion]
    split at spliced
    · cases spliced
    · rename_i body after closed
      obtain ⟨e, inside⟩ := Brace.closeBlock_eq_ok.1 closed
      simp only [Except.ok.injEq, Option.some.injEq] at spliced
      subst spliced
      refine ⟨rfl, rfl, rfl, ?_⟩
      have length : (x ++ p.insertion ++ y).length = m.body.length + p.insertion.length := by
        rw [parts]
        simp only [List.length_append]
        omega
      simp only [Method.closeBrace, Method.bodyStart, Method.openBrace, Method.stop, Method.start]
      constructor
      · intro moved
        have same : body = x ++ p.insertion ++ y := (List.append_inj e (by omega)).1.symm
        rw [← same]
        exact Brace.isBalanced_iff.2 inside
      · intro balanced
        have whole : Brace.closeBlock 0 (x ++ p.insertion ++ y ++ '}' :: m.after) =
            .ok (x ++ p.insertion ++ y, m.after) :=
          Brace.closeBlock_eq_ok.2 ⟨rfl, Brace.isBalanced_iff.1 balanced⟩
        rw [whole, Except.ok.injEq, Prod.mk.injEq] at closed
        rw [← closed.1, length]
        omega

/-- A generated context with nothing but the forwarding call. -/
def callScaffold : Text :=
  ("protected override void OnModelCreating(ModelBuilder b)\n\x7b\n" ++
    "    OnModelCreatingPartial(b);\n\x7d\n").toList

def callMethod : Method where
  before := []
  declaration := "protected override void OnModelCreating(ModelBuilder b)".toList
  gap := ['\n']
  body := "\n    OnModelCreatingPartial(b);\n".toList
  after := ['\n']
  param := ['b']

/-- A context with one statement written by hand. -/
def seedContext : Text :=
  ("protected override void OnModelCreating(ModelBuilder b)\n\x7b\n    Seed(b);\n\x7d\n").toList

def seedPlan : Plan :=
  planIn .standard callMethod "    Seed(b);".toList

theorem run_seed : (run .standard "" "" seedContext callScaffold).2 =
    .done "    Seed(b);".toList (some seedPlan) (seedPlan.apply callScaffold) := by
  decide +kernel

theorem run_boundary_seed :
    ∃ m m' x y, (locate .standard "" callScaffold).outcome = .ok m ∧
      (locate .standard "" (seedPlan.apply callScaffold)).outcome = .ok m' ∧
      m.body = x ++ y ∧ seedPlan.offset = m.bodyStart + x.length ∧
      m'.start = m.start ∧ m'.stop = m.stop ∧ m'.openBrace = m.openBrace ∧
      (m'.closeBrace = m.closeBrace + seedPlan.insertion.length ↔
        Brace.isBalanced (x ++ "    Seed(b);".toList ++ y) = true) :=
  run_boundary run_seed

/-- A context whose notice holds an opening brace: with the notice gone, the closing brace below it is
what is carried over. -/
def bracedNotice : Text :=
  ("protected override void OnModelCreating(ModelBuilder b)\n\x7b\n" ++
    "    // scaffold-merge:begin-notice \x7b\n    // scaffold-merge:end-notice\n" ++
    "    \x7d\n\x7d\n").toList

/-- The plan for the carry-over of `bracedNotice` in `callScaffold`. -/
def bracePlan : Plan :=
  planIn .standard callMethod "    \x7d".toList

/-- A merge may end the method early: carry-over that closes more blocks than it opens passes. -/
theorem run_boundary_moved :
    (run .standard "" "" bracedNotice callScaffold).2 =
        .done "    \x7d".toList (some bracePlan) (bracePlan.apply callScaffold) ∧
      (locate .standard "" callScaffold).outcome = .ok callMethod ∧
      ∃ m', (locate .standard "" (bracePlan.apply callScaffold)).outcome = .ok m' ∧
        m'.closeBrace ≠ callMethod.closeBrace + bracePlan.insertion.length := by
  let early : Method := { callMethod with
    body := '\n' :: (MarkerPair.standard.notice "    ".toList ++ "    ".toList)
    after := '\n' :: ("    ".toList ++ MarkerPair.standard.footer ++
      "\n\n    OnModelCreatingPartial(b);\n\x7d\n".toList) }
  obtain ⟨done, found, found', moved⟩ :
      (run .standard "" "" bracedNotice callScaffold).2 =
          .done "    \x7d".toList (some bracePlan) (bracePlan.apply callScaffold) ∧
        (locate .standard "" callScaffold).outcome = .ok callMethod ∧
        (locate .standard "" (bracePlan.apply callScaffold)).outcome = .ok early ∧
        early.closeBrace ≠ callMethod.closeBrace + bracePlan.insertion.length := by
    decide +kernel
  exact ⟨done, found, early, found', moved⟩

end Regraft.Merge
