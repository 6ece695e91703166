import Regraft.Proofs.BlankLines
import Regraft.Proofs.Entity.Collapse
import Regraft.Proofs.Entity.Outside
import Regraft.Proofs.ForwardingCall
import Regraft.Proofs.Marker

/-!
# Regraft.Proofs.Extraction -- extraction loses no hand-written character

Extraction of a body without markers takes entity statements and forwarding calls, and beyond them
white space only (`solid_extract`).  Each stage of extraction has a lemma that says which solid
characters it takes: none by collapsing and trimming, those of the statements by removal, those of
the calls by the last stage, where the calls are pieces of the text and so do not overlap.
-/

namespace Regraft

set_option autoImplicit false

open Text Reader

/-! ## Calls -/

namespace Rules

def callWord (r : Rules) (param : Text) : Text :=
  solid (r.forward ++ '(' :: param ++ [')', ';'])

def receiverWord : Text :=
  "this.".toList

theorem solid_receiver {this : Text} (h : IsReceiver this) : solid this = receiverWord := by
  obtain ⟨left, right, hl, hr, rfl⟩ := h
  rw [solid_append, solid_append, solid_cons, solid_eq_nil.2 hl, solid_eq_nil.2 hr]
  decide

theorem solid_bareCall {r : Rules} {param call : Text} (h : r.IsBareCall param call) :
    solid call = r.callWord param := by
  obtain ⟨w₁, w₂, w₃, w₄, h₁, h₂, h₃, h₄, rfl⟩ := h
  have blank {w : Text} (h : isBlankText w = true) : solid w = [] := solid_eq_nil.2 h
  have paren : isBlank '(' = false := by decide
  have close : isBlank ')' = false := by decide
  simp only [callWord, solid_append, solid_cons, List.cons_append, List.append_assoc, paren, close,
    blank h₁, blank h₂, blank h₃, blank h₄, List.nil_append, Bool.false_eq_true, if_false, solid_nil]

/-- A call is the forwarding call with or without a receiver, up to white space. -/
theorem solid_call {r : Rules} {param call : Text} (h : r.IsCall param call) :
    solid call = r.callWord param ∨ solid call = receiverWord ++ r.callWord param := by
  obtain ⟨this, bare, hthis, hbare, rfl⟩ := h
  rw [solid_append, solid_bareCall hbare]
  rcases hthis with rfl | reads
  · exact Or.inl rfl
  · exact Or.inr (by rw [solid_receiver reads])

theorem isBlankText_callTail {tail : Text} (h : IsCallTail tail) : isBlankText tail = true := by
  obtain ⟨blank, e, hb, he, rfl⟩ := h
  rw [isBlankText_append, isBlankText_of_all_isIndent hb]
  rcases he with rfl | he
  · rfl
  · rw [isBlankText_of_isLineEnd he]
    rfl

theorem forwardingCall_suffixed (r : Rules) (param : Text) (before : Option Char) :
    Suffixed (r.forwardingCall param before) := by
  rintro t ⟨⟨⟩, rest⟩ m
  obtain ⟨ind, this, bare, tail, -, -, -, -, -, rfl⟩ := mem_forwardingCall.1 m
  exact List.suffix_append ..

/-- What the walk takes as a call is one, with white space around it. -/
theorem solid_hit {r : Rules} {param t taken : Text} {before : Option Char}
    (m : Piece.hit taken () ∈ cuts (r.forwardingCall param) before t) :
    solid taken = r.callWord param ∨ solid taken = receiverWord ++ r.callWord param := by
  obtain ⟨-, b, rest, read, -⟩ := mem_cuts_hit (r.forwardingCall_suffixed param) m
  obtain ⟨ind, this, bare, tail, hi, hthis, hbare, htail, -, e⟩ := mem_forwardingCall.1 read
  obtain rfl := List.append_cancel_right e
  rw [solid_append, solid_append, solid_append, solid_eq_nil.2 (isBlankText_of_all_isIndent hi),
    solid_eq_nil.2 (isBlankText_callTail htail), List.append_nil, List.nil_append, ← solid_append]
  exact solid_call ⟨this, bare, hthis, hbare, rfl⟩

end Rules

/-- Pieces of a text are pieces of any text with the same solid characters. -/
theorem pieces_of_solid {α : Type} {pieces : List (Piece α)} {t : Text}
    (same : solid t = solid (pieces.flatMap Piece.text)) :
    ∃ pieces' : List (Piece α), pieces'.flatMap Piece.text = t ∧
      (∀ taken a, Piece.hit taken a ∈ pieces' →
        ∃ taken', Piece.hit taken' a ∈ pieces ∧ solid taken = solid taken') ∧
      solid (pieces'.flatMap Piece.kept) = solid (pieces.flatMap Piece.kept) := by
  have plain (s : Text) : (s.map (Piece.plain (α := α))).flatMap Piece.text = s ∧
      (s.map (Piece.plain (α := α))).flatMap Piece.kept = s := by
    simp [List.flatMap_map, Piece.text, Piece.kept]
  have noHit (s taken : Text) (a : α) : Piece.hit taken a ∉ s.map Piece.plain := by simp
  induction pieces generalizing t with
  | nil =>
      refine ⟨t.map .plain, (plain t).1, fun taken a m => absurd m (noHit t taken a), ?_⟩
      rw [(plain t).2]
      exact same
  | cons p pieces ih =>
      rw [List.flatMap_cons, solid_append] at same
      obtain ⟨s, u, rfl, first, later⟩ := solid_eq_append same
      obtain ⟨pieces', text, hits, kept⟩ := ih later
      cases p with
      | plain c =>
          refine ⟨s.map .plain ++ pieces', ?_, fun taken a m => ?_, ?_⟩
          · rw [List.flatMap_append, (plain s).1, text]
          · rcases List.mem_append.1 m with m | m
            · exact absurd m (noHit s taken a)
            · obtain ⟨taken', m', e⟩ := hits taken a m
              exact ⟨taken', List.mem_cons_of_mem _ m', e⟩
          · rw [List.flatMap_append, (plain s).2, List.flatMap_cons, solid_append, solid_append,
              kept, first]
            rfl
      | hit taken a =>
          refine ⟨.hit s a :: pieces', ?_, fun taken' a' m => ?_, ?_⟩
          · rw [List.flatMap_cons, text]
            rfl
          · rcases List.mem_cons.1 m with e | m
            · obtain ⟨rfl, rfl⟩ := Piece.hit.inj e
              exact ⟨taken, List.mem_cons_self, first⟩
            · obtain ⟨taken'', m', e⟩ := hits taken' a' m
              exact ⟨taken'', List.mem_cons_of_mem _ m', e⟩
          · rw [List.flatMap_cons, List.flatMap_cons, solid_append, solid_append, kept]
            rfl

/-! ## Statements -/

namespace Entity

/-- A body that can be stripped has its statements, and loses no other solid character. -/
theorem solid_strip {token body bare : Text} (done : strip token body = .ok bare) :
    ∃ bs, blocks token body = .ok bs ∧
      solid bare = solid (outside (bs.map Block.range) 0 body) := by
  simp only [strip] at done
  split at done
  · cases done
  · rename_i closed
    refine ⟨blocksFrom 0 (segments token body), by simp only [blocks, closed], ?_⟩
    have removed := @solid_removeFrom 0 (segments token body)
      (by rw [List.take_zero]; rfl)
    have ranges := outside_blocksFrom 0 (segments token body)
    rw [segments_text] at ranges
    rw [ranges, ← removed]
    simp only [Except.ok.injEq] at done
    rw [← done]
    split
    · rfl
    · exact solid_collapse _

end Entity

/-! ## Extraction -/

deriving instance DecidableEq for Method

deriving instance DecidableEq for Reader.Occurrence

namespace CarryOver

theorem extract_eq {r : Rules} {source : String} {old : Text} {m : Method}
    (found : (locate r source old).outcome = .ok m) :
    (extract r source old).outcome = ofMethod r m := by
  simp only [extract, Attempt.outcome_bind, found, Except.bind, Attempt.outcome_noteAll,
    Attempt.outcome_ofExcept, Attempt.outcome_note, Attempt.outcome_pure]
  cases ofMethod r m <;> rfl

theorem ofMethod_eq {r : Rules} {m : Method} {preserved : Text}
    (done : ofMethod r m = .ok preserved) :
    ∃ bare, Entity.strip (Entity.anchor m.param) (r.markers.strip m.body) = .ok bare ∧
      preserved = trimEnd (dropBlankLines (r.removeCalls m.param bare)) := by
  simp only [ofMethod, bind, Except.bind] at done
  split at done
  · cases done
  · rename_i bare stripped
    exact ⟨bare, stripped, (Except.ok.inj done).symm⟩

/-- Extraction from a body without markers takes nothing but white space, the entity statements, and
forwarding calls that do not overlap in what the statements leave. -/
theorem solid_extract {r : Rules} {source : String} {old preserved : Text} {m : Method}
    (found : (locate r source old).outcome = .ok m)
    (done : (extract r source old).outcome = .ok preserved)
    (noOpening : ¬ r.markers.opening <:+: m.body)
    (noLead : r.markers.lead ≠ [] →
      Reader.occurrences (MarkerPair.leadLine r.markers.lead) m.body = []) :
    ∃ (bs : List Entity.Block) (pieces : List (Piece Unit)),
      Entity.blocks (Entity.anchor m.param) m.body = .ok bs ∧
      pieces.flatMap Piece.text = Entity.outside (bs.map Entity.Block.range) 0 m.body ∧
      (∀ call, Piece.hit call () ∈ pieces →
        solid call = r.callWord m.param ∨
          solid call = Rules.receiverWord ++ r.callWord m.param) ∧
      solid preserved = solid (pieces.flatMap Piece.kept) := by
  rw [extract_eq found] at done
  obtain ⟨bare, stripped, rfl⟩ := ofMethod_eq done
  rw [MarkerPair.strip_of_unmarked noOpening noLead] at stripped
  obtain ⟨bs, hbs, same⟩ := Entity.solid_strip stripped
  -- the calls are pieces of the stripped text, which differs in white space only
  have text : (cuts (r.forwardingCall m.param) none bare).flatMap Piece.text = bare :=
    cuts_text (r.forwardingCall_suffixed m.param) none bare
  rw [← text] at same
  obtain ⟨pieces, e, hits, kept⟩ := pieces_of_solid same.symm
  refine ⟨bs, pieces, hbs, e, fun call member => ?_, ?_⟩
  · obtain ⟨taken, hit, equal⟩ := hits call () member
    rw [equal]
    exact Rules.solid_hit hit
  · rw [kept, solid_trimEnd, solid_dropBlankLines, Rules.removeCalls, remove_eq_leftFrom]
    rfl

/-- A context with an entity statement, an anchor that opens none, a forwarding call and a statement
written by hand. -/
def blogContext : Text :=
  ("protected override void OnModelCreating(ModelBuilder b)\n\x7b\n" ++
    "    b.Entity<Blog>(e => \x7b e.HasKey(); \x7d);\n    b.Entity<Post>().HasKey();\n" ++
    "    this. OnModelCreatingPartial( b );\n    Seed(b);\n\x7d\n").toList

def blogMethod : Method where
  before := []
  declaration := "protected override void OnModelCreating(ModelBuilder b)".toList
  gap := ['\n']
  body := ("\n    b.Entity<Blog>(e => \x7b e.HasKey(); \x7d);\n    b.Entity<Post>().HasKey();\n" ++
    "    this. OnModelCreatingPartial( b );\n    Seed(b);\n").toList
  after := ['\n']
  param := ['b']

def blogCarryOver : Text :=
  "    b.Entity<Post>().HasKey();\n    Seed(b);".toList

theorem solid_extract_blog :
    ∃ (bs : List Entity.Block) (pieces : List (Piece Unit)),
      Entity.blocks (Entity.anchor blogMethod.param) blogMethod.body = .ok bs ∧
      pieces.flatMap Piece.text = Entity.outside (bs.map Entity.Block.range) 0 blogMethod.body ∧
      (∀ call, Piece.hit call () ∈ pieces →
        solid call = Rules.standard.callWord blogMethod.param ∨
          solid call = Rules.receiverWord ++ Rules.standard.callWord blogMethod.param) ∧
      solid blogCarryOver = solid (pieces.flatMap Piece.kept) := by
  obtain ⟨found, done, noOpening, noLead⟩ :
      (locate .standard "" blogContext).outcome = .ok blogMethod ∧
        (extract .standard "" blogContext).outcome = .ok blogCarryOver ∧
        ¬ Rules.standard.markers.opening <:+: blogMethod.body ∧
        Reader.occurrences (MarkerPair.leadLine Rules.standard.markers.lead) blogMethod.body = [] := by
    decide +kernel
  exact solid_extract found done noOpening fun _ => noLead

end CarryOver

end Regraft
