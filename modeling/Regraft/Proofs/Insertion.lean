import Regraft.Merge
import Regraft.Proofs.Extraction
import Regraft.Proofs.Method

/-!
# Regraft.Proofs.Insertion -- the stages of a merge as equations

A merge that ends well is an extraction, a located method, and a text spliced into its body
(`run_eq_done`, `apply_splice`).  The check at the end finds the method again and nothing else: a
located body closes its blocks, so looking at them cannot fail (`validate_eq`).
-/

namespace Regraft

set_option autoImplicit false

open Text Reader

/-- A sequence ends well when both parts do. -/
theorem Attempt.bind_eq_ok {ε α β : Type} {x : Attempt ε α} {f : α → Attempt ε β} {b : β} :
    (x >>= f).outcome = .ok b ↔ ∃ a, x.outcome = .ok a ∧ (f a).outcome = .ok b := by
  rw [Attempt.outcome_bind]
  cases x.outcome <;> simp [Except.bind]

namespace CarryOver

theorem locate_eq_ok {r : Rules} {source : String} {t : Text} {m : Method} :
    (locate r source t).outcome = .ok m ↔
      (Method.locate r.signature r.strict t).outcome = .ok (some m) := by
  rw [locate, Attempt.outcome_bind]
  cases (Method.locate r.signature r.strict t).outcome with
  | error e => simp [Except.bind]
  | ok found => cases found <;> simp [Except.bind]

/-- A located method is a cut at the first declaration. -/
theorem cut_of_locate {r : Rules} {source : String} {t : Text} {m : Method}
    (h : (locate r source t).outcome = .ok m) :
    ∃ first others, r.signature.occurrences t = first :: others ∧
      first.start ≤ first.stop ∧ Method.cut t first = .ok (some m) := by
  rw [locate_eq_ok, Method.locate_outcome] at h
  cases some_ : r.signature.occurrences t with
  | nil => simp [some_] at h
  | cons first others =>
      obtain ⟨front, taken, more, -, start, stop⟩ := Signature.occurrences_eq_cons some_
      simp only [some_] at h
      split at h
      · cases h
      · exact ⟨first, others, rfl, by omega, h⟩

/-- The parameter of a located method is an identifier. -/
theorem isIdent_of_locate {r : Rules} {source : String} {t : Text} {m : Method}
    (h : (locate r source t).outcome = .ok m) : Signature.IsIdent m.param := by
  obtain ⟨first, others, some_, -, cut⟩ := cut_of_locate h
  obtain ⟨front, taken, more, pieces, -, -⟩ := Signature.occurrences_eq_cons some_
  have hit : Piece.hit taken first.value ∈ cuts (fun _ => r.signature.declaration) none t := by
    rw [pieces]
    simp
  obtain ⟨-, b, rest, read, -⟩ :=
    mem_cuts_hit (fun _ => r.signature.suffixed_declaration) hit
  rw [(Method.cut_eq_some.1 cut).2.2.1]
  exact r.signature.yields_declaration _ _ read

theorem param_of_locate {r : Rules} {source : String} {t : Text} {m : Method}
    (h : (locate r source t).outcome = .ok m) : ∀ c ∈ m.param, isWord c = true :=
  (isIdent_of_locate h).words

theorem text_of_locate {r : Rules} {source : String} {t : Text} {m : Method}
    (h : (locate r source t).outcome = .ok m) : m.text = t := by
  obtain ⟨first, others, -, ordered, cut⟩ := cut_of_locate h
  exact Method.cut_text ordered cut

theorem isBalanced_of_locate {r : Rules} {source : String} {t : Text} {m : Method}
    (h : (locate r source t).outcome = .ok m) : Brace.isBalanced m.body = true := by
  obtain ⟨first, others, -, -, cut⟩ := cut_of_locate h
  exact (Method.cut_eq_some.1 cut).2.2.2.2.2

theorem mem_indentation {t : Text} {c : Char} (m : c ∈ indentation t) : isIndent c = true :=
  List.mem_takeWhile_imp m

theorem mem_bodyIndent {body : Text} {c : Char} (m : c ∈ bodyIndent body) : isIndent c = true := by
  rw [bodyIndent] at m
  split at m
  · exact mem_indentation m
  · rw [List.eq_of_mem_replicate m]
    rfl

/-- The first forwarding call is a piece of the body behind characters at which none starts. -/
theorem firstCall?_eq_some {r : Rules} {param body call : Text} {start : Nat}
    (h : r.firstCall? param body = some (start, call)) :
    ∃ front back more, body = front ++ call ++ back ∧ start = front.length ∧
      cuts (r.forwardingCall param) none body = front.map .plain ++ .hit call () :: more := by
  rw [Rules.firstCall?, Option.map_eq_some_iff] at h
  obtain ⟨found, head, e⟩ := h
  simp only [Prod.mk.injEq] at e
  obtain ⟨rfl, rfl⟩ := e
  cases some_ : occurrences (r.forwardingCall param) body with
  | nil => simp [some_] at head
  | cons first others =>
      obtain rfl : first = found := by simpa [some_] using head
      obtain ⟨front, taken, more, pieces, begins, ends⟩ := occurrencesFrom_eq_cons some_
      have text := cuts_text (r.forwardingCall_suffixed param) none body
      have plain : (front.map Piece.plain).flatMap (Piece.text (α := Unit)) = front := by
        simp [List.flatMap_map, Piece.text]
      rw [pieces, List.flatMap_append, plain, List.flatMap_cons, Piece.text] at text
      rw [Nat.zero_add] at begins
      have piece : (body.take first.stop).drop first.start = taken := by
        rw [← text, ends, begins, ← List.append_assoc, ← List.length_append, List.take_left,
          List.drop_left]
      refine ⟨front, more.flatMap Piece.text, more, ?_, begins, ?_⟩
      · rw [piece, List.append_assoc, text]
      · rw [piece, pieces]

/-! ## Plans -/

/-- What is put around carried-over code, without the last line feed. -/
def banner (r : Rules) (indent preserved : Text) : Text :=
  r.markers.notice indent ++ preserved ++ '\n' :: indent ++ r.markers.footer

theorem wrap_eq (r : Rules) (indent preserved : Text) :
    wrap r indent preserved = banner r indent preserved ++ ['\n'] := by
  simp [wrap, banner]

theorem footer_last (p : MarkerPair) : p.footer.getLast? = some 's' := by
  rw [MarkerPair.footer, List.getLast?_append]
  rfl

/-- A footer does not end with a line feed, so one goes from behind it. -/
theorem dropFinalLineFeeds_wrap (r : Rules) (indent preserved : Text) :
    dropFinalLineFeeds (wrap r indent preserved) = banner r indent preserved := by
  obtain ⟨front, e⟩ := List.getLast?_eq_some_iff.1 (footer_last r.markers)
  rw [wrap_eq, banner, e, dropFinalLineFeeds]
  simp

/-- The three places for carry-over in a body: above the line of a call, before a call that shares
its line, behind everything that is no white space. -/
inductive Place (r : Rules) (m : Method) (preserved : Text) : Plan → Prop where
  | ownLine {start : Nat} {call whole line rest : Text} :
      r.firstCall? m.param m.body = some (start, call) → m.body = whole ++ line ++ rest →
      (whole ++ line).length = start + (indentation call).length →
      isBlankText line = true → '\n' ∉ line → AtLineStart whole →
      Place r m preserved
        ⟨m.bodyStart + whole.length, preserved, banner r line preserved ++ ['\n', '\n'], true⟩
  | inLine {start : Nat} {call front rest indent : Text} :
      r.firstCall? m.param m.body = some (start, call) → m.body = front ++ rest →
      front.length = start + (indentation call).length → (∀ c ∈ indent, isIndent c = true) →
      Place r m preserved
        ⟨m.bodyStart + front.length, preserved,
          '\n' :: banner r indent preserved ++ '\n' :: '\n' :: indent, true⟩
  | atEnd {front tail gap indent : Text} :
      r.firstCall? m.param m.body = none → m.body = front ++ tail → front = trimEnd m.body →
      isBlankText tail = true → (gap = ['\n'] ∨ gap = ['\n', '\n']) →
      (∀ c ∈ indent, isIndent c = true) →
      Place r m preserved
        ⟨m.bodyStart + front.length, preserved, gap ++ banner r indent preserved, false⟩

theorem place_planIn (r : Rules) (m : Method) (preserved : Text) :
    Place r m preserved (planIn r m preserved) := by
  rw [planIn]
  split
  · rename_i start call found
    obtain ⟨front, back, more, parts, begins, -⟩ := firstCall?_eq_some found
    have bound : start + (indentation call).length ≤ m.body.length := by
      have := List.takeWhile_prefix isIndent (l := call) |>.length_le
      rw [parts, List.length_append, List.length_append, begins, indentation]
      omega
    have cut := List.take_append_drop (start + (indentation call).length) m.body
    have length : (m.body.take (start + (indentation call).length)).length =
        start + (indentation call).length := by
      rw [List.length_take, Nat.min_eq_left bound]
    have lines := splitLastLine_append (m.body.take (start + (indentation call).length))
    obtain ⟨inLine, above⟩ := splitLastLine_spec (m.body.take (start + (indentation call).length))
    rw [planAtCall]
    simp only
    split
    · rename_i blank
      rw [wrap_eq, List.append_assoc]
      exact .ownLine found (by rw [lines, cut]) (by rw [lines, length]) blank inLine above
    · rw [wrap_eq, ← length, length]
      have ind : ∀ c ∈ indentation (m.body.drop
          (splitLastLine (m.body.take (start + (indentation call).length))).1.length),
          isIndent c = true := fun c member => mem_indentation member
      have := @Place.inLine r m preserved _ _ _ _ _ found cut.symm length ind
      rw [length] at this
      simpa using this
  · rename_i none_
    obtain ⟨tail, parts, blank⟩ := trimEnd_append m.body
    rw [planAtEnd, dropFinalLineFeeds_wrap]
    refine .atEnd none_ parts rfl blank ?_ fun c member => mem_bodyIndent member
    split
    · exact Or.inl rfl
    · exact Or.inr rfl

/-- The plan puts the carry-over somewhere into the body, and something around it. -/
theorem Place.insertion {r : Rules} {m : Method} {preserved : Text} {p : Plan}
    (h : Place r m preserved p) :
    ∃ x y before indent after, m.body = x ++ y ∧ p.offset = m.bodyStart + x.length ∧
      p.insertion = before ++ banner r indent preserved ++ after ∧ isBlankText before = true ∧
      isBlankText indent = true ∧ isBlankText after = true := by
  have feed : isBlank '\n' = true := by decide
  cases h with
  | @ownLine start call whole line rest found parts length blank inLine above =>
      exact ⟨whole, line ++ rest, [], line, ['\n', '\n'], by rw [parts, List.append_assoc], rfl, rfl,
        rfl, blank, by decide⟩
  | @inLine start call front rest indent found parts length ind =>
      have blank := isBlankText_of_all_isIndent ind
      exact ⟨front, rest, ['\n'], indent, '\n' :: '\n' :: indent, parts, rfl, rfl, by decide, blank,
        by simp [feed, blank]⟩
  | @atEnd front tail gap indent none_ parts e blank gap_ ind =>
      refine ⟨front, tail, gap, indent, [], parts, rfl, by simp, ?_,
        isBlankText_of_all_isIndent ind, rfl⟩
      rcases gap_ with rfl | rfl <;> decide

/-- Putting text into a body splices it in behind the opening brace. -/
theorem apply_splice {m : Method} {p : Plan} {x y : Text} (parts : m.body = x ++ y)
    (offset : p.offset = m.bodyStart + x.length) :
    p.apply m.text = m.heading ++ '{' :: (x ++ p.insertion ++ y ++ '}' :: m.after) := by
  have e : m.text = (m.heading ++ '{' :: x) ++ (y ++ '}' :: m.after) := by
    rw [Method.text_eq, parts]
    simp
  have length : p.offset = (m.heading ++ '{' :: x).length := by
    rw [offset, Method.bodyStart, Method.openBrace_eq, List.length_append, List.length_cons]
    omega
  rw [Plan.apply, length, e, List.take_left, List.drop_left]
  simp

theorem plan_eq {r : Rules} {source : String} {preserved new : Text} {m : Method}
    (found : (locate r source new).outcome = .ok m) :
    (plan r source preserved new).outcome =
      .ok (if isBlankText preserved then none else some (planIn r m preserved)) := by
  simp only [plan, Attempt.outcome_bind, found, Except.bind]
  split
  · rfl
  · split
    · rfl
    · rfl

end CarryOver

/-! ## Merging -/

namespace Merge

open CarryOver

variable {r : Rules} {oldSource newSource : String} {old new preserved merged : Text}

/-- The check of a merged text is that its method is found. -/
theorem validate_eq (source : String) (merged : Text) :
    (validate r source merged).outcome = (locate r source merged).outcome.map fun _ => () := by
  simp only [validate, Attempt.outcome_bind]
  cases found : (locate r source merged).outcome with
  | error cause => rfl
  | ok m =>
      have balanced := isBalanced_of_locate found
      simp only [Except.bind, balanced, Bool.not_true, Bool.false_eq_true, if_false]
      rfl

theorem compose_eq (source : String) (preserved : Text) :
    (compose r source preserved new).outcome =
      match (locate r source new).outcome with
      | .error cause => .error ⟨.locateNew, cause⟩
      | .ok m =>
          let plan := if isBlankText preserved then none else some (planIn r m preserved)
          match (locate r source (apply plan new)).outcome with
          | .error cause => .error ⟨.validate, cause⟩
          | .ok _ => .ok (plan, apply plan new) := by
  simp only [compose, Attempt.outcome_bind, inStage]
  cases found : (locate r source new).outcome with
  | error cause => rfl
  | ok m =>
      simp only [Except.mapError, Except.bind, plan_eq found, validate_eq]
      cases (locate r source (CarryOver.apply
        (if isBlankText preserved then none else some (planIn r m preserved)) new)).outcome <;> rfl

theorem run_eq : (run r oldSource newSource old new).2 =
    match (extract r oldSource old).outcome with
    | .error cause => .aborted [] .extractOld cause (abortMessage r oldSource cause)
    | .ok preserved =>
        match (compose r newSource preserved new).outcome with
        | .error stop =>
            .aborted preserved stop.stage stop.cause (abortMessage r newSource stop.cause)
        | .ok (plan, merged) => .done preserved plan merged := by
  rw [run]
  cases (extract r oldSource old).outcome with
  | error cause => rfl
  | ok preserved =>
      simp only
      cases (compose r newSource preserved new).outcome <;> rfl

/-- A merge that ends well. -/
theorem run_eq_done {plan : Option Plan} :
    (run r oldSource newSource old new).2 = .done preserved plan merged ↔
      (extract r oldSource old).outcome = .ok preserved ∧
        ∃ m, (locate r newSource new).outcome = .ok m ∧
          plan = (if isBlankText preserved then none else some (planIn r m preserved)) ∧
          merged = apply plan new ∧ ∃ m', (locate r newSource merged).outcome = .ok m' := by
  constructor
  · intro done
    rw [run_eq] at done
    split at done
    · cases done
    · rename_i found extracted
      rw [compose_eq] at done
      cases located : (locate r newSource new).outcome with
      | error cause => simp [located] at done
      | ok m =>
          simp only [located] at done
          split at done
          · cases done
          · rename_i stop composed
            split at composed
            · cases composed
            · rename_i m' valid
              cases composed
              cases done
              exact ⟨extracted, m, rfl, rfl, rfl, m', valid⟩
  · rintro ⟨extracted, m, found, rfl, rfl, m', valid⟩
    simp only [run_eq, extracted, compose_eq, found, valid]

end Merge

end Regraft
