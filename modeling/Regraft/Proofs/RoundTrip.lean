import Regraft.Proofs.Boundary
import Regraft.Proofs.Scaffold

/-!
# Regraft.Proofs.RoundTrip -- carry-over goes in and comes out

Clean carry-over that is inserted into a clean scaffold is what extraction finds there, character for
character, at each of the three places where it may go (`extract_insert`).  A chain of merges through
clean scaffolds therefore hands it on unchanged (`Merge.chain_clean`).  A scaffold with a receiver in
front of its call's line is not enough: that word is taken for the code's (`receiver_stays`).
-/

namespace Regraft

set_option autoImplicit false

namespace CarryOver

open Text Reader Rules Entity

variable {r : Rules}

/-- The first forwarding call of a body, without its indentation. -/
theorem call_of_firstCall? {param body found : Text} {start : Nat} (names : r.CallNames param)
    (first : r.firstCall? param body = some (start, found)) :
    ∃ front ind call back, body = front ++ ind ++ (call ++ back) ∧ (∀ c ∈ ind, isIndent c = true) ∧
      r.IsCall param call ∧ (front ++ ind).length = start + (indentation found).length := by
  obtain ⟨front, back, more, parts, begins, pieces⟩ := firstCall?_eq_some first
  have hit : Piece.hit found () ∈ cuts (r.forwardingCall param) none body := by
    rw [pieces]
    simp
  obtain ⟨-, before, rest, read, -⟩ := mem_cuts_hit (r.forwardingCall_suffixed param) hit
  obtain ⟨ind, this, bare, tail, hi, hthis, hbare, -, -, e⟩ := mem_forwardingCall.1 read
  have reads : r.IsCall param (this ++ bare) := ⟨this, bare, hthis, hbare, rfl⟩
  obtain ⟨c, word, starts, isWord_⟩ := reads.starts names
  have e' : found = ind ++ (this ++ bare ++ tail) := by
    refine (List.append_left_inj rest).1 ?_
    rw [e]
    simp
  have indent : indentation found = ind := by
    have stops : ¬ isIndent c = true :=
      Bool.eq_false_iff.1 (isIndent_of_inked (isBlank_of_isWord isWord_))
    rw [e', starts, indentation, List.takeWhile_append_of_pos hi, List.cons_append,
      List.takeWhile_cons_of_neg stops, List.append_nil]
  refine ⟨front, ind, this ++ bare, tail ++ back, ?_, hi, reads, ?_⟩
  · rw [parts, e']
    simp
  · rw [List.length_append, begins, indent]

/-- Clean carry-over with its banner, put into a seam on lines of its own, is what extraction finds. -/
theorem Seam.ofMethod_spliced {m : Method} {above below lead indent z rest gap preserved : Text}
    {init tail : List Segment} {u : Text} {n : Nat} (ord : r.markers.Ordinary)
    (names : r.CallNames m.param) (seam : Seam r m.param above below init u tail n)
    (clean : PlainCarryOver r m.param preserved) (stays : tidy n preserved = preserved)
    (blankLead : isBlankText lead = true)
    (plainLead : plainBlanks lead = true) (start : AtLineStart (above ++ lead))
    (feed : AtLineStart above ∨ '\n' ∈ lead) (hi : ∀ c ∈ indent, isIndent c = true)
    (openBefore : ¬ r.markers.opening <:+: above)
    (openBehind : ¬ r.markers.opening <:+: r.markers.footer ++ z)
    (leadBefore : leadsLine r.markers.lead (above ++ lead) = false)
    (leadBehind : leadsLine r.markers.lead rest = false)
    (ends : MarkerPair.BehindLine z rest)
    (parts : '\n' :: rest = gap ++ below) (blankGap : isBlankText gap = true) (someGap : gap ≠ []) :
    ofMethod r { m with body := above ++ lead ++ banner r indent preserved ++ z } =
      .ok preserved := by
  have openLead : ¬ r.markers.opening <:+: above ++ lead := by
    obtain ⟨front, c, e⟩ := (List.eq_nil_or_concat r.markers.opening).resolve_left
      r.markers.opening_ne_nil
    have last : r.markers.opening.getLast? = some c := by simp [e]
    rwa [infix_append_blank last (ord.opening_last c last) blankLead]
  have stripped := MarkerPair.strip_banner ord start hi openLead clean.noOpening openBehind leadBefore
    clean.noLead leadBehind ends
  have blankIndent := isBlankText_of_all_isIndent hi
  have blankStart : isBlankText (lead ++ indent) = true := by
    rw [isBlankText_append, blankLead, blankIndent]
    rfl
  obtain ⟨bare, done, left⟩ := seam.leftover names (inked_anchor names.param) clean stays blankStart
    (plainBlanks_append plainLead (plainBlanks_of_all_isIndent hi))
    (feed.imp_right (List.mem_append_left _)) blankGap someGap
  have text : above ++ lead ++ indent ++ '\n' :: (preserved ++ '\n' :: rest) =
      above ++ (lead ++ indent ++ ['\n']) ++ (preserved ++ gap ++ below) := by
    rw [parts]
    simp
  have bannerText : above ++ lead ++ banner r indent preserved ++ z =
      above ++ lead ++ (r.markers.notice indent ++ preserved ++ '\n' :: indent ++
        r.markers.footer) ++ z := rfl
  simp only [ofMethod]
  rw [bannerText, stripped, text, done]
  exact congrArg Except.ok left

/-- No call starts a line with the lead. -/
theorem opensWith_call {param call : Text} (names : r.CallNames param) (reads : r.IsCall param call)
    (mark : ∀ c, r.markers.lead.head? = some c → isWord c = false) (ord : r.markers.Ordinary)
    (t : Text) : opensWith r.markers.lead (call ++ t) = false := by
  obtain ⟨c, more, rfl, word⟩ := reads.starts names
  rw [← Bool.not_eq_true, opensWith_iff ord.lead]
  rintro ⟨ind, rest, hi, same⟩
  cases ind with
  | cons d ind =>
      obtain ⟨rfl, -⟩ := List.cons.inj same
      have inked := isIndent_of_inked (isBlank_of_isWord word)
      rw [hi c List.mem_cons_self] at inked
      cases inked
  | nil =>
      cases e : r.markers.lead with
      | nil => exact ord.lead.ne_nil e
      | cons d lead =>
          rw [e] at same
          obtain ⟨rfl, -⟩ := List.cons.inj same
          rw [mark c (by rw [e]; rfl)] at word
          cases word

namespace CleanScaffold

variable {new preserved : Text} {m : Method}

theorem not_opening (h : CleanScaffold r new m) {s : Text} (piece : s <:+: m.body) :
    ¬ r.markers.opening <:+: s :=
  fun inside => h.noOpening (inside.trans piece)

theorem leadsLine_break {lead t : Text} (isLead : IsLead lead) (none_ : leadsLine lead t = false) :
    leadsLine lead ('\n' :: t) = false := by
  have feed := leadsLine_feed isLead [] t
  rwa [leadsLine_nil isLead, none_] at feed

/-- Before the first forwarding call, on the line above it or on a line broken there. -/
theorem ofMethod_at_call (h : CleanScaffold r new m) (ord : r.markers.Ordinary)
    (names : r.CallNames m.param) (mark : ∀ c, r.markers.lead.head? = some c → isWord c = false)
    (clean : PlainCarryOver r m.param preserved)
    (stays : tidy (statementCount (segments (anchor m.param) m.body)) preserved = preserved)
    {above line call back found lead gap : Text} {start : Nat}
    (first : r.firstCall? m.param m.body = some (start, found))
    (length : (above ++ line).length = start + (indentation found).length)
    (parts : m.body = above ++ line ++ (call ++ back)) (reads : r.IsCall m.param call)
    (hi : ∀ c ∈ gap ++ line, isIndent c = true)
    (place : lead = [] ∧ AtLineStart above ∨ lead = ['\n'] ∧ line = []) :
    ofMethod r { m with body := above ++ lead ++ banner r (gap ++ line) preserved ++
      '\n' :: '\n' :: (gap ++ line ++ (call ++ back)) } = .ok preserved := by
  have noLead := h.noLead
  have plain := h.plain
  rw [parts, List.append_assoc] at noLead plain
  have plainAbove : plainBlanks above = true := by
    rcases place with ⟨-, above_⟩ | ⟨-, rfl⟩
    · exact plainBlanks_of_atLineStart plain above_
    · obtain ⟨c, more, rfl, inked⟩ := reads.starts_inked names
      exact plainBlanks_of_inked plain inked
  obtain ⟨init, u, tail, seam⟩ := h.seam_call ord names first length parts
    (fun c member => hi c (List.mem_append_right _ member)) reads
    (place.imp And.right And.right) plainAbove
  have leadBehind : leadsLine r.markers.lead ('\n' :: (gap ++ line ++ (call ++ back))) = false := by
    refine leadsLine_break ord.lead ?_
    rw [leadsLine_indent hi, leadsLine, opensWith_call names reads mark ord, Bool.false_or]
    rw [leadsLine, Bool.or_eq_false_iff] at noLead
    exact laterLeads_right (laterLeads_right noLead.2)
  have leadBefore : leadsLine r.markers.lead (above ++ lead) = false := by
    have left := leadsLine_left ord.lead noLead
    rcases place with ⟨rfl, -⟩ | ⟨rfl, -⟩
    · rwa [List.append_nil]
    · rw [leadsLine_feed ord.lead, left, leadsLine_nil ord.lead]
      rfl
  have openBehind : ¬ r.markers.opening <:+:
      r.markers.footer ++ '\n' :: ([] ++ '\n' :: (gap ++ line ++ (call ++ back))) := by
    rw [infix_separated ord.opening.noFeed, infix_separated ord.opening.noFeed,
      infix_indent ord.opening hi]
    have piece : call ++ back <:+: m.body := ⟨above ++ line, [], by rw [parts]; simp⟩
    simp [ord.footer, h.not_opening piece, r.markers.opening_ne_nil]
  have blankGap : isBlankText ('\n' :: '\n' :: gap) = true := by
    have white := isBlankText_of_all_isIndent fun c member => hi c (List.mem_append_left _ member)
    simp only [isBlankText_cons, white, Bool.and_true]
    decide
  refine seam.ofMethod_spliced ord names clean stays ?_ ?_ ?_ ?_ hi
    (h.not_opening ⟨[], line ++ (call ++ back), by rw [parts]; simp⟩) openBehind leadBefore
    leadBehind ⟨[], _, by simp, rfl, Or.inl ⟨['\n'], Or.inr rfl, rfl⟩⟩ (by simp) blankGap (by simp)
  all_goals rcases place with ⟨rfl, above_⟩ | ⟨rfl, -⟩
  · rfl
  · decide
  · rfl
  · decide
  · rwa [List.append_nil]
  · exact Or.inr (by simp)
  · exact Or.inl above_
  · exact Or.inr (by simp)

/-- Behind everything else in the body. -/
theorem ofMethod_at_end (h : CleanScaffold r new m) (ord : r.markers.Ordinary)
    (names : r.CallNames m.param) (clean : PlainCarryOver r m.param preserved)
    (stays : tidy (statementCount (segments (anchor m.param) m.body)) preserved = preserved)
    {front tail gap indent : Text} (parts : m.body = front ++ tail) (trimmed : front = trimEnd m.body)
    (blank : isBlankText tail = true) (gap_ : gap = ['\n'] ∨ gap = ['\n', '\n'])
    (hi : ∀ c ∈ indent, isIndent c = true) :
    ofMethod r { m with body := front ++ gap ++ banner r indent preserved ++ tail } =
      .ok preserved := by
  have noLead := h.noLead
  have plain := h.plain
  rw [parts] at noLead plain
  have plainFront : plainBlanks front = true := by
    refine plainBlanks_left plain fun last => ?_
    rw [trimmed] at last
    exact absurd (trimEnd_last last) (by decide)
  obtain ⟨rest, behind⟩ := MarkerPair.exists_behindLine (.of_plainBlanks (plainBlanks_right plain))
  have blankRest : isBlankText rest = true :=
    isBlankText_iff.2 fun c m => isBlankText_iff.1 blank c (behind.suffix.subset m)
  obtain ⟨init, u, seam⟩ := h.seam_end ord names parts blank blankRest plainFront
  have leadBehind : leadsLine r.markers.lead rest = false := by
    obtain ⟨b, z, -, rfl, ⟨e, he, rfl⟩ | ⟨-, rfl⟩⟩ := behind
    · refine leadsLine_right (s := front ++ b ++ e) ord.lead (Or.inr ?_) ?_
      · rcases he with rfl | rfl <;> simp
      · rw [← noLead]
        simp
    · exact leadsLine_nil ord.lead
  have leadBefore : leadsLine r.markers.lead (front ++ gap) = false := by
    have left := leadsLine_left ord.lead noLead
    rcases gap_ with rfl | rfl
    · rw [leadsLine_feed ord.lead, left, leadsLine_nil ord.lead]
      rfl
    · rw [leadsLine_feed ord.lead, left, leadsLine_break ord.lead (leadsLine_nil ord.lead)]
      rfl
  have openBehind : ¬ r.markers.opening <:+: r.markers.footer ++ tail := by
    obtain ⟨last, e⟩ := Option.isSome_iff_exists.1
      (List.getLast?_isSome.2 r.markers.opening_ne_nil)
    rw [infix_append_blank e (ord.opening_last last e) blank]
    exact ord.footer
  have gap_feed : gap.getLast? = some '\n' ∧ isBlankText gap = true ∧ plainBlanks gap = true := by
    rcases gap_ with rfl | rfl <;> decide
  have feed : isBlankText ['\n'] = true := by decide
  exact seam.ofMethod_spliced ord names clean stays gap_feed.2.1 gap_feed.2.2
    (Or.inr (by rw [List.getLast?_append, gap_feed.1]; rfl))
    (Or.inr (List.mem_of_getLast? gap_feed.1)) hi
    (h.not_opening ⟨[], tail, by rw [parts]; simp⟩) openBehind leadBefore leadBehind behind rfl
    feed (by simp)

end CleanScaffold

/-- At each place that a plan may choose, what is put into a clean scaffold is what extraction finds. -/
theorem Place.ofMethod_eq {new preserved : Text} {m : Method} {p : Plan} (place : Place r m preserved p)
    (ord : r.markers.Ordinary) (names : r.CallNames m.param)
    (mark : ∀ c, r.markers.lead.head? = some c → isWord c = false) (h : CleanScaffold r new m)
    (clean : PlainCarryOver r m.param preserved)
    (stays : tidy (statementCount (segments (anchor m.param) m.body)) preserved = preserved) :
    ∃ x y, m.body = x ++ y ∧ p.offset = m.bodyStart + x.length ∧
      ofMethod r { m with body := x ++ p.insertion ++ y } = .ok preserved := by
  cases place with
  | @ownLine start found whole line rest first parts length blank inLine above =>
      obtain ⟨front, ind, call, back, parts', -, reads, length'⟩ := call_of_firstCall? names first
      obtain ⟨-, rfl⟩ := List.append_inj (parts.symm.trans parts') (length.trans length'.symm)
      have hi : ∀ c ∈ line, isIndent c = true := by
        have plain := h.plain
        rw [parts, List.append_assoc] at plain
        obtain ⟨c, more, rfl, word⟩ := reads.starts names
        refine all_isIndent_of_plain (plainBlanks_right plain) blank inLine ?_
        rintro rfl
        revert word
        decide
      refine ⟨whole, line ++ (call ++ back), by rw [parts, List.append_assoc], rfl, ?_⟩
      have place : ([] : Text) = [] ∧ AtLineStart whole ∨ ([] : Text) = ['\n'] ∧ line = [] :=
        Or.inl ⟨rfl, above⟩
      have kept := h.ofMethod_at_call ord names mark clean stays first length parts reads
        (show ∀ c ∈ [] ++ line, isIndent c = true from hi) place
      rw [← kept]
      simp
  | @inLine start found front rest indent first parts length hi =>
      obtain ⟨front', ind, call, back, parts', -, reads, length'⟩ := call_of_firstCall? names first
      obtain ⟨-, rfl⟩ := List.append_inj (parts.symm.trans parts') (length.trans length'.symm)
      refine ⟨front, call ++ back, parts, rfl, ?_⟩
      have place : ['\n'] = [] ∧ AtLineStart front ∨ ['\n'] = ['\n'] ∧ ([] : Text) = [] :=
        Or.inr ⟨rfl, rfl⟩
      have whole : m.body = front ++ [] ++ (call ++ back) := by rw [List.append_nil, parts]
      have hi' : ∀ c ∈ indent ++ [], isIndent c = true := by rwa [List.append_nil]
      have kept := h.ofMethod_at_call ord names mark clean stays first (by rw [List.append_nil, length])
        whole reads hi' place
      rw [← kept]
      simp
  | @atEnd front tail gap indent none_ parts trimmed blank gap_ hi =>
      refine ⟨front, tail, parts, rfl, ?_⟩
      rw [← h.ofMethod_at_end ord names clean stays parts trimmed blank gap_ hi]
      simp

theorem lead_standard : ∀ c, Rules.standard.markers.lead.head? = some c → isWord c = false := by
  have first : Rules.standard.markers.lead.head? = some '/' := rfl
  intro c same
  rw [first, Option.some.injEq] at same
  subst same
  decide

theorem PlainCarryOver.not_blank {param preserved : Text}
    (clean : PlainCarryOver r param preserved) : ¬ isBlankText preserved = true := by
  obtain ⟨c, last, inked⟩ := clean.last_inked
  exact fun blank => not_mem_of_isBlankText blank inked (List.mem_of_getLast? last)

/-- Carry-over without an anchor is plain if the other conditions hold. -/
theorem PlainCarryOver.of_no_anchor {param preserved : Text} (words : ∀ c ∈ param, isWord c = true)
    (noAnchor : cutAnchor? (anchor param) preserved = none)
    (balanced : Brace.isBalanced preserved = true)
    (last : preserved.getLast? = some ';' ∨ preserved.getLast? = some '}')
    (noBlankLine : blankLine preserved = []) (noOpening : ¬ r.markers.opening <:+: preserved)
    (noLead : leadsLine r.markers.lead preserved = false)
    (noCall : r.firstCall? param preserved = none) : PlainCarryOver r param preserved := by
  have alone : segments (anchor param) preserved = [.rest preserved] :=
    (Scan.rest noAnchor).segments_eq (inked_anchor words)
  refine ⟨balanced, last, noBlankLine, noOpening, noLead, noCall, ?_, ?_⟩
  · rw [blocks, alone]
    rfl
  · rw [alone]
    simp

/-- The method of a clean scaffold with plain carry-over in it: what is inserted is all that extraction
finds in it, unless it has runs of line ends and statements go. -/
theorem CleanScaffold.locate_planned {new preserved : Text} {m : Method}
    (h : CleanScaffold .standard new m) (clean : PlainCarryOver .standard m.param preserved)
    (stays : tidy (statementCount (segments (anchor m.param) m.body)) preserved = preserved) :
    ∃ m', (locate .standard "" ((planIn .standard m preserved).apply new)).outcome = .ok m' ∧
      ofMethod .standard m' = .ok preserved := by
  have place := place_planIn .standard m preserved
  obtain ⟨x, y, before, indent, after, parts, offset, insertion, hbefore, hindent, hafter⟩ :=
    place.insertion
  obtain ⟨x', y', parts', offset', kept⟩ := place.ofMethod_eq MarkerPair.ordinary_standard
    (callNames_standard (param_of_locate h.located)) lead_standard h clean stays
  obtain ⟨rfl, rfl⟩ := List.append_inj (parts.symm.trans parts') (by omega)
  have balanced : Brace.isBalanced (x ++ (planIn .standard m preserved).insertion ++ y) = true := by
    rw [insertion, Merge.isBalanced_banner hbefore hindent hafter, Brace.isBalanced_insert
      clean.balanced, ← parts]
    exact isBalanced_of_locate h.located
  have spliced := Merge.locate_apply h.located parts offset
  rw [Brace.closeBlock_eq_ok.2 ⟨rfl, Brace.isBalanced_iff.1 balanced⟩] at spliced
  exact ⟨_, locate_eq_ok.2 spliced, kept⟩

/-- Clean carry-over put into a clean scaffold comes out again. -/
theorem CleanScaffold.extract_insert {new preserved : Text} {m : Method}
    (h : CleanScaffold .standard new m) (clean : CleanCarryOver .standard m.param preserved) :
    ∃ merged, (CarryOver.insert .standard "" preserved new).outcome = .ok merged ∧
      (extract .standard "" merged).outcome = .ok preserved := by
  obtain ⟨m', found, kept⟩ := h.locate_planned clean.toPlainCarryOver
    (tidy_of_occurrences clean.noLineEnds _)
  refine ⟨(planIn .standard m preserved).apply new, ?_, ?_⟩
  · simp [CarryOver.insert, Attempt.outcome_bind, plan_eq h.located, clean.not_blank, Except.bind,
      CarryOver.apply]
  · rw [extract_eq found, kept]

end CarryOver

namespace Merge

open CarryOver

/-- One merge takes clean carry-over on. -/
theorem run_clean {old new preserved : Text} {m : Method} (h : CleanScaffold .standard new m)
    (clean : CleanCarryOver .standard m.param preserved)
    (carried : (extract .standard "" old).outcome = .ok preserved) :
    ∃ p merged, (run .standard "" "" old new).2 = .done preserved (some p) merged ∧
      (extract .standard "" merged).outcome = .ok preserved := by
  obtain ⟨m', found, kept⟩ := h.locate_planned clean.toPlainCarryOver
    (Entity.tidy_of_occurrences clean.noLineEnds _)
  refine ⟨planIn .standard m preserved, _, run_eq_done.2 ⟨carried, m, h.located, ?_, rfl, m', found⟩,
    ?_⟩
  · rw [if_neg clean.not_blank]
  · rw [CarryOver.apply, extract_eq found, kept]

/-- Clean carry-over comes out of every clean scaffold it is put into, and each merge of a chain through
clean scaffolds takes it on, so it is what the last text carries. -/
theorem chain_clean {param preserved : Text} (clean : CleanCarryOver .standard param preserved) :
    (∀ new m, CleanScaffold .standard new m → m.param = param →
      ∃ merged, (CarryOver.insert .standard "" preserved new).outcome = .ok merged ∧
        (extract .standard "" merged).outcome = .ok preserved) ∧
    ∀ start news, (extract .standard "" start).outcome = .ok preserved →
      (∀ new ∈ news, ∃ m, CleanScaffold .standard new m ∧ m.param = param) →
      (∀ result ∈ (chain .standard start news).2.1,
        ∃ p merged, result = .done preserved (some p) merged) ∧
      (extract .standard "" (chain .standard start news).2.2).outcome = .ok preserved := by
  refine ⟨fun new m h same => h.extract_insert (same ▸ clean), fun start news carried scaffolds => ?_⟩
  induction news generalizing start with
  | nil => exact ⟨by simp [chain], carried⟩
  | cons new more ih =>
      obtain ⟨⟨m, h, rfl⟩, others⟩ := List.forall_mem_cons.1 scaffolds
      obtain ⟨p, merged, done, carried'⟩ := run_clean h clean carried
      obtain ⟨results, final⟩ := ih merged carried' others
      have next : (run .standard "" "" start new).2.merged?.getD start = merged := by
        rw [done]
        rfl
      have step : (chain .standard start (new :: more)).2 =
          ((run .standard "" "" start new).2 :: (chain .standard merged more).2.1,
            (chain .standard merged more).2.2) := by
        simp only [chain, next]
      rw [step, done]
      exact ⟨List.forall_mem_cons.2 ⟨⟨p, merged, rfl⟩, results⟩, final⟩

def seedCarryOver : Text :=
  "    Seed(b);".toList

theorem cleanCarryOver_seed : CleanCarryOver .standard ['b'] seedCarryOver := by
  obtain ⟨noOpening, noCall, noLineEnds⟩ :
      ¬ Rules.standard.markers.opening <:+: seedCarryOver ∧
        Rules.standard.firstCall? ['b'] seedCarryOver = none ∧
        (Reader.occurrences (fun _ => Entity.lineEnds) seedCarryOver).isEmpty := by
    decide +kernel
  exact ⟨.of_no_anchor (List.all_eq_true.1 (by decide)) (by decide) (by decide) (by decide)
    (by decide) noOpening
    (by decide) noCall, List.isEmpty_iff.1 noLineEnds⟩

/-- A generated context with an entity statement and no forwarding call. -/
def blogScaffold : Text :=
  ("protected override void OnModelCreating(ModelBuilder b)\n\x7b\n" ++
    "    b.Entity<Blog>(e => \x7b \x7d);\n\x7d\n").toList

def blogScaffoldMethod : Method :=
  { callMethod with body := "\n    b.Entity<Blog>(e => \x7b \x7d);\n".toList }

theorem cleanScaffold_blog : CleanScaffold .standard blogScaffold blogScaffoldMethod := by
  obtain ⟨none_, located, noOpening, empty⟩ :
      Rules.standard.firstCall? blogScaffoldMethod.param blogScaffoldMethod.body = none ∧
        (locate .standard "" blogScaffold).outcome = .ok blogScaffoldMethod ∧
        ¬ Rules.standard.markers.opening <:+: blogScaffoldMethod.body ∧
        (extract .standard "" blogScaffold).outcome = .ok [] := by
    decide +kernel
  refine ⟨⟨located, by decide, noOpening, by decide, empty, ?_⟩, ?_⟩
  all_goals
    intro start call bs first
    rw [none_] at first
    cases first

theorem cleanScaffold_call : CleanScaffold .standard callScaffold callMethod := by
  obtain ⟨first, noBlocks, located, noOpening, empty⟩ :
      Rules.standard.firstCall? callMethod.param callMethod.body =
          some (1, "    OnModelCreatingPartial(b);\n".toList) ∧
        Entity.blocks (Entity.anchor callMethod.param) callMethod.body = .ok [] ∧
        (locate .standard "" callScaffold).outcome = .ok callMethod ∧
        ¬ Rules.standard.markers.opening <:+: callMethod.body ∧
        (extract .standard "" callScaffold).outcome = .ok [] := by
    decide +kernel
  refine ⟨⟨located, by decide, noOpening, by decide, empty, ?_⟩, ?_⟩
  · intro start call bs _ done
    rw [noBlocks, Except.ok.injEq] at done
    subst done
    rfl
  · intro start call bs some_ done
    rw [noBlocks, Except.ok.injEq] at done
    rw [first, Option.some.injEq, Prod.mk.injEq] at some_
    obtain ⟨rfl, rfl⟩ := some_
    subst done
    decide +kernel

theorem chain_clean_seed :
    (∃ merged, (CarryOver.insert .standard "" seedCarryOver callScaffold).outcome = .ok merged ∧
      (extract .standard "" merged).outcome = .ok seedCarryOver) ∧
    (∀ result ∈ (chain .standard seedContext [callScaffold, blogScaffold]).2.1,
      ∃ p merged, result = .done seedCarryOver (some p) merged) ∧
    (extract .standard "" (chain .standard seedContext [callScaffold, blogScaffold]).2.2).outcome =
      .ok seedCarryOver := by
  obtain ⟨once, again⟩ := chain_clean cleanCarryOver_seed
  refine ⟨once _ _ cleanScaffold_call rfl, again _ _ (by decide +kernel) ?_⟩
  exact List.forall_mem_cons.2 ⟨⟨_, cleanScaffold_call, rfl⟩,
    List.forall_mem_cons.2 ⟨⟨_, cleanScaffold_blog, rfl⟩, by simp⟩⟩

/-- A generated context in which a receiver stands in front of an entity statement: with the statement
gone, it is the receiver of the call below. -/
def receiverScaffold : Text :=
  ("protected override void OnModelCreating(ModelBuilder b)\n\x7b\n" ++
    "    this.b.Entity<Blog>(e => \x7b \x7d);\n    OnModelCreatingPartial(b);\n\x7d\n").toList

def receiverMethod : Method :=
  { callMethod with
    body := "\n    this.b.Entity<Blog>(e => \x7b \x7d);\n    OnModelCreatingPartial(b);\n".toList }

/-- What is inserted before the call parts it from a receiver that was taken for its own, and that
receiver is then carried over. -/
theorem receiver_stays :
    EmptyScaffold .standard receiverScaffold receiverMethod ∧
      CleanCarryOver .standard receiverMethod.param "foo();".toList ∧
      ∃ merged left,
        (CarryOver.insert .standard "" "foo();".toList receiverScaffold).outcome = .ok merged ∧
        (extract .standard "" merged).outcome = .ok left ∧ left ≠ "foo();".toList := by
  refine ⟨?_, ?_, (planIn .standard receiverMethod "foo();".toList).apply receiverScaffold,
    "    this.\n    \nfoo();".toList, by decide +kernel⟩
  · obtain ⟨first, one, located, noOpening, empty⟩ :
        Rules.standard.firstCall? receiverMethod.param receiverMethod.body =
            some (36, "    OnModelCreatingPartial(b);\n".toList) ∧
          Entity.blocks (Entity.anchor receiverMethod.param) receiverMethod.body =
            .ok [⟨10, 19, 30, 32, 35⟩] ∧
          (locate .standard "" receiverScaffold).outcome = .ok receiverMethod ∧
          ¬ Rules.standard.markers.opening <:+: receiverMethod.body ∧
          (extract .standard "" receiverScaffold).outcome = .ok [] := by
      decide +kernel
    refine ⟨located, by decide, noOpening, by decide, empty, ?_⟩
    intro start call bs some_ done
    rw [one, Except.ok.injEq] at done
    rw [first, Option.some.injEq, Prod.mk.injEq] at some_
    obtain ⟨rfl, rfl⟩ := some_
    subst done
    decide +kernel
  · obtain ⟨noOpening, noCall, noLineEnds⟩ :
        ¬ Rules.standard.markers.opening <:+: "foo();".toList ∧
          Rules.standard.firstCall? receiverMethod.param "foo();".toList = none ∧
          (Reader.occurrences (fun _ => Entity.lineEnds) "foo();".toList).isEmpty := by
      decide +kernel
    exact ⟨.of_no_anchor (List.all_eq_true.1 (by decide)) (by decide) (by decide) (by decide)
      (by decide) noOpening
      (by decide) noCall, List.isEmpty_iff.1 noLineEnds⟩

end Merge

end Regraft
