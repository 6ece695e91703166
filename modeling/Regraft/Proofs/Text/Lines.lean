import Regraft.Proofs.Text.Layout

/-!
# Regraft.Proofs.Text.Lines -- lines that start with a lead

`leadsLine` says whether a line of a text starts, behind spaces and tabs, with a lead.  A line feed
parts the question (`leadsLine_feed`): a lead without line feed lies in one line.  `Leads` says the
same by places, for any lead, and a text that does not cut the lead in two parts it (`not_leads_append`).
-/

namespace Regraft.Text

set_option autoImplicit false

/-- Whether a text starts, behind spaces and tabs, with a lead. -/
def opensWith (lead t : Text) : Bool :=
  lead.isPrefixOf (t.dropWhile isIndent)

/-- Whether a line of a text, other than its first, starts with a lead. -/
def laterLeads (lead : Text) : Text → Bool
  | [] => false
  | c :: t => (c == '\n' && opensWith lead t) || laterLeads lead t

/-- Whether a line of a text starts, behind spaces and tabs, with a lead. -/
def leadsLine (lead t : Text) : Bool :=
  opensWith lead t || laterLeads lead t

/-- Whether some line of a text starts, behind spaces and tabs, with a lead. -/
def Leads (lead t : Text) : Prop :=
  ∃ above ind rest, AtLineStart above ∧ (∀ c ∈ ind, isIndent c = true) ∧
    t = above ++ ind ++ lead ++ rest

/-- A lead lies in one line and does not start with indentation. -/
structure IsLead (lead : Text) : Prop where
  ne_nil : lead ≠ []
  head : ∀ c, lead.head? = some c → isIndent c = false
  noFeed : '\n' ∉ lead

/-- A mark lies in one line and is more than spaces and tabs. -/
structure IsMark (mark : Text) : Prop where
  noFeed : '\n' ∉ mark
  other : ∃ c ∈ mark, isIndent c = false

variable {lead mark : Text}

theorem opensWith_iff (isLead : IsLead lead) {t : Text} :
    opensWith lead t = true ↔ ∃ ind rest, (∀ c ∈ ind, isIndent c = true) ∧ t = ind ++ lead ++ rest := by
  rw [opensWith, List.isPrefixOf_iff_prefix]
  constructor
  · rintro ⟨rest, e⟩
    refine ⟨t.takeWhile isIndent, rest, fun c m => List.mem_takeWhile_imp m, ?_⟩
    rw [List.append_assoc, e, List.takeWhile_append_dropWhile]
  · rintro ⟨ind, rest, hi, rfl⟩
    refine ⟨rest, ?_⟩
    rw [List.append_assoc, List.dropWhile_append_of_pos hi]
    cases e : lead with
    | nil => exact absurd e isLead.ne_nil
    | cons c lead' =>
        rw [List.cons_append, List.dropWhile_cons_of_neg (by simp [isLead.head c (by rw [e]; rfl)])]

theorem opensWith_append (isLead : IsLead lead) {s : Text} (h : opensWith lead s = true)
    (t : Text) : opensWith lead (s ++ t) = true := by
  obtain ⟨ind, rest, hi, rfl⟩ := (opensWith_iff isLead).1 h
  exact (opensWith_iff isLead).2 ⟨ind, rest ++ t, hi, by simp⟩

/-- A lead stands before the end of its line. -/
theorem opensWith_feed (isLead : IsLead lead) (s t : Text) :
    opensWith lead (s ++ '\n' :: t) = opensWith lead s := by
  rw [Bool.eq_iff_iff]
  constructor
  · intro h
    obtain ⟨ind, rest, hi, e⟩ := (opensWith_iff isLead).1 h
    have absent := noFeed_indent_lead isLead.noFeed hi
    have parts : s ++ '\n' :: t = [] ++ (ind ++ lead) ++ rest := by simpa using e
    rcases append_separated parts absent with
      ⟨back, rfl⟩ | ⟨front, none_, -⟩
    · exact (opensWith_iff isLead).2 ⟨ind, back, hi, by simp⟩
    · simp at none_
  · exact fun h => opensWith_append isLead h _

theorem opensWith_indent {ind : Text} (hi : ∀ c ∈ ind, isIndent c = true) (t : Text) :
    opensWith lead (ind ++ t) = opensWith lead t := by
  rw [opensWith, opensWith, List.dropWhile_append_of_pos hi]

theorem laterLeads_feed (isLead : IsLead lead) (s t : Text) :
    laterLeads lead (s ++ '\n' :: t) = (laterLeads lead s || leadsLine lead t) := by
  induction s with
  | nil => simp [laterLeads, leadsLine]
  | cons c s ih =>
      rw [List.cons_append, laterLeads, laterLeads, opensWith_feed isLead, ih, Bool.or_assoc]

/-- A line feed parts the lines before it from those behind it. -/
theorem leadsLine_feed (isLead : IsLead lead) (s t : Text) :
    leadsLine lead (s ++ '\n' :: t) = (leadsLine lead s || leadsLine lead t) := by
  have h := laterLeads_feed isLead s t
  rw [leadsLine, opensWith_feed isLead, h, ← Bool.or_assoc]
  rfl

theorem leadsLine_nil (isLead : IsLead lead) : leadsLine lead [] = false := by
  cases e : lead with
  | nil => exact absurd e isLead.ne_nil
  | cons c lead' => rfl

theorem laterLeads_append (isLead : IsLead lead) {s : Text} (h : laterLeads lead s = true)
    (t : Text) : laterLeads lead (s ++ t) = true := by
  induction s with
  | nil => simp [laterLeads] at h
  | cons c s ih =>
      rw [laterLeads, Bool.or_eq_true, Bool.and_eq_true] at h
      rw [List.cons_append, laterLeads, Bool.or_eq_true, Bool.and_eq_true]
      exact h.imp (fun k => ⟨k.1, opensWith_append isLead k.2 t⟩) ih

/-- The start of a text without such lines has none. -/
theorem leadsLine_left (isLead : IsLead lead) {s t : Text} (h : leadsLine lead (s ++ t) = false) :
    leadsLine lead s = false := by
  rw [← Bool.not_eq_true] at h ⊢
  intro leads
  refine h ?_
  rw [leadsLine, Bool.or_eq_true] at leads ⊢
  exact leads.imp (fun k => opensWith_append isLead k t) fun k => laterLeads_append isLead k t

theorem laterLeads_right {s t : Text} (h : laterLeads lead (s ++ t) = false) :
    laterLeads lead t = false := by
  induction s with
  | nil => exact h
  | cons c s ih =>
      rw [List.cons_append, laterLeads, Bool.or_eq_false_iff] at h
      exact ih h.2

/-- The lines behind the start of a line are lines of the text. -/
theorem leadsLine_right (isLead : IsLead lead) {s t : Text} (start : AtLineStart s)
    (h : leadsLine lead (s ++ t) = false) : leadsLine lead t = false := by
  rcases start with rfl | feed
  · exact h
  · obtain ⟨s', rfl⟩ := List.getLast?_eq_some_iff.1 feed
    rw [List.append_assoc, List.singleton_append, leadsLine_feed isLead, Bool.or_eq_false_iff] at h
    exact h.2

theorem leadsLine_append (isLead : IsLead lead) {s t : Text} (start : AtLineStart s)
    (hs : leadsLine lead s = false) (ht : leadsLine lead t = false) :
    leadsLine lead (s ++ t) = false := by
  rcases start with rfl | feed
  · exact ht
  · obtain ⟨s', rfl⟩ := List.getLast?_eq_some_iff.1 feed
    rw [leadsLine_feed isLead, leadsLine_nil isLead, Bool.or_false] at hs
    rw [List.append_assoc, List.singleton_append, leadsLine_feed isLead, hs, ht]
    rfl

theorem laterLeads_indent {ind : Text} (hi : ∀ c ∈ ind, isIndent c = true) (t : Text) :
    laterLeads lead (ind ++ t) = laterLeads lead t := by
  induction ind with
  | nil => rfl
  | cons c ind ih =>
      have other : c ≠ '\n' := by
        rintro rfl
        exact absurd (hi _ List.mem_cons_self) (by decide)
      rw [List.cons_append, laterLeads, ih fun d m => hi d (List.mem_cons_of_mem _ m)]
      simp [other]

theorem leadsLine_indent {ind : Text} (hi : ∀ c ∈ ind, isIndent c = true) (t : Text) :
    leadsLine lead (ind ++ t) = leadsLine lead t := by
  rw [leadsLine, leadsLine, opensWith_indent hi, laterLeads_indent hi]

/-! ## Where a lead stands -/

theorem not_leads_of_infix {lead t : Text} (absent : ¬ lead <:+: t) : ¬ Leads lead t := by
  rintro ⟨above, ind, rest, -, -, rfl⟩
  exact absent ⟨above ++ ind, rest, rfl⟩

theorem leads_of_laterLeads (isLead : IsLead lead) {t : Text} (h : laterLeads lead t = true) :
    ∃ above ind rest, above.getLast? = some '\n' ∧ (∀ c ∈ ind, isIndent c = true) ∧
      t = above ++ ind ++ lead ++ rest := by
  induction t with
  | nil => cases h
  | cons c t ih =>
      rw [laterLeads, Bool.or_eq_true, Bool.and_eq_true, beq_iff_eq] at h
      rcases h with ⟨rfl, opens⟩ | later
      · obtain ⟨ind, rest, hi, rfl⟩ := (opensWith_iff isLead).1 opens
        exact ⟨['\n'], ind, rest, rfl, hi, by simp⟩
      · obtain ⟨above, ind, rest, last, hi, rfl⟩ := ih later
        exact ⟨c :: above, ind, rest, by rw [List.getLast?_cons, last]; rfl, hi, rfl⟩

theorem leads_of_leadsLine (isLead : IsLead lead) {t : Text} (h : leadsLine lead t = true) :
    Leads lead t := by
  rcases Bool.or_eq_true _ _ ▸ h with opens | later
  · obtain ⟨ind, rest, hi, rfl⟩ := (opensWith_iff isLead).1 opens
    exact ⟨[], ind, rest, Or.inl rfl, hi, rfl⟩
  · obtain ⟨above, ind, rest, last, hi, rfl⟩ := leads_of_laterLeads isLead later
    exact ⟨above, ind, rest, Or.inr last, hi, rfl⟩

/-- Behind a text that does not cut the lead in two the lines are read as by themselves. -/
theorem not_leads_append {s t : Text} (some_ : lead ≠ []) (unsplit : Unsplit (· = lead) s)
    (hs : ¬ Leads lead s) (ht : ¬ Leads lead t) : ¬ Leads lead (s ++ t) := by
  rintro ⟨above, ind, rest, start, hi, e⟩
  rcases unsplit.sides rfl some_ e with ⟨back, here⟩ | ⟨front, parts, later⟩
  · exact hs ⟨above, ind, back, start, hi, here⟩
  · rcases List.append_eq_append_iff.1 parts with ⟨x, rfl, rfl⟩ | ⟨x, rfl, rfl⟩
    · exact ht ⟨[], front, rest, Or.inl rfl, fun c m => hi c (List.mem_append_right _ m), later⟩
    · exact ht ⟨x, ind, rest, start.right, hi, later⟩

/-- The start of a line parts the places of a lead. -/
theorem infix_atLineStart (isLead : IsLead lead) {s : Text} (start : AtLineStart s) (t : Text) :
    lead <:+: s ++ t ↔ lead <:+: s ∨ lead <:+: t := by
  have notNil : ¬ lead <:+: [] := fun h => isLead.ne_nil (List.infix_nil.1 h)
  rcases start with rfl | feed
  · simp [notNil]
  · obtain ⟨s', rfl⟩ := List.getLast?_eq_some_iff.1 feed
    rw [List.append_assoc, List.singleton_append, infix_separated isLead.noFeed,
      infix_separated isLead.noFeed]
    simp [notNil]

/-- A lead does not start in indentation. -/
theorem infix_indent (isLead : IsLead lead) {ind : Text} (hi : ∀ c ∈ ind, isIndent c = true)
    (t : Text) : lead <:+: ind ++ t ↔ lead <:+: t := by
  constructor
  · rintro ⟨front, back, e⟩
    have e' : ind ++ t = front ++ (lead ++ back) := by rw [← e, List.append_assoc]
    rcases List.append_eq_append_iff.1 e' with ⟨more, -, tails⟩ | ⟨more, first, tails⟩
    · exact ⟨more, back, by rw [tails, List.append_assoc]⟩
    · cases more with
      | nil => exact ⟨[], back, by simpa using tails⟩
      | cons c more =>
          -- the lead would start with a character of the indentation
          exfalso
          cases e : lead with
          | nil => exact isLead.ne_nil e
          | cons d lead' =>
              rw [e] at tails
              obtain ⟨rfl, -⟩ := List.cons.inj tails
              have := isLead.head d (by rw [e]; rfl)
              rw [hi d (by rw [first]; simp)] at this
              cases this
  · exact fun h => h.trans List.infix_append_right

/-- A lead that ends in ink does not end in white space. -/
theorem infix_append_blank {t tail : Text} {c : Char} (last : lead.getLast? = some c)
    (inked : isBlank c = false) (blank : isBlankText tail = true) :
    lead <:+: t ++ tail ↔ lead <:+: t := by
  constructor
  · rintro ⟨front, back, e⟩
    obtain ⟨lead', rfl⟩ := List.getLast?_eq_some_iff.1 last
    have absent : c ∉ tail := not_mem_of_isBlankText blank inked
    have e' : t ++ tail = (front ++ lead') ++ (c :: back) := by rw [← e]; simp
    rcases List.append_eq_append_iff.1 e' with ⟨more, -, tails⟩ | ⟨more, first, tails⟩
    · have m : c ∈ tail := by
        rw [tails]
        simp
      exact absurd m absent
    · cases more with
      | nil =>
          have m : c ∈ tail := by
            rw [List.nil_append] at tails
            rw [← tails]
            simp
          exact absurd m absent
      | cons d more =>
          obtain ⟨rfl, -⟩ := List.cons.inj tails
          exact ⟨front, more, by rw [first]; simp⟩
  · exact fun h => h.trans List.infix_append_left

theorem IsMark.ne_nil (isMark : IsMark mark) : mark ≠ [] := by
  rintro rfl
  obtain ⟨c, m, -⟩ := isMark.other
  cases m

theorem IsLead.isMark (isLead : IsLead lead) : IsMark lead := by
  refine ⟨isLead.noFeed, ?_⟩
  cases e : lead with
  | nil => exact absurd e isLead.ne_nil
  | cons c more => exact ⟨c, List.mem_cons_self, isLead.head c (by rw [e]; rfl)⟩

/-- A mark is its indentation and something that is none. -/
theorem IsMark.exists_indent (isMark : IsMark mark) :
    ∃ ind c rest, (∀ d ∈ ind, isIndent d = true) ∧ isIndent c = false ∧ mark = ind ++ c :: rest := by
  have parts := List.takeWhile_append_dropWhile (p := isIndent) (l := mark)
  cases behind : mark.dropWhile isIndent with
  | nil =>
      obtain ⟨c, m, other⟩ := isMark.other
      rw [List.dropWhile_eq_nil_iff.1 behind c m] at other
      cases other
  | cons c rest =>
      refine ⟨mark.takeWhile isIndent, c, rest, fun d m => List.mem_takeWhile_imp m, ?_, ?_⟩
      · have head := List.head?_dropWhile_not isIndent mark
        rw [behind] at head
        simpa using head
      · rw [← behind, parts]

/-- A mark does not start earlier than behind the indentation it stands behind. -/
theorem IsMark.length_le (isMark : IsMark mark) {ind t front back : Text}
    (hi : ∀ c ∈ ind, isIndent c = true) (e : ind ++ mark ++ t = front ++ mark ++ back) :
    ind.length ≤ front.length := by
  refine Nat.le_of_not_lt fun short => ?_
  obtain ⟨w, c, rest, hw, other, rfl⟩ := isMark.exists_indent
  obtain ⟨more, rfl, -⟩ : ∃ more, ind = front ++ more ∧
      w ++ c :: rest ++ back = more ++ (w ++ c :: rest ++ t) := by
    refine append_of_length_le ?_ (Nat.le_of_lt short)
    rw [← List.append_assoc, ← e, List.append_assoc]
  have same : (front ++ more ++ w) ++ c :: (rest ++ t) = (front ++ w) ++ c :: (rest ++ back) := by
    simpa using e
  have all {x : Text} (hx : ∀ d ∈ x, isIndent d = true) : ∀ d ∈ x ++ w, isIndent d = true :=
    List.forall_mem_append.2 ⟨hx, hw⟩
  have stops (x : Text) : ∀ d, (c :: x).head? = some d → isIndent d = false := by
    rintro d ⟨⟩
    exact other
  obtain ⟨lengths, -⟩ := append_inj_of_kind same (all hi)
    (all fun d m => hi d (List.mem_append_left _ m)) (stops _) (stops _)
  have := congrArg List.length lengths
  simp only [List.length_append] at this short
  omega

/-- The first place of a mark is behind the indentation of its line where no line above has it. -/
theorem IsMark.cutAt?_line (isMark : IsMark mark) {above ind : Text} (start : AtLineStart above)
    (absent : ¬ mark <:+: above) (hi : ∀ c ∈ ind, isIndent c = true) (t : Text) :
    cutAt? mark (above ++ ind ++ mark ++ t) = some (above ++ ind, t) := by
  refine cutAt?_eq_some.2 ⟨rfl, fun front back e => ?_⟩
  rcases start with rfl | feed
  · exact isMark.length_le hi e
  · obtain ⟨lines, rfl⟩ := List.getLast?_eq_some_iff.1 feed
    have parts : lines ++ '\n' :: (ind ++ mark ++ t) = front ++ mark ++ back := by
      rw [← e]
      simp
    rcases append_separated parts isMark.noFeed with ⟨back', rfl⟩ | ⟨front', rfl, here⟩
    · exact absurd ⟨front, back' ++ ['\n'], by simp⟩ absent
    · have := isMark.length_le hi here
      simp only [List.length_append, List.length_cons, List.length_nil]
      omega

end Regraft.Text
