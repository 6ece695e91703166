import Regraft.Reader

/-!
# Regraft.Proofs.Reader -- what readers read, and the pieces of a text

For each reader one lemma says what is among its readings (`mem_optional`, `mem_lineEnd`,
`mem_star`, ..), so a grammar written with readers is opened by rewriting.  The second part is about
the walk `cuts`: it keeps a character or takes the first reading (`cuts_cases`), so where no reading
starts a text is kept as it is (`cuts_append_of_silent`), and a walk without readings tells that none
starts anywhere (`silent_of_cuts`).
-/

namespace Regraft.Reader

set_option autoImplicit false

variable {α β : Type}

/-! ## Readings -/

/-- A reader without value of interest has one value. -/
theorem exists_unit {p : Unit → Prop} : (∃ u, p u) ↔ p () :=
  ⟨fun ⟨⟨⟩, h⟩ => h, fun h => ⟨(), h⟩⟩

theorem mem_when {fits : Text → Bool} {t rest : Text} :
    ((), rest) ∈ when fits t ↔ fits t = true ∧ rest = t := by
  simp only [when]
  split <;> simp_all

theorem mem_one {kind : Char → Bool} {d : Char} {t rest : Text} :
    (d, rest) ∈ one kind t ↔ t = d :: rest ∧ kind d = true := by
  cases t with
  | nil => simp [one]
  | cons c t =>
      simp only [one]
      split
      · rename_i h
        simp only [List.mem_singleton, Prod.mk.injEq, List.cons.injEq]
        constructor
        · rintro ⟨rfl, rfl⟩
          exact ⟨⟨rfl, rfl⟩, h⟩
        · rintro ⟨⟨rfl, rfl⟩, -⟩
          exact ⟨rfl, rfl⟩
      · rename_i h
        simp only [List.not_mem_nil, false_iff, not_and, List.cons.injEq]
        rintro ⟨rfl, -⟩
        exact h

theorem mem_manyBack {kind : Char → Bool} {back t rest : Text} :
    (back, rest) ∈ manyBack kind t ↔ t = back.reverse ++ rest ∧ ∀ c ∈ back, kind c = true := by
  have e : (back, rest) ∈ manyBack kind t ↔ (back.reverse, rest) ∈ many kind t := by
    simp only [many, List.mem_map, Prod.mk.injEq, List.reverse_inj, Prod.exists]
    constructor
    · exact fun m => ⟨back, rest, m, rfl, rfl⟩
    · rintro ⟨b, r, m, rfl, rfl⟩
      exact m
  rw [e, mem_many]
  simp

theorem mem_orElse {r s : Reader α} {t : Text} {p : α × Text} :
    p ∈ orElse r s t ↔ p ∈ r t ∨ p ∈ s t := by
  simp [orElse]

theorem mem_map {r : Reader α} {f : α → β} {b : β} {t rest : Text} :
    (b, rest) ∈ (f <$> r) t ↔ ∃ a, (a, rest) ∈ r t ∧ f a = b := by
  have e : (f <$> r) = r >>= fun a => pure (f a) := rfl
  rw [e, mem_bind]
  constructor
  · rintro ⟨a, mid, m, e⟩
    obtain ⟨rfl, rfl⟩ := mem_pure.1 e
    exact ⟨a, m, rfl⟩
  · rintro ⟨a, m, rfl⟩
    exact ⟨a, rest, m, mem_pure.2 ⟨rfl, rfl⟩⟩

theorem mem_optional {r : Reader α} {v : Option α} {t rest : Text} :
    (v, rest) ∈ optional r t ↔ (∃ a, v = some a ∧ (a, rest) ∈ r t) ∨ (v = none ∧ rest = t) := by
  rw [optional, mem_orElse, mem_map, mem_pure]
  constructor
  · rintro (⟨a, m, rfl⟩ | h)
    · exact Or.inl ⟨a, rfl, m⟩
    · exact Or.inr h
  · rintro (⟨a, rfl, m⟩ | h)
    · exact Or.inl ⟨a, m, rfl⟩
    · exact Or.inr h

def IsLineEnd (e : Text) : Prop :=
  e = ['\r', '\n'] ∨ e = ['\n']

instance (e : Text) : Decidable (IsLineEnd e) :=
  inferInstanceAs (Decidable (_ ∨ _))

theorem isBlankText_of_isLineEnd {e : Text} (h : IsLineEnd e) : Text.isBlankText e = true := by
  rcases h with rfl | rfl <;> decide

theorem isLineEnd_head {e t : Text} (h : IsLineEnd e) :
    ∀ c, (e ++ t).head? = some c → Text.isIndent c = false := by
  rcases h with rfl | rfl <;> intro c same <;> obtain rfl := Option.some.inj same <;> decide

theorem isLineEnd_last {e : Text} (h : IsLineEnd e) (t : Text) :
    (t ++ e).getLast? = some '\n' := by
  rcases h with rfl | rfl <;> rw [List.getLast?_append] <;> rfl

/-- A text starts with at most one line end. -/
theorem isLineEnd_append_inj {e e' t t' : Text} (same : e ++ t = e' ++ t') (h : IsLineEnd e)
    (h' : IsLineEnd e') : e = e' ∧ t = t' := by
  rcases h with rfl | rfl <;> rcases h' with rfl | rfl <;> simp_all

theorem mem_lineEnd {e t rest : Text} :
    (e, rest) ∈ lineEnd t ↔ IsLineEnd e ∧ t = e ++ rest := by
  simp only [lineEnd, mem_orElse, mem_bind, exists_unit, mem_pure, mem_literal, IsLineEnd]
  constructor
  · rintro (⟨mid, rfl, rfl, rfl⟩ | ⟨mid, rfl, rfl, rfl⟩)
    · exact ⟨Or.inl rfl, rfl⟩
    · exact ⟨Or.inr rfl, rfl⟩
  · rintro ⟨rfl | rfl, rfl⟩
    · exact Or.inl ⟨rest, rfl, rfl, rfl⟩
    · exact Or.inr ⟨rest, rfl, rfl, rfl⟩

theorem mem_blanks {t rest : Text} :
    ((), rest) ∈ blanks t ↔ ∃ taken, t = taken ++ rest ∧ Text.isBlankText taken = true := by
  simp [blanks, mem_skip, Text.isBlankText]

theorem mem_indent {t rest : Text} :
    ((), rest) ∈ indent t ↔ ∃ taken, t = taken ++ rest ∧ ∀ c ∈ taken, Text.isIndent c = true := by
  rw [indent, mem_skip]

theorem mem_textEnd {t rest : Text} : ((), rest) ∈ textEnd t ↔ t = [] ∧ rest = t := by
  simp [textEnd, mem_when]

theorem star_eq (r : Reader α) (t : Text) :
    star r t = ((r t).flatMap fun p =>
      if p.2.length < t.length then (star r p.2).map fun q => (p.1 :: q.1, q.2) else []) ++
        [([], t)] := by
  rw [star]
  congr 1
  conv => rhs; rw [← List.attach_map_subtype_val (r t), List.flatMap_map]
  rfl

theorem star_ne_nil (r : Reader α) (t : Text) : star r t ≠ [] := by
  rw [star_eq]
  simp

/-- Where the first reading takes something, repeating goes on behind it. -/
theorem first?_star {r : Reader α} {t rest : Text} {a : α} (found : first? r t = some (a, rest))
    (shorter : rest.length < t.length) :
    first? (star r) t = (first? (star r) rest).map fun q => (a :: q.1, q.2) := by
  obtain ⟨p, more, e⟩ := List.exists_cons_of_ne_nil (star_ne_nil r rest)
  obtain ⟨others, e'⟩ : ∃ others, r t = (a, rest) :: others := List.head?_eq_some_iff.1 found
  show (star r t).head? = (star r rest).head?.map _
  rw [star_eq, e', List.flatMap_cons, if_pos shorter, e]
  rfl

theorem first?_star_of_nil {r : Reader α} {t : Text} (none_ : r t = []) :
    first? (star r) t = some ([], t) := by
  show (star r t).head? = _
  rw [star_eq, none_]
  rfl

theorem mem_ident {name t rest : Text} :
    (name, rest) ∈ ident t ↔
      ∃ c more, name = c :: more ∧ t = c :: more ++ rest ∧ Text.isIdentStart c = true ∧
        ∀ d ∈ more, Text.isWord d = true := by
  simp only [ident, mem_bind, mem_one, mem_many, mem_pure]
  constructor
  · rintro ⟨c, mid, ⟨rfl, start⟩, more, mid', ⟨rfl, words⟩, rfl, rfl⟩
    exact ⟨c, more, rfl, rfl, start, words⟩
  · rintro ⟨c, more, rfl, rfl, start, words⟩
    exact ⟨c, more ++ rest, ⟨rfl, start⟩, more, rest, ⟨rfl, words⟩, rfl, rfl⟩

theorem mem_star {r : Reader α} {values : List α} {t rest : Text} :
    (values, rest) ∈ star r t ↔
      (values = [] ∧ rest = t) ∨
        ∃ a mid more, (a, mid) ∈ r t ∧ mid.length < t.length ∧
          (more, rest) ∈ star r mid ∧ values = a :: more := by
  rw [star]
  simp only [List.mem_append, List.mem_flatMap, List.mem_singleton, Prod.mk.injEq, List.mem_attach,
    true_and, Subtype.exists, Prod.exists]
  constructor
  · rintro (⟨a, mid, found, m⟩ | h)
    · split at m
      · rename_i shorter
        obtain ⟨p, later, e⟩ := List.mem_map.1 m
        simp only [Prod.mk.injEq] at e
        obtain ⟨rfl, rfl⟩ := e
        exact Or.inr ⟨a, mid, p.1, found, shorter, later, rfl⟩
      · simp at m
    · exact Or.inl h
  · rintro (h | ⟨a, mid, more, found, shorter, later, rfl⟩)
    · exact Or.inr h
    · refine Or.inl ⟨a, mid, found, ?_⟩
      rw [dif_pos shorter]
      exact List.mem_map.2 ⟨(more, rest), later, rfl⟩

/-! ## Pieces -/

variable {r : Option Char → Reader α}

/-- What stays of a piece when readings are taken out. -/
def Piece.kept : Piece α → Text
  | .plain c => [c]
  | .hit _ _ => []

/-- What stays of a text, the character before it being given. -/
def leftFrom (r : Option Char → Reader α) (before : Option Char) (t : Text) : Text :=
  (cuts r before t).flatMap Piece.kept

theorem remove_eq_leftFrom (r : Option Char → Reader α) (t : Text) :
    remove r t = leftFrom r none t := by
  simp only [remove, replace, leftFrom]
  congr 1

/-- Each reading takes something. -/
def Consuming (r : Option Char → Reader α) : Prop :=
  ∀ before t p, p ∈ r before t → p.2.length < t.length

theorem cuts_nil (before : Option Char) : cuts r before [] = [] := by
  rw [cuts]

/-- A character at which no reading starts is kept. -/
theorem cuts_plain {before : Option Char} {c : Char} {t : Text} (none_ : r before (c :: t) = []) :
    cuts r before (c :: t) = .plain c :: cuts r (some c) t := by
  rw [cuts]
  rw [first?_eq_none.2 none_]

/-- A first reading is one piece, and the walk goes on behind it. -/
theorem cuts_hit {before : Option Char} {t rest : Text} {a : α}
    (found : first? (r before) t = some (a, rest)) (shorter : rest.length < t.length) :
    cuts r before t =
      .hit (Text.taken t rest) a :: cuts r (Text.taken t rest).getLast? rest := by
  cases t with
  | nil => simp at shorter
  | cons c t =>
      rw [cuts, found]
      simp only [shorter, dif_pos]

/-- A walk keeps the character before it or takes the first reading. -/
theorem cuts_cases (consuming : Consuming r) (before : Option Char) (c : Char) (t : Text) :
    (r before (c :: t) = [] ∧ cuts r before (c :: t) = .plain c :: cuts r (some c) t) ∨
      ∃ a rest, first? (r before) (c :: t) = some (a, rest) ∧ rest.length < (c :: t).length ∧
        cuts r before (c :: t) = .hit (Text.taken (c :: t) rest) a ::
          cuts r (Text.taken (c :: t) rest).getLast? rest := by
  cases found : first? (r before) (c :: t) with
  | none =>
      have none_ := first?_eq_none.1 found
      exact Or.inl ⟨none_, cuts_plain none_⟩
  | some p =>
      obtain ⟨a, rest⟩ := p
      have shorter := consuming _ _ _ (mem_of_first? found)
      exact Or.inr ⟨a, rest, rfl, shorter, cuts_hit found shorter⟩

/-- Where all readings leave the same rest, what they take goes. -/
theorem leftFrom_of_reading {before : Option Char} {t rest : Text} (some_ : r before t ≠ [])
    (same : ∀ p ∈ r before t, p.2 = rest) (shorter : rest.length < t.length) :
    leftFrom r before t = leftFrom r (Text.taken t rest).getLast? rest := by
  cases readings : r before t with
  | nil => exact absurd readings some_
  | cons p others =>
      obtain ⟨a, left⟩ := p
      obtain rfl : left = rest := same _ (readings ▸ List.mem_cons_self)
      rw [leftFrom, cuts_hit (first?_of_cons readings) shorter]
      rfl

/-- No reading starts in a text that goes on with `more`. -/
def SilentBefore (r : Option Char → Reader α) (before : Option Char) (t more : Text) : Prop :=
  ∀ front c back, t = front ++ c :: back → r (front.getLast?.or before) (c :: back ++ more) = []

theorem getLast?_or_cons (c : Char) (t : Text) (before : Option Char) :
    (c :: t).getLast?.or before = t.getLast?.or (some c) := by
  cases t with
  | nil => rfl
  | cons d t => simp [List.getLast?_cons]

theorem SilentBefore.tail {before : Option Char} {c : Char} {t more : Text}
    (silent : SilentBefore r before (c :: t) more) : SilentBefore r (some c) t more := by
  intro front d back e
  have := silent (c :: front) d back (by rw [e]; rfl)
  rwa [getLast?_or_cons] at this

theorem SilentBefore.cons {before : Option Char} {c : Char} {t more : Text}
    (here : r before (c :: t ++ more) = []) (silent : SilentBefore r (some c) t more) :
    SilentBefore r before (c :: t) more := by
  intro front d back e
  cases front with
  | nil =>
      obtain ⟨rfl, rfl⟩ := List.cons.inj e
      exact here
  | cons first front =>
      obtain ⟨rfl, tails⟩ := List.cons.inj e
      rw [getLast?_or_cons]
      exact silent front d back tails

theorem cuts_append_of_silent {before : Option Char} {t more : Text}
    (silent : SilentBefore r before t more) :
    cuts r before (t ++ more) = t.map .plain ++ cuts r (t.getLast?.or before) more := by
  induction t generalizing before with
  | nil => rfl
  | cons c t ih =>
      have here : r before (c :: (t ++ more)) = [] := silent [] c t rfl
      rw [List.cons_append, cuts_plain here, ih silent.tail, getLast?_or_cons]
      rfl

theorem leftFrom_append_of_silent {before : Option Char} {t more : Text}
    (silent : SilentBefore r before t more) :
    leftFrom r before (t ++ more) = t ++ leftFrom r (t.getLast?.or before) more := by
  rw [leftFrom, cuts_append_of_silent silent, List.flatMap_append]
  congr 1
  induction t with
  | nil => rfl
  | cons c t ih => simp [Piece.kept, List.flatMap_map]

/-- A walk that finds nothing tells that no reading starts anywhere. -/
theorem silent_of_cuts (consuming : Consuming r) {before : Option Char} {t : Text}
    (plain : ∀ p ∈ cuts r before t, ∃ c, p = .plain c) : SilentBefore r before t [] := by
  induction t generalizing before with
  | nil =>
      intro front c back e
      simp at e
  | cons c t ih =>
      rcases cuts_cases consuming before c t with ⟨here, e⟩ | ⟨a, rest, -, -, e⟩
      · rw [e] at plain
        refine .cons ?_ (ih fun p m => plain p (List.mem_cons_of_mem _ m))
        rwa [List.append_nil]
      · rw [e] at plain
        obtain ⟨d, impossible⟩ := plain _ List.mem_cons_self
        cases impossible

theorem occurrencesFrom_eq_nil {offset : Nat} {pieces : List (Piece α)} :
    occurrencesFrom offset pieces = [] ↔ ∀ p ∈ pieces, ∃ c, p = .plain c := by
  induction pieces generalizing offset with
  | nil => simp [occurrencesFrom]
  | cons p more ih => cases p <;> simp [occurrencesFrom, ih]

/-- The first reading among pieces stands behind characters at which none starts. -/
theorem occurrencesFrom_eq_cons {offset : Nat} {pieces : List (Piece α)} {first : Occurrence α}
    {others : List (Occurrence α)} (h : occurrencesFrom offset pieces = first :: others) :
    ∃ (front taken : Text) (more : List (Piece α)),
      pieces = front.map .plain ++ .hit taken first.value :: more ∧
        first.start = offset + front.length ∧ first.stop = first.start + taken.length := by
  induction pieces generalizing offset with
  | nil => simp [occurrencesFrom] at h
  | cons p pieces ih =>
      cases p with
      | plain c =>
          obtain ⟨front, taken, more, rfl, start, stop⟩ := ih h
          refine ⟨c :: front, taken, more, rfl, ?_, stop⟩
          rw [start, List.length_cons]
          omega
      | hit taken a =>
          obtain ⟨rfl, -⟩ := List.cons.inj h
          exact ⟨[], taken, pieces, rfl, rfl, rfl⟩

theorem occurrencesFrom_of_eq {offset : Nat} {first : Occurrence α} {front taken : Text}
    {more : List (Piece α)} (start : first.start = offset + front.length)
    (stop : first.stop = first.start + taken.length) :
    ∃ others, occurrencesFrom offset (front.map .plain ++ .hit taken first.value :: more) =
      first :: others := by
  induction front generalizing offset with
  | nil =>
      refine ⟨occurrencesFrom (offset + taken.length) more, ?_⟩
      rw [List.length_nil, Nat.add_zero] at start
      rw [List.map_nil, List.nil_append, occurrencesFrom, ← start, ← stop]
  | cons c front ih =>
      rw [List.length_cons] at start
      exact ih (by omega)

/-- Where nothing is found, nothing is taken out. -/
theorem remove_of_occurrences (ends : ∀ before, Suffixed (r before)) {t : Text}
    (none_ : occurrences r t = []) : remove r t = t := by
  have plain := occurrencesFrom_eq_nil.1 none_
  rw [remove_eq_leftFrom, leftFrom]
  conv => rhs; rw [← cuts_text ends none t]
  rw [List.flatMap_def, List.flatMap_def]
  congr 1
  refine List.map_congr_left fun p m => ?_
  obtain ⟨c, rfl⟩ := plain p m
  rfl

theorem silent_of_occurrences (consuming : Consuming r) {t : Text}
    (none_ : occurrences r t = []) : SilentBefore r none t [] :=
  silent_of_cuts consuming (occurrencesFrom_eq_nil.1 none_)

theorem occurrences_of_silent {t : Text} (silent : SilentBefore r none t []) :
    occurrences r t = [] := by
  have pieces := cuts_append_of_silent silent
  rw [List.append_nil, cuts_nil, List.append_nil] at pieces
  rw [occurrences, occurrencesFrom_eq_nil, pieces]
  intro p m
  obtain ⟨c, -, rfl⟩ := List.mem_map.1 m
  exact ⟨c, rfl⟩

theorem leftFrom_of_silent {before : Option Char} {t : Text}
    (silent : SilentBefore r before t []) : leftFrom r before t = t := by
  have e := leftFrom_append_of_silent silent
  have nothing : leftFrom r (t.getLast?.or before) [] = [] := by rw [leftFrom, cuts_nil]; rfl
  rwa [List.append_nil, nothing, List.append_nil] at e

end Regraft.Reader
