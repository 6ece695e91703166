import Mathlib.Data.List.Infix
import Mathlib.Data.Set.Card
import Regraft.Proofs.Extraction
import Regraft.Proofs.Method

/-!
# Regraft.Proofs.Declaration -- the grammar of declarations

`Declares` has the grammar of a declaration in words: fixed words, white space, the name of the method,
a dotted qualifier (`Qualified`), the builder type and the parameter.  What the reader reads is that
grammar (`mem_declaration`).  Where the two configured names are identifiers, a text starts with at most
one declaration (`Declares.append_inj`), since every part of one ends where a class of characters ends,
and none starts in the middle of another (`Declares.length_le`): its first three words stand one behind
the other, and no part of a declaration but the first is followed by the second and the third
(`Clear`).  So the walk over a text meets every place at which a declaration stands
(`mem_occurrences_iff`), and locating is settled by the declarations of a text, their order and their
number, and the braces behind the first (`locate_grammar`).
-/

namespace Regraft

set_option autoImplicit false

open Text Reader

/-! ## Readings that keep apart -/

namespace Reader

variable {α : Type}

def Determined (r : Reader α) : Prop :=
  ∀ t p q, p ∈ r t → q ∈ r t → p = q

/-- Nothing is read in the middle of what is read. -/
def Apart (r : Reader α) : Prop :=
  ∀ front back p q, front ≠ [] → p ∈ r (front ++ back) → q ∈ r back → back.length ≤ p.2.length

/-- A reading stands somewhere in a text that starts at an offset. -/
def StandsIn (r : Reader α) (offset : Nat) (t : Text) (found : Occurrence α) : Prop :=
  ∃ front taken rest, t = front ++ (taken ++ rest) ∧ (found.value, rest) ∈ r (taken ++ rest) ∧
    found.start = offset + front.length ∧ found.stop = found.start + taken.length

variable {r : Reader α} {offset : Nat} {t : Text} {found : Occurrence α}

theorem not_standsIn_nil (consuming : Consuming fun _ => r) : ¬ StandsIn r offset [] found := by
  rintro ⟨front, taken, rest, e, read, -⟩
  have := consuming none _ _ read
  have := congrArg List.length e
  simp only [List.length_nil, List.length_append] at *
  omega

/-- Further on in a text a reading stands where it does in the rest of the text. -/
theorem StandsIn.append_left (front : Text) (h : StandsIn r (offset + front.length) t found) :
    StandsIn r offset (front ++ t) found := by
  obtain ⟨more, taken, rest, rfl, read, start, stop⟩ := h
  refine ⟨front ++ more, taken, rest, by simp, read, ?_, stop⟩
  rw [start, List.length_append]
  omega

/-- Where nothing is read at the start of a text, readings stand behind its first character. -/
theorem standsIn_cons {c : Char} (none_ : r (c :: t) = []) :
    StandsIn r offset (c :: t) found ↔ StandsIn r (offset + 1) t found := by
  refine ⟨?_, fun h => h.append_left [c]⟩
  rintro ⟨front, taken, rest, e, read, start, stop⟩
  cases front with
  | nil =>
      rw [List.nil_append] at e
      rw [← e, none_] at read
      cases read
  | cons d front =>
      obtain ⟨rfl, rfl⟩ := List.cons.inj e
      exact ⟨front, taken, rest, rfl, read, by rw [start, List.length_cons]; omega, stop⟩

/-- A reading at the start of a text is the only one there, and the others stand behind it. -/
theorem standsIn_append (determined : Determined r) (apart : Apart r) {hit left : Text} {a : α}
    (first : (a, left) ∈ r (hit ++ left)) :
    StandsIn r offset (hit ++ left) found ↔
      found = ⟨offset, offset + hit.length, a⟩ ∨ StandsIn r (offset + hit.length) left found := by
  constructor
  · rintro ⟨front, taken, rest, e, read, start, stop⟩
    by_cases atStart : front = []
    · subst atStart
      rw [List.nil_append] at e
      rw [← e] at read
      obtain ⟨value, rfl⟩ := Prod.mk.inj (determined _ _ _ read first)
      obtain rfl := List.append_cancel_right e
      refine Or.inl ?_
      rw [List.length_nil, Nat.add_zero] at start
      obtain ⟨i, j, b⟩ := found
      simp only at start stop value
      rw [stop, start, value]
    · have long : (taken ++ rest).length ≤ left.length :=
        apart front (taken ++ rest) (a, left) _ atStart (e ▸ first) read
      rcases List.append_eq_append_iff.1 e with ⟨more, rfl, tail⟩ | ⟨more, rfl, tail⟩
      · refine Or.inr ⟨more, taken, rest, tail, read, ?_, stop⟩
        rw [start, List.length_append]
        omega
      · obtain rfl : more = [] := by
          rw [tail, List.length_append] at long
          exact List.eq_nil_of_length_eq_zero (by omega)
        rw [List.append_nil]
        exact Or.inr ⟨[], taken, rest, by simpa using tail.symm, read, by simp [start], stop⟩
  · rintro (rfl | later)
    · exact ⟨[], hit, left, rfl, first, rfl, rfl⟩
    · exact later.append_left hit

/-- A walk meets every reading where readings are determined and keep apart. -/
theorem mem_occurrencesFrom_cuts (ends : Suffixed r) (consuming : Consuming fun _ => r)
    (determined : Determined r) (apart : Apart r) {before : Option Char} :
    found ∈ occurrencesFrom offset (cuts (fun _ => r) before t) ↔ StandsIn r offset t found := by
  induction length : t.length using Nat.strongRecOn generalizing before offset t with
  | ind n ih =>
      cases t with
      | nil =>
          rw [cuts_nil]
          exact iff_of_false List.not_mem_nil (not_standsIn_nil consuming)
      | cons c t =>
          rcases cuts_cases consuming before c t with ⟨here, e⟩ | ⟨a, left, found, shorter, e⟩
          · rw [e, occurrencesFrom, standsIn_cons here, ih t.length (by simp at length; omega) rfl]
          · have first : (a, left) ∈ r (c :: t) := mem_of_first? found
            obtain ⟨hit, whole⟩ := ends _ _ first
            simp only at whole
            rw [e, ← whole, taken_append, occurrencesFrom, List.mem_cons,
              ih left.length (by omega) rfl, standsIn_append determined apart (whole ▸ first)]

/-- The readings of a walk stand one behind the other. -/
theorem pairwise_occurrencesFrom {r : Option Char → Reader α} (ends : ∀ before, Suffixed (r before))
    (before : Option Char) (offset : Nat) (t : Text) :
    (occurrencesFrom offset (cuts r before t)).Pairwise (fun x y => x.start < y.start) ∧
      ∀ x ∈ occurrencesFrom offset (cuts r before t), offset ≤ x.start := by
  fun_induction cuts r before t generalizing offset with
  | case1 => exact ⟨List.Pairwise.nil, by simp [occurrencesFrom]⟩
  | case2 before c t _ ih =>
      obtain ⟨order, low⟩ := ih (offset + 1)
      refine ⟨order, fun x m => ?_⟩
      have := low x m
      omega
  | case3 before c t a rest found shorter front ih =>
      obtain ⟨order, low⟩ := ih (offset + front.length)
      have long : 0 < front.length := by
        obtain ⟨hit, e⟩ := ends before (c :: t) (a, rest) (mem_of_first? found)
        have same : front = hit := by
          rw [show front = taken (c :: t) rest from rfl, ← e, taken_append]
        have := congrArg List.length e
        simp only [List.length_append] at this
        rw [same]
        omega
      refine ⟨List.Pairwise.cons (fun x m => ?_) order, fun x m => ?_⟩
      · have := low x m
        show offset < x.start
        omega
      · rcases List.mem_cons.1 m with rfl | m
        · exact Nat.le_refl offset
        · have := low x m
          omega
  | case4 before c t _ _ _ _ ih =>
      obtain ⟨order, low⟩ := ih (offset + 1)
      refine ⟨order, fun x m => ?_⟩
      have := low x m
      omega

end Reader

namespace Signature

/-! ## The grammar -/

def IsGap (t : Text) : Prop :=
  t ≠ [] ∧ isBlankText t = true

/-- A dotted qualifier: identifiers with a dot behind each, and white space around the dots. -/
inductive Qualified : Text → Prop where
  | nil : Qualified []
  | cons {name left right more : Text} : IsIdent name → isBlankText left = true →
      isBlankText right = true → Qualified more →
      Qualified (name ++ (left ++ '.' :: (right ++ more)))

/-- A declaration of the method, and its parameter. -/
inductive Declares (s : Signature) : Text → Text → Prop where
  | intro {a b c d e f g qualifier param : Text} : IsGap a → IsGap b → IsGap c →
      isBlankText d = true → isBlankText e = true → Qualified qualifier → IsGap f → IsIdent param →
      isBlankText g = true →
      Declares s ("protected".toList ++ (a ++ ("override".toList ++ (b ++ ("void".toList ++
        (c ++ (s.method ++ (d ++ '(' :: (e ++ (qualifier ++ (s.builder ++ (f ++
          (param ++ (g ++ [')'])))))))))))))) param

theorem mem_blanks1 {t rest : Text} :
    ((), rest) ∈ blanks1 t ↔ ∃ gap, t = gap ++ rest ∧ IsGap gap := by
  simp only [blanks1, mem_bind, mem_one, mem_blanks]
  constructor
  · rintro ⟨c, mid, ⟨rfl, blank⟩, more, rfl, blanks⟩
    exact ⟨c :: more, rfl, by simp, by rw [isBlankText_cons, blank, blanks]; rfl⟩
  · rintro ⟨gap, rfl, some_, blank⟩
    obtain ⟨c, more, rfl⟩ := List.exists_cons_of_ne_nil some_
    rw [isBlankText_cons, Bool.and_eq_true] at blank
    exact ⟨c, more ++ rest, ⟨rfl, blank.1⟩, more, rfl, blank.2⟩

theorem mem_identifier {name t rest : Text} :
    (name, rest) ∈ ident t ↔ t = name ++ rest ∧ IsIdent name := by
  rw [mem_ident]
  constructor
  · rintro ⟨c, more, rfl, rfl, start, words⟩
    exact ⟨rfl, c, more, rfl, start, words⟩
  · rintro ⟨rfl, c, more, rfl, start, words⟩
    exact ⟨c, more, rfl, rfl, start, words⟩

theorem mem_qualifier {t rest : Text} :
    ((), rest) ∈ qualifier t ↔ ∃ name left right, IsIdent name ∧ isBlankText left = true ∧
      isBlankText right = true ∧ t = name ++ (left ++ '.' :: (right ++ rest)) := by
  simp only [qualifier, mem_bind, exists_unit, mem_identifier, mem_blanks, mem_literal]
  constructor
  · rintro ⟨name, _, ⟨rfl, ident⟩, _, ⟨left, rfl, hl⟩, _, rfl, right, rfl, hr⟩
    exact ⟨name, left, right, ident, hl, hr, by simp⟩
  · rintro ⟨name, left, right, ident, hl, hr, rfl⟩
    exact ⟨name, _, ⟨rfl, ident⟩, _, ⟨left, rfl, hl⟩, right ++ rest, rfl, right, rfl, hr⟩

theorem mem_star_qualifier {t rest : Text} :
    (∃ values, (values, rest) ∈ star qualifier t) ↔ ∃ q, t = q ++ rest ∧ Qualified q := by
  constructor
  · rintro ⟨values, m⟩
    induction values generalizing t with
    | nil =>
        rcases mem_star.1 m with ⟨-, rfl⟩ | ⟨_, _, _, -, -, -, e⟩
        · exact ⟨[], rfl, .nil⟩
        · cases e
    | cons v values ih =>
        rcases mem_star.1 m with ⟨e, -⟩ | ⟨_, mid, more, found, -, later, e⟩
        · cases e
        · obtain ⟨-, rfl⟩ := List.cons.inj e
          obtain ⟨name, left, right, ident, hl, hr, rfl⟩ := mem_qualifier.1 found
          obtain ⟨q, rfl, qualified⟩ := ih later
          exact ⟨_, by simp, .cons ident hl hr qualified⟩
  · rintro ⟨q, rfl, qualified⟩
    induction qualified with
    | nil => exact ⟨[], mem_star.2 (Or.inl ⟨rfl, rfl⟩)⟩
    | @cons name left right more ident hl hr qualified ih =>
        obtain ⟨values, later⟩ := ih
        refine ⟨() :: values, mem_star.2 (Or.inr ⟨(), more ++ rest, values, ?_, ?_, later, rfl⟩)⟩
        · exact mem_qualifier.2 ⟨name, left, right, ident, hl, hr, by simp⟩
        · simp only [List.length_append, List.length_cons]
          omega

/-- A declaration is read exactly where the grammar has one. -/
theorem mem_declaration {s : Signature} {param t rest : Text} :
    (param, rest) ∈ s.declaration t ↔ ∃ d, t = d ++ rest ∧ s.Declares d param := by
  simp only [declaration, mem_bind, mem_bind (r := star qualifier), exists_unit, mem_literal,
    mem_blanks1, mem_blanks, mem_identifier, mem_pure]
  constructor
  · rintro ⟨_, rfl, _, ⟨a, rfl, ha⟩, _, rfl, _, ⟨b, rfl, hb⟩, _, rfl, _, ⟨c, rfl, hc⟩, _, rfl, _,
      ⟨d, rfl, hd⟩, _, rfl, _, ⟨e, rfl, he⟩, v, _, found, _, rfl, _, ⟨f, rfl, hf⟩, p, _,
      ⟨rfl, ident⟩, _, ⟨g, rfl, hg⟩, _, rfl, rfl, rfl⟩
    obtain ⟨q, rfl, qualified⟩ := mem_star_qualifier.1 ⟨v, found⟩
    exact ⟨_, by simp, .intro ha hb hc hd he qualified hf ident hg⟩
  · rintro ⟨_, rfl, h⟩
    cases h with
    | @intro a b c d e f g q _ ha hb hc hd he qualified hf ident hg =>
        obtain ⟨v, found⟩ := mem_star_qualifier.2
          ⟨q, show q ++ (s.builder ++ (f ++ (param ++ (g ++ ')' :: rest)))) = _ from rfl, qualified⟩
        simp only [List.append_assoc, List.cons_append, List.nil_append]
        exact ⟨_, rfl, _, ⟨a, rfl, ha⟩, _, rfl, _, ⟨b, rfl, hb⟩, _, rfl, _, ⟨c, rfl, hc⟩, _, rfl, _,
          ⟨d, rfl, hd⟩, _, rfl, _, ⟨e, rfl, he⟩, v, _, found, _, rfl, _, ⟨f, rfl, hf⟩, param, _,
          ⟨rfl, ident⟩, _, ⟨g, rfl, hg⟩, _, rfl, rfl, rfl⟩

/-! ## Where the parts of a declaration end -/

def StartsInked (t : Text) : Prop :=
  ∀ c, t.head? = some c → isBlank c = false

/-- A text that does not go on with the word in front of it. -/
def EndsWord (t : Text) : Prop :=
  ∀ c, t.head? = some c → isWord c = false

theorem startsInked_cons {c : Char} (inked : isBlank c = false) (t : Text) : StartsInked (c :: t) := by
  rintro d ⟨⟩
  exact inked

theorem IsIdent.startsInked {w : Text} (h : IsIdent w) (t : Text) : StartsInked (w ++ t) := by
  obtain ⟨c, more, rfl, start, -⟩ := h
  exact startsInked_cons (isBlank_of_isWord (isWord_of_isIdentStart start)) _

theorem endsWord_append {blank t : Text} (h : isBlankText blank = true) (behind : EndsWord t) :
    EndsWord (blank ++ t) := by
  cases blank with
  | nil => exact behind
  | cons c blank =>
      rintro d ⟨⟩
      rw [isBlankText_cons, Bool.and_eq_true] at h
      exact isWord_of_isBlank h.1

theorem IsGap.endsWord {gap : Text} (h : IsGap gap) (t : Text) : EndsWord (gap ++ t) := by
  obtain ⟨c, more, rfl⟩ := List.exists_cons_of_ne_nil h.1
  have behind : EndsWord [] := by
    rintro d ⟨⟩
  have front := endsWord_append h.2 behind
  rw [List.append_nil] at front
  exact fun d head => front d head

/-- White space in front of ink comes off in one way. -/
theorem blank_append_inj {a b x y : Text} (e : a ++ x = b ++ y) (ha : isBlankText a = true)
    (hb : isBlankText b = true) (hx : StartsInked x) (hy : StartsInked y) : a = b ∧ x = y :=
  append_inj_of_kind e (isBlankText_iff.1 ha) (isBlankText_iff.1 hb) hx hy

/-- A word comes off in one way. -/
theorem word_append_inj {a b x y : Text} (e : a ++ x = b ++ y) (ha : IsIdent a) (hb : IsIdent b)
    (hx : EndsWord x) (hy : EndsWord y) : a = b ∧ x = y :=
  append_inj_of_kind e ha.words hb.words hx hy

theorem Qualified.startsInked {q : Text} (h : Qualified q) {builder : Text} (ident : IsIdent builder)
    (t : Text) : StartsInked (q ++ (builder ++ t)) := by
  cases h with
  | nil => exact ident.startsInked t
  | cons name =>
      rw [List.append_assoc]
      exact name.startsInked _

theorem isIdent_protected : IsIdent "protected".toList :=
  ⟨'p', _, rfl, by decide, List.all_eq_true.1 (by decide)⟩

theorem isIdent_override : IsIdent "override".toList :=
  ⟨'o', _, rfl, by decide, List.all_eq_true.1 (by decide)⟩

theorem isIdent_void : IsIdent "void".toList :=
  ⟨'v', _, rfl, by decide, List.all_eq_true.1 (by decide)⟩

/-- A qualifier ends where the builder type stands with white space behind it and a parameter behind
that: a name of the qualifier has a dot behind it. -/
theorem Qualified.append_inj {q q' builder f f' x x' : Text} (h : Qualified q) (h' : Qualified q')
    (ident : IsIdent builder) (hf : IsGap f) (hf' : IsGap f') (hx : ∃ w t, IsIdent w ∧ x = w ++ t)
    (hx' : ∃ w t, IsIdent w ∧ x' = w ++ t)
    (e : q ++ (builder ++ (f ++ x)) = q' ++ (builder ++ (f' ++ x'))) :
    q = q' ∧ builder ++ (f ++ x) = builder ++ (f' ++ x') := by
  have dot (t : Text) : StartsInked ('.' :: t) := startsInked_cons (by decide) t
  have dotEnds (t : Text) : EndsWord ('.' :: t) := by
    rintro c ⟨⟩
    decide
  -- no name of a qualifier is the builder type, for a dot does not start a parameter
  have other {name left right t g y : Text} (hg : IsGap g) (hy : ∃ w t, IsIdent w ∧ y = w ++ t)
      (hn : IsIdent name) (hl : isBlankText left = true) :
      builder ++ (g ++ y) ≠ name ++ (left ++ '.' :: (right ++ t)) := by
    intro same
    obtain ⟨w, u, hw, rfl⟩ := hy
    obtain ⟨-, same⟩ := word_append_inj same ident hn (hg.endsWord _) (endsWord_append hl (dotEnds _))
    obtain ⟨-, same⟩ := blank_append_inj same hg.2 hl (hw.startsInked u) (dot _)
    obtain ⟨c, more, rfl, start, -⟩ := hw
    obtain ⟨rfl, -⟩ := List.cons.inj same
    revert start
    decide
  induction h generalizing q' with
  | nil =>
      cases h' with
      | nil => exact ⟨rfl, e⟩
      | cons hn hl =>
          simp only [List.nil_append, List.append_assoc, List.cons_append] at e
          exact absurd e (other hf hx hn hl)
  | cons hn hl hr rest ih =>
      cases h' with
      | nil =>
          simp only [List.nil_append, List.append_assoc, List.cons_append] at e
          exact absurd e.symm (other hf' hx' hn hl)
      | cons hn' hl' hr' rest' =>
          simp only [List.append_assoc, List.cons_append] at e
          obtain ⟨rfl, e₁⟩ := word_append_inj e hn hn' (endsWord_append hl (dotEnds _))
            (endsWord_append hl' (dotEnds _))
          obtain ⟨rfl, e₂⟩ := blank_append_inj e₁ hl hl' (dot _) (dot _)
          obtain ⟨rfl, e₃⟩ := blank_append_inj (List.cons.inj e₂).2 hr hr' (rest.startsInked ident _)
            (rest'.startsInked ident _)
          obtain ⟨rfl, same⟩ := ih rest' e₃
          exact ⟨rfl, same⟩

variable {s : Signature}

/-- A text starts with at most one declaration. -/
theorem Declares.append_inj (method : IsIdent s.method) (builder : IsIdent s.builder)
    {d d' param param' x x' : Text} (h : s.Declares d param) (h' : s.Declares d' param')
    (e : d ++ x = d' ++ x') : d = d' ∧ param = param' := by
  have parenthesis (t : Text) : StartsInked ('(' :: t) := startsInked_cons (by decide) t
  have closing (t : Text) : StartsInked (')' :: t) := startsInked_cons (by decide) t
  have closingEnds (t : Text) : EndsWord (')' :: t) := by
    rintro c ⟨⟩
    decide
  cases h with
  | intro ha hb hc hd he hq hf hp hg =>
      cases h' with
      | intro ha' hb' hc' hd' he' hq' hf' hp' hg' =>
          simp only [List.append_assoc, List.cons_append, List.nil_append] at e
          obtain ⟨rfl, e₁⟩ := blank_append_inj (List.append_cancel_left e) ha.2 ha'.2
            (isIdent_override.startsInked _) (isIdent_override.startsInked _)
          obtain ⟨rfl, e₂⟩ := blank_append_inj (List.append_cancel_left e₁) hb.2 hb'.2
            (isIdent_void.startsInked _) (isIdent_void.startsInked _)
          obtain ⟨rfl, e₃⟩ := blank_append_inj (List.append_cancel_left e₂) hc.2 hc'.2
            (method.startsInked _) (method.startsInked _)
          obtain ⟨rfl, e₄⟩ := blank_append_inj (List.append_cancel_left e₃) hd hd' (parenthesis _)
            (parenthesis _)
          obtain ⟨rfl, e₅⟩ := blank_append_inj (List.cons.inj e₄).2 he he' (hq.startsInked builder _)
            (hq'.startsInked builder _)
          obtain ⟨rfl, e₆⟩ := hq.append_inj hq' builder hf hf' ⟨_, _, hp, rfl⟩ ⟨_, _, hp', rfl⟩ e₅
          obtain ⟨rfl, e₇⟩ := blank_append_inj (List.append_cancel_left e₆) hf.2 hf'.2
            (hp.startsInked _) (hp'.startsInked _)
          obtain ⟨rfl, e₈⟩ := word_append_inj e₇ hp hp' (endsWord_append hg (closingEnds _))
            (endsWord_append hg' (closingEnds _))
          obtain ⟨rfl, -⟩ := blank_append_inj e₈ hg hg' (closing _) (closing _)
          exact ⟨rfl, rfl⟩

/-! ## Where a declaration cannot start -/

/-- The second and the third word of a declaration stand behind the first. -/
def GoesOn (t : Text) : Prop :=
  ∃ a b more, IsGap a ∧ IsGap b ∧
    t = a ++ ("override".toList ++ (b ++ ("void".toList ++ more)))

/-- No declaration starts in a text in front of another. -/
def Clear (t rest : Text) : Prop :=
  ∀ front more, GoesOn more → t ++ rest = front ++ ("protected".toList ++ more) →
    ∃ front', front = t ++ front'

theorem Declares.goesOn {d param : Text} (h : s.Declares d param) (x : Text) :
    ∃ more, GoesOn more ∧ d ++ x = "protected".toList ++ more := by
  cases h with
  | intro ha hb =>
      simp only [List.append_assoc]
      exact ⟨_, ⟨_, _, _, ha, hb, rfl⟩, rfl⟩

theorem clear_append {t u rest : Text} (ht : Clear t (u ++ rest)) (hu : Clear u rest) :
    Clear (t ++ u) rest := by
  intro front more goes e
  rw [List.append_assoc] at e
  obtain ⟨front, rfl⟩ := ht front more goes e
  rw [List.append_assoc] at e
  obtain ⟨front, rfl⟩ := hu front more goes (List.append_cancel_left e)
  exact ⟨front, by rw [List.append_assoc]⟩

theorem clear_of_no_word {t : Text} (h : ∀ c ∈ t, isWord c = false) (rest : Text) : Clear t rest := by
  intro front more _ e
  have first : "protected".toList = 'p' :: "rotected".toList := rfl
  rw [first] at e
  rcases List.append_eq_append_iff.1 e with ⟨front', rfl, -⟩ | ⟨back, rfl, tails⟩
  · exact ⟨front', rfl⟩
  · cases back with
    | nil => exact ⟨[], by simp⟩
    | cons c back =>
        obtain ⟨rfl, -⟩ := List.cons.inj tails
        exact absurd (h 'p' (by simp)) (by decide)

theorem clear_blank {t : Text} (h : isBlankText t = true) (rest : Text) : Clear t rest := by
  exact clear_of_no_word (fun c m => isWord_of_isBlank (isBlankText_iff.1 h c m)) rest

/-- A declaration that starts in a word starts with the end of the word. -/
theorem clear_words {t rest : Text} (words : ∀ c ∈ t, isWord c = true) (ends : EndsWord rest)
    (other : "protected".toList <:+ t → ¬ GoesOn rest) : Clear t rest := by
  intro front more goes e
  rcases List.append_eq_append_iff.1 e with ⟨front', rfl, -⟩ | ⟨back, rfl, tails⟩
  · exact ⟨front', rfl⟩
  · obtain ⟨a, b, y, ha, hb, rfl⟩ := goes
    obtain ⟨rfl, rfl⟩ := append_inj_of_kind tails.symm
      (fun c m => words c (List.mem_append_right front m)) isIdent_protected.words ends (ha.endsWord _)
    exact absurd ⟨a, b, y, ha, hb, rfl⟩ (other (List.suffix_append ..))

/-- Behind a word in front of a mark of its own no other word follows. -/
theorem not_goesOn {blank : Text} (h : isBlankText blank = true) {c : Char} (inked : isBlank c = false)
    (mark : c ≠ 'o') (t : Text) : ¬ GoesOn (blank ++ c :: t) := by
  rintro ⟨a, b, more, ha, hb, e⟩
  obtain ⟨-, e⟩ := blank_append_inj e h ha.2 (startsInked_cons inked t)
    (isIdent_override.startsInked _)
  exact mark (List.cons.inj e).1

theorem IsIdent.clear {w : Text} (h : IsIdent w) {blank : Text} (hb : isBlankText blank = true)
    {c : Char} (inked : isBlank c = false) (noWord : isWord c = false) (t : Text) :
    Clear w (blank ++ c :: t) := by
  refine clear_words h.words (endsWord_append hb ?_) fun _ => not_goesOn hb inked ?_ t
  · rintro d ⟨⟩
    exact noWord
  · rintro rfl
    revert noWord
    decide

/-- Behind a type stand a word and a parenthesis, not two words. -/
theorem IsIdent.clear_typed {w gap param blank : Text} (h : IsIdent w) (hg : IsGap gap)
    (hp : IsIdent param) (hb : isBlankText blank = true) (t : Text) :
    Clear w (gap ++ (param ++ (blank ++ ')' :: t))) := by
  refine clear_words h.words (hg.endsWord _) fun _ => ?_
  rintro ⟨a, b, more, ha, hb', e⟩
  have closing : EndsWord (')' :: t) := by
    rintro c ⟨⟩
    decide
  obtain ⟨-, e⟩ := blank_append_inj e hg.2 ha.2 (hp.startsInked _) (isIdent_override.startsInked _)
  obtain ⟨-, e⟩ := word_append_inj e hp isIdent_override (endsWord_append hb closing)
    (hb'.endsWord _)
  obtain ⟨-, e⟩ := blank_append_inj e hb hb'.2 (startsInked_cons (by decide) t)
    (isIdent_void.startsInked _)
  exact absurd (List.cons.inj e).1 (by decide)

theorem Qualified.clear {q : Text} (h : Qualified q) (rest : Text) : Clear q rest := by
  induction h with
  | nil => exact clear_of_no_word (by simp) rest
  | @cons name left right more hn hl hr _ ih =>
      refine clear_append ?_ (clear_append (clear_blank hl _) (clear_append (t := ['.'])
        (clear_of_no_word (by simp; decide) _) (clear_append (clear_blank hr _) ih)))
      simp only [List.append_assoc, List.cons_append]
      exact hn.clear hl (by decide) (by decide) _

/-- No declaration starts in the middle of another. -/
theorem Declares.length_le (method : IsIdent s.method) (builder : IsIdent s.builder)
    {d d' param param' front x x' : Text} (h : s.Declares d param) (h' : s.Declares d' param')
    (inside : front ≠ []) (e : d ++ x = front ++ (d' ++ x')) : d.length ≤ front.length := by
  obtain ⟨more, goes, starts⟩ := h'.goesOn x'
  rw [starts] at e
  have short {w : Text} (h : w.length < 9) : ¬ "protected".toList <:+ w := by
    intro tail
    exact absurd tail.length_le (Nat.not_le.2 h)
  have ends {gap : Text} (h : IsGap gap) (t : Text) : EndsWord (gap ++ t ++ x) := by
    rw [List.append_assoc]
    exact h.endsWord _
  suffices clear : ∃ c d'', d = c :: d'' ∧ Clear d'' x by
    obtain ⟨c, d'', rfl, clear⟩ := clear
    obtain ⟨c', front, rfl⟩ := List.exists_cons_of_ne_nil inside
    obtain ⟨front', rfl⟩ := clear front more goes (List.cons.inj e).2
    simp only [List.length_cons, List.length_append]
    omega
  cases h with
  | @intro a b c d e' f g q _ ha hb hc hd he hq hf hp hg =>
      refine ⟨'p', _, rfl, ?_⟩
      refine clear_append (t := "rotected".toList) (clear_words (List.all_eq_true.1 (by decide)) (ends ha _)
        fun tail => absurd tail (short (by decide))) (clear_append (clear_blank ha.2 _) ?_)
      refine clear_append (clear_words isIdent_override.words (ends hb _)
        fun tail => absurd tail (short (by decide))) (clear_append (clear_blank hb.2 _) ?_)
      refine clear_append (clear_words isIdent_void.words (ends hc _)
        fun tail => absurd tail (short (by decide))) (clear_append (clear_blank hc.2 _) ?_)
      refine clear_append ?_ (clear_append (clear_blank hd _) (clear_append (t := ['('])
        (clear_of_no_word (by simp; decide) _) (clear_append (clear_blank he _)
          (clear_append (hq.clear _) ?_))))
      · simp only [List.append_assoc, List.cons_append]
        exact method.clear hd (by decide) (by decide) _
      refine clear_append ?_ (clear_append (clear_blank hf.2 _) (clear_append ?_
        (clear_append (clear_blank hg _) (clear_of_no_word (by simp; decide) _))))
      · simp only [List.append_assoc, List.cons_append, List.nil_append]
        exact builder.clear_typed hf hp hg x
      · simp only [List.append_assoc, List.cons_append, List.nil_append]
        exact hp.clear hg (by decide) (by decide) _

/-! ## The declarations of a text -/

def DeclaredAt (s : Signature) (t : Text) (i j : Nat) (param : Text) : Prop :=
  ∃ front d back, t = front ++ (d ++ back) ∧ s.Declares d param ∧ i = front.length ∧ j = i + d.length

def places (s : Signature) (t : Text) : Set Nat :=
  {i | ∃ j param, s.DeclaredAt t i j param}

def FirstDeclared (s : Signature) (t : Text) (i j : Nat) (param : Text) : Prop :=
  s.DeclaredAt t i j param ∧ ∀ k ∈ s.places t, i ≤ k

theorem declaration_determined (method : IsIdent s.method) (builder : IsIdent s.builder) :
    Determined s.declaration := by
  rintro t ⟨param, rest⟩ ⟨param', rest'⟩ m m'
  obtain ⟨d, rfl, h⟩ := mem_declaration.1 m
  obtain ⟨d', e, h'⟩ := mem_declaration.1 m'
  obtain ⟨rfl, rfl⟩ := h.append_inj method builder h' e
  rw [List.append_cancel_left e]

theorem declaration_apart (method : IsIdent s.method) (builder : IsIdent s.builder) :
    Apart s.declaration := by
  rintro front back ⟨param, rest⟩ ⟨param', rest'⟩ inside m m'
  obtain ⟨d, e, h⟩ := mem_declaration.1 m
  obtain ⟨d', rfl, h'⟩ := mem_declaration.1 m'
  have long := h.length_le method builder h' inside e.symm
  have := congrArg List.length e
  simp only [List.length_append] at this ⊢
  omega

theorem declaration_consuming (s : Signature) : Consuming fun _ => s.declaration := by
  rintro _ t ⟨param, rest⟩ m
  obtain ⟨d, rfl, h⟩ := mem_declaration.1 m
  cases h
  simp only [List.length_append, List.length_cons]
  omega

theorem DeclaredAt.apart (method : IsIdent s.method) (builder : IsIdent s.builder) {t : Text}
    {i j i' j' : Nat} {param param' : Text} (h : s.DeclaredAt t i j param)
    (h' : s.DeclaredAt t i' j' param') (later : i < i') : j ≤ i' := by
  obtain ⟨front, d, back, rfl, declares, rfl, rfl⟩ := h
  obtain ⟨front', d', back', e, declares', rfl, -⟩ := h'
  rcases List.append_eq_append_iff.1 e with ⟨more, rfl, tails⟩ | ⟨more, rfl, -⟩
  · have inside : more ≠ [] := by
      rintro rfl
      simp at later
    have := declares.length_le method builder declares' inside tails
    rw [List.length_append]
    omega
  · rw [List.length_append] at later
    omega

theorem DeclaredAt.determined (method : IsIdent s.method) (builder : IsIdent s.builder) {t : Text}
    {i j j' : Nat} {param param' : Text} (h : s.DeclaredAt t i j param)
    (h' : s.DeclaredAt t i j' param') : j = j' ∧ param = param' := by
  obtain ⟨front, d, back, rfl, declares, rfl, rfl⟩ := h
  obtain ⟨front', d', back', e, declares', same, rfl⟩ := h'
  obtain ⟨rfl, tails⟩ := List.append_inj e same
  obtain ⟨rfl, rfl⟩ := declares.append_inj method builder declares' tails
  exact ⟨rfl, rfl⟩

/-- The walk meets every declaration. -/
theorem mem_occurrences_iff (method : IsIdent s.method) (builder : IsIdent s.builder) {t : Text}
    {found : Occurrence Text} :
    found ∈ s.occurrences t ↔ s.DeclaredAt t found.start found.stop found.value := by
  rw [occurrences, Reader.occurrences, mem_occurrencesFrom_cuts s.suffixed_declaration
    s.declaration_consuming (declaration_determined method builder)
    (declaration_apart method builder)]
  constructor
  · rintro ⟨front, taken, rest, rfl, read, start, stop⟩
    obtain ⟨d, e, declares⟩ := mem_declaration.1 read
    obtain rfl := List.append_cancel_right e
    exact ⟨front, taken, rest, rfl, declares, by omega, stop⟩
  · rintro ⟨front, d, back, rfl, declares, start, stop⟩
    exact ⟨front, d, back, rfl, mem_declaration.2 ⟨d, rfl, declares⟩, by omega, stop⟩

/-- There are as many places as the walk meets declarations. -/
theorem ncard_places (method : IsIdent s.method) (builder : IsIdent s.builder) (t : Text) :
    (s.places t).Finite ∧ (s.places t).ncard = (s.occurrences t).length := by
  have starts : s.places t = ↑((s.occurrences t).map fun found => found.start).toFinset := by
    ext i
    simp only [List.coe_toFinset, List.mem_map, Set.mem_ofPred_eq]
    constructor
    · rintro ⟨j, param, h⟩
      exact ⟨⟨i, j, param⟩, (mem_occurrences_iff method builder).2 h, rfl⟩
    · rintro ⟨found, m, rfl⟩
      exact ⟨_, _, (mem_occurrences_iff method builder).1 m⟩
  have order := (pairwise_occurrencesFrom (fun _ => s.suffixed_declaration) none 0 t).1
  have nodup : ((s.occurrences t).map fun found => found.start).Nodup :=
    List.pairwise_map.2 (order.imp fun h => Nat.ne_of_lt h)
  rw [starts, Set.ncard_coe_finset, List.toFinset_card_of_nodup nodup, List.length_map]
  exact ⟨Finset.finite_toSet _, rfl⟩

theorem places_eq_empty (method : IsIdent s.method) (builder : IsIdent s.builder) {t : Text} :
    s.places t = ∅ ↔ s.occurrences t = [] := by
  obtain ⟨finite, card⟩ := ncard_places method builder t
  rw [← Set.ncard_eq_zero finite, card, List.length_eq_zero_iff]

/-- The first declaration is the one that the walk meets first. -/
theorem firstDeclared_iff (method : IsIdent s.method) (builder : IsIdent s.builder) {t : Text}
    {first : Occurrence Text} {others : List (Occurrence Text)}
    (some_ : s.occurrences t = first :: others) {i j : Nat} {param : Text} :
    s.FirstDeclared t i j param ↔ i = first.start ∧ j = first.stop ∧ param = first.value := by
  have here : s.DeclaredAt t first.start first.stop first.value :=
    (mem_occurrences_iff method builder).1 (some_ ▸ List.mem_cons_self)
  have least : ∀ k ∈ s.places t, first.start ≤ k := by
    rintro k ⟨j, param, h⟩
    have m : ⟨k, j, param⟩ ∈ s.occurrences t := (mem_occurrences_iff method builder).2 h
    have order := (pairwise_occurrencesFrom (fun _ => s.suffixed_declaration) none 0 t).1
    rw [show occurrencesFrom 0 _ = s.occurrences t from rfl, some_, List.pairwise_cons] at order
    rw [some_] at m
    rcases List.mem_cons.1 m with e | m
    · rw [← e]
    · exact Nat.le_of_lt (order.1 _ m)
  constructor
  · rintro ⟨h, low⟩
    obtain rfl : i = first.start := Nat.le_antisymm (low _ ⟨_, _, here⟩) (least _ ⟨_, _, h⟩)
    obtain ⟨rfl, rfl⟩ := h.determined method builder here
    exact ⟨rfl, rfl, rfl⟩
  · rintro ⟨rfl, rfl, rfl⟩
    exact ⟨here, least⟩

/-- What is found in a text, of several declarations the first: nothing where there is no declaration
or no brace behind it; otherwise the block that opens with the first brace behind it, or the failure
that this block is never closed, with the number of blocks that are open at the end. -/
inductive Finds (s : Signature) (t : Text) : Except Failure (Option Method) → Prop where
  | undeclared : s.places t = ∅ → Finds s t (.ok none)
  | blockless {i j : Nat} {param : Text} : s.FirstDeclared t i j param → '{' ∉ t.drop j →
      Finds s t (.ok none)
  | unclosed {i j depth : Nat} {param gap rest : Text} : s.FirstDeclared t i j param →
      t.drop j = gap ++ '{' :: rest → '{' ∉ gap →
      (∀ inner after, rest = inner ++ '}' :: after → Brace.isBalanced inner = false) →
      depth + rest.count '}' = rest.count '{' + 1 →
      Finds s t (.error (.unclosedBrace (j + gap.length) depth))
  | found {m : Method} : s.FirstDeclared t m.start m.stop m.param → m.text = t → '{' ∉ m.gap →
      Brace.isBalanced m.body = true → Finds s t (.ok (some m))

end Signature

namespace Method

open Signature

variable {s : Signature} {t : Text} {first : Occurrence Text} {others : List (Occurrence Text)}

/-- What a cut at the first declaration gives is found. -/
theorem finds_cut (method : IsIdent s.method) (builder : IsIdent s.builder)
    (some_ : s.occurrences t = first :: others) : s.Finds t (cut t first) := by
  have declared : s.FirstDeclared t first.start first.stop first.value :=
    (firstDeclared_iff method builder some_).2 ⟨rfl, rfl, rfl⟩
  have ordered : first.start ≤ first.stop := by
    obtain ⟨front, d, back, -, -, -, stop⟩ := declared.1
    omega
  cases opened : cutAt? ['{'] (t.drop first.stop) with
  | none =>
      rw [cut, opened]
      refine .blockless declared ?_
      rwa [cutAt?_eq_none, List.singleton_infix_iff] at opened
  | some p =>
      obtain ⟨gap, block⟩ := p
      obtain ⟨parts, absent⟩ := cutAt?_char.1 opened
      cases closed : Brace.closeBlock 0 block with
      | error depth =>
          obtain ⟨never, count⟩ := Brace.closeBlock_eq_error.1 closed
          rw [cut, opened]
          simp only [closed]
          exact .unclosed declared parts absent never count
      | ok p =>
          obtain ⟨m, found⟩ : ∃ m, cut t first = .ok (some m) := by
            rw [cut, opened]
            simp only [closed]
            exact ⟨_, rfl⟩
          obtain ⟨-, -, param, -, noBrace, inside⟩ := cut_eq_some.1 found
          obtain ⟨startLength, stopLength⟩ := cut_length ordered found
          rw [found]
          refine .found ?_ (cut_text ordered found) noBrace inside
          rw [Method.stop, Method.start, ← List.length_append, stopLength, startLength, param]
          exact declared

/-- Nothing else is found than what a cut at the first declaration gives. -/
theorem cut_of_finds (method : IsIdent s.method) (builder : IsIdent s.builder)
    (some_ : s.occurrences t = first :: others) {out : Except Failure (Option Method)}
    (finds : s.Finds t out) : cut t first = out := by
  cases finds with
  | undeclared none_ =>
      rw [places_eq_empty method builder, some_] at none_
      cases none_
  | blockless h absent =>
      obtain ⟨-, rfl, -⟩ := (firstDeclared_iff method builder some_).1 h
      rw [cut, cutAt?_eq_none.2 (mt (List.singleton_infix_iff _ _).1 absent)]
  | unclosed h parts absent never count =>
      obtain ⟨-, rfl, -⟩ := (firstDeclared_iff method builder some_).1 h
      rw [cut, cutAt?_char.2 ⟨parts, absent⟩]
      simp only [Brace.closeBlock_eq_error.2 ⟨never, count⟩]
  | @found m h text absent inside =>
      obtain ⟨startEq, stopEq, param⟩ := (firstDeclared_iff method builder some_).1 h
      have parts : t = m.before ++ m.declaration ++ (m.gap ++ '{' :: (m.body ++ '}' :: m.after)) := by
        rw [← text, Method.text]
        simp
      have lengths : (m.before ++ m.declaration).length = first.stop := by
        rw [← stopEq, Method.stop, Method.start, List.length_append]
      have take : t.take first.stop = m.before ++ m.declaration := by
        rw [parts, ← lengths, List.take_left]
      refine cut_eq_some.2 ⟨?_, ?_, param, ?_, absent, inside⟩
      · rw [parts, List.append_assoc, ← startEq, Method.start, List.take_left]
      · rw [take, ← startEq, Method.start, List.drop_left]
      · rw [parts, ← lengths, List.drop_left]

/-- Locating finds what the first declaration says unless several are there and only one is allowed. -/
theorem locate_eq_iff_finds (method : IsIdent s.method) (builder : IsIdent s.builder)
    {strict : Bool} (allowed : strict = true → (s.occurrences t).length < 2)
    {out : Except Failure (Option Method)} :
    (locate s strict t).outcome = out ↔ s.Finds t out := by
  rw [locate_outcome]
  cases some_ : s.occurrences t with
  | nil =>
      have none_ : s.places t = ∅ := (places_eq_empty method builder).2 some_
      have undeclared {i j : Nat} {param : Text} : ¬ s.FirstDeclared t i j param := by
        rintro ⟨h, -⟩
        have here : i ∈ s.places t := ⟨j, param, h⟩
        rw [none_] at here
        exact here
      constructor
      · rintro rfl
        exact .undeclared none_
      · rintro (_ | ⟨h, -⟩ | ⟨h, -⟩ | ⟨h, -⟩)
        · rfl
        · exact absurd h undeclared
        · exact absurd h undeclared
        · exact absurd h undeclared
  | cons first others =>
      have one : ¬ (strict = true ∧ others ≠ []) := by
        rintro ⟨rfl, more⟩
        have few := allowed rfl
        have := List.length_pos_iff.2 more
        rw [some_, List.length_cons] at few
        omega
      simp only [if_neg one]
      constructor
      · rintro rfl
        exact finds_cut method builder some_
      · exact cut_of_finds method builder some_

/-- The declarations of a text do not overlap, and where one starts settles its end and its parameter.
Locating finds what the first of them and the braces behind it say; where only one declaration is
allowed it fails exactly if there are several, and tells their number. -/
theorem locate_grammar {s : Signature} (method : IsIdent s.method) (builder : IsIdent s.builder)
    (t : Text) :
    (∀ i j param i' j' param', s.DeclaredAt t i j param → s.DeclaredAt t i' j' param' → i < i' →
        j ≤ i') ∧
      (∀ i j param j' param', s.DeclaredAt t i j param → s.DeclaredAt t i j' param' →
        j = j' ∧ param = param') ∧
      (∀ out, (locate s false t).outcome = out ↔ s.Finds t out) ∧ (s.places t).Finite ∧
      ∀ out, (locate s true t).outcome = out ↔
        if 2 ≤ (s.places t).ncard then
          out = .error (.ambiguousMethod s.method (s.places t).ncard)
        else s.Finds t out := by
  obtain ⟨finite, card⟩ := ncard_places method builder t
  refine ⟨fun _ _ _ _ _ _ h h' => h.apart method builder h', fun _ _ _ _ _ h h' =>
    h.determined method builder h', fun out => ?_, finite, fun out => ?_⟩
  · exact locate_eq_iff_finds method builder (by simp)
  · rw [card]
    split
    · rename_i several
      have named : s.displayName = s.method := by
        rw [displayName, if_neg]
        simpa using method.ne_nil
      rw [locate_outcome]
      cases some_ : s.occurrences t with
      | nil => simp [some_] at several
      | cons first others =>
          have more : others ≠ [] := by
            rintro rfl
            simp [some_] at several
          simp only [true_and, if_pos more, named, List.length_cons]
          exact eq_comm
    · rename_i few
      exact locate_eq_iff_finds method builder fun _ => Nat.lt_of_not_le few

/-- A declaration whose names are words that declarations have as well. -/
def keywordSignature : Signature :=
  ⟨"protected".toList, "override".toList⟩

/-- A text with two declarations of it: the first right behind a letter, the second without a block. -/
def keywordText : Text :=
  ("xprotected override\u3000void protected(a . override.override void ) \x7b \x7b\x7d \x7d\n" ++
    "protected override void protected(override b);").toList

def keywordMethod : Method where
  before := ['x']
  declaration := "protected override\u3000void protected(a . override.override void )".toList
  gap := [' ']
  body := " \x7b\x7d ".toList
  after := "\nprotected override void protected(override b);".toList
  param := "void".toList

theorem locate_grammar_keywords :
    IsIdent keywordSignature.method ∧ IsIdent keywordSignature.builder ∧
      keywordSignature.FirstDeclared keywordText keywordMethod.start keywordMethod.stop
        keywordMethod.param ∧
      (keywordSignature.places keywordText).ncard = 2 ∧
      (∀ out, (locate keywordSignature false keywordText).outcome = out ↔
        keywordSignature.Finds keywordText out) ∧
      ∀ out, (locate keywordSignature true keywordText).outcome = out ↔
        out = .error (.ambiguousMethod "protected".toList 2) := by
  have builder : IsIdent keywordSignature.builder := isIdent_override
  obtain ⟨-, -, loose, -, strict⟩ := locate_grammar isIdent_protected builder keywordText
  have found : (locate keywordSignature false keywordText).outcome = .ok (some keywordMethod) := by
    decide +kernel
  have failed : (locate keywordSignature true keywordText).outcome =
      .error (.ambiguousMethod "protected".toList 2) := by
    decide +kernel
  have two : (keywordSignature.places keywordText).ncard = 2 := by
    have := (strict _).1 failed
    split at this
    · simp only [Except.error.injEq, Failure.ambiguousMethod.injEq] at this
      exact this.2.symm
    · cases this
  refine ⟨isIdent_protected, builder, ?_, two, loose, fun out => ?_⟩
  · cases (loose _).1 found with
    | found first => exact first
  · rw [failed]
    exact eq_comm

end Method

end Regraft
