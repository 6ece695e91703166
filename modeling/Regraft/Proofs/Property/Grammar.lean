import Regraft.Proofs.Declaration
import Regraft.Proofs.Text.Squeeze
import Regraft.Property.Basic

/-!
# Regraft.Proofs.Property.Grammar -- the grammar of property declarations

`Declares` has the grammar of a property declaration in words: white space, `public`, modifiers
(`Modifiers`), a type (`IsType`), a name and the accessor block (`IsAccessors`).  What the reader reads
is that grammar (`mem_declaration`).  On its face the grammar is ambiguous, since a type may be called
like a modifier and type arguments may hold white space and closing brackets.  Yet a line declares one
property at most (`Declares.determined`): up to the opening brace it ends in a name, so the name comes
off from the right, and behind a type called like a modifier no word can follow (`modifiers_append_inj`).
So the order in which readings are tried does not matter, and the property declared on a line is the
one the grammar gives (`parse?_eq_some`).
-/

namespace Regraft

set_option autoImplicit false

open Text Reader
open Signature (IsGap IsIdent StartsInked EndsWord mem_blanks1 mem_identifier startsInked_cons
  blank_append_inj word_append_inj)

namespace Property

variable {t rest : Text} {p q : Property}

/-! ## The grammar -/

def isDotted (c : Char) : Bool :=
  isWord c || c == '.'

/-- The words that may stand between `public` and the type. -/
def IsModifier (t : Text) : Prop :=
  t = "virtual".toList ∨ t = "required".toList

/-- Modifiers, with white space behind each. -/
inductive Modifiers : Text → Prop where
  | nil : Modifiers []
  | cons {word gap more : Text} : IsModifier word → IsGap gap → Modifiers more →
      Modifiers (word ++ (gap ++ more))

def IsDotted (t : Text) : Prop :=
  ∃ c more, t = c :: more ∧ isIdentStart c = true ∧ ∀ d ∈ more, isDotted d = true

/-- Type arguments in angle brackets, perhaps behind white space. -/
def IsArguments (t : Text) : Prop :=
  ∃ gap inner, t = gap ++ '<' :: (inner ++ ['>']) ∧ isBlankText gap = true ∧ inner ≠ [] ∧
    ∀ c ∈ inner, isArgument c = true

/-- Nullable marks around array ranks. -/
def IsMarks (t : Text) : Prop :=
  ∃ nullable ranks nullableArray, t = nullable ++ (ranks ++ nullableArray) ∧
    (nullable = [] ∨ nullable = ['?']) ∧ (∃ n, ranks = (List.replicate n ['[', ']']).flatten) ∧
      (nullableArray = [] ∨ nullableArray = ['?'])

def IsType (t : Text) : Prop :=
  ∃ name arguments marks, t = name ++ (arguments ++ marks) ∧ IsDotted name ∧
    (arguments = [] ∨ IsArguments arguments) ∧ IsMarks marks

def IsAccessors (t : Text) : Prop :=
  ∃ a b c, t = '{' :: (a ++ ("get;".toList ++ (b ++ ("set;".toList ++ (c ++ ['}']))))) ∧
    isBlankText a = true ∧ isBlankText b = true ∧ isBlankText c = true

/-- A declaration between `public` and its accessors, and the property it declares. -/
inductive Named : Text → Property → Prop where
  | intro {modifiers type gap name behind : Text} : Modifiers modifiers → IsType type → IsGap gap →
      IsIdent name → isBlankText behind = true →
      Named (modifiers ++ (type ++ (gap ++ (name ++ behind)))) ⟨name, squeeze type⟩

/-- A declaration, and the property it declares. -/
inductive Declares : Text → Property → Prop where
  | intro {lead gap named accessors : Text} {p : Property} : isBlankText lead = true → IsGap gap →
      Named named p → IsAccessors accessors →
      Declares (lead ++ ("public".toList ++ (gap ++ (named ++ accessors)))) p

/-! ## What the reader reads -/

theorem mem_modifier : ((), rest) ∈ modifier t ↔
    ∃ word gap, IsModifier word ∧ IsGap gap ∧ t = word ++ (gap ++ rest) := by
  simp only [modifier, mem_bind, exists_unit, mem_orElse, mem_literal, mem_blanks1]
  constructor
  · rintro ⟨_, rfl | rfl, gap, rfl, hg⟩
    · exact ⟨_, gap, Or.inl rfl, hg, rfl⟩
    · exact ⟨_, gap, Or.inr rfl, hg, rfl⟩
  · rintro ⟨_, gap, rfl | rfl, hg, rfl⟩
    · exact ⟨gap ++ rest, Or.inl rfl, gap, rfl, hg⟩
    · exact ⟨gap ++ rest, Or.inr rfl, gap, rfl, hg⟩

theorem mem_star_modifier :
    (∃ values, (values, rest) ∈ star modifier t) ↔ ∃ m, t = m ++ rest ∧ Modifiers m := by
  constructor
  · rintro ⟨values, found⟩
    induction values generalizing t with
    | nil =>
        rcases mem_star.1 found with ⟨-, rfl⟩ | ⟨_, _, _, -, -, -, e⟩
        · exact ⟨[], rfl, .nil⟩
        · cases e
    | cons v values ih =>
        rcases mem_star.1 found with ⟨e, -⟩ | ⟨_, mid, more, first, -, later, e⟩
        · cases e
        · obtain ⟨-, rfl⟩ := List.cons.inj e
          obtain ⟨word, gap, hw, hg, rfl⟩ := mem_modifier.1 first
          obtain ⟨m, rfl, modifiers⟩ := ih later
          exact ⟨_, by simp, .cons hw hg modifiers⟩
  · rintro ⟨m, rfl, modifiers⟩
    induction modifiers with
    | nil => exact ⟨[], mem_star.2 (Or.inl ⟨rfl, rfl⟩)⟩
    | @cons word gap more hw hg modifiers ih =>
        obtain ⟨values, later⟩ := ih
        refine ⟨() :: values, mem_star.2 (Or.inr ⟨(), more ++ rest, values, ?_, ?_, later, rfl⟩)⟩
        · exact mem_modifier.2 ⟨word, gap, hw, hg, by simp⟩
        · have := List.length_pos_iff.2 hg.1
          simp only [List.length_append]
          omega

theorem mem_arguments {v : Text} : (v, rest) ∈ arguments t ↔ t = v ++ rest ∧ IsArguments v := by
  simp only [arguments, many1, mem_bind, exists_unit, mem_one, mem_many, mem_literal, mem_pure,
    IsArguments]
  constructor
  · rintro ⟨gap, _, ⟨rfl, hg⟩, _, rfl, _, _, ⟨c, _, ⟨rfl, hc⟩, more, _, ⟨rfl, hm⟩, rfl, rfl⟩, _, rfl,
      rfl, rfl⟩
    exact ⟨by simp, gap, c :: more, by simp, isBlankText_iff.2 hg, by simp,
      List.forall_mem_cons.2 ⟨hc, hm⟩⟩
  · rintro ⟨rfl, gap, inner, rfl, hg, some_, hi⟩
    obtain ⟨c, more, rfl⟩ := List.exists_cons_of_ne_nil some_
    rw [List.forall_mem_cons] at hi
    exact ⟨gap, _, ⟨by simp, isBlankText_iff.1 hg⟩, _, rfl, c :: more, _,
      ⟨c, _, ⟨rfl, hi.1⟩, more, _, ⟨rfl, hi.2⟩, rfl, rfl⟩, _, rfl, by simp, rfl⟩

theorem mem_mark {c : Char} {v : Text} :
    (v, rest) ∈ mark c t ↔ t = v ++ rest ∧ (v = [] ∨ v = [c]) := by
  simp only [mark, mem_bind, mem_optional, mem_pure]
  constructor
  · rintro ⟨_, _, ⟨_, rfl, found⟩ | ⟨rfl, rfl⟩, rfl, rfl⟩
    · exact ⟨mem_literal.1 found, Or.inr rfl⟩
    · exact ⟨rfl, Or.inl rfl⟩
  · rintro ⟨rfl, rfl | rfl⟩
    · exact ⟨none, rest, Or.inr ⟨rfl, rfl⟩, rfl, rfl⟩
    · exact ⟨some (), rest, Or.inl ⟨(), rfl, mem_literal.2 rfl⟩, rfl, rfl⟩

theorem mem_star_literal {needle : Text} {values : List Unit} (some_ : needle ≠ []) :
    (values, rest) ∈ star (literal needle) t ↔
      t = (values.flatMap fun _ => needle) ++ rest := by
  induction values generalizing t with
  | nil =>
      rw [mem_star]
      simp [eq_comm]
  | cons v values ih =>
      rw [mem_star]
      simp only [List.flatMap_cons, List.append_assoc]
      constructor
      · rintro (⟨e, -⟩ | ⟨_, mid, more, first, -, later, e⟩)
        · cases e
        · obtain ⟨-, rfl⟩ := List.cons.inj e
          rw [mem_literal.1 first, ih.1 later]
      · rintro rfl
        refine Or.inr ⟨(), _, values, mem_literal.2 rfl, ?_, ih.2 rfl, rfl⟩
        have := List.length_pos_iff.2 some_
        simp only [List.length_append]
        omega

theorem mem_ranks {v : Text} :
    (v, rest) ∈ ranks t ↔ t = v ++ rest ∧ ∃ n, v = (List.replicate n ['[', ']']).flatten := by
  have same (values : List Unit) : (values.flatMap fun _ => ['[', ']']) =
      (List.replicate values.length ['[', ']']).flatten := by
    rw [List.flatMap_def, List.map_const']
  simp only [ranks, mem_bind (r := star _), mem_star_literal (List.cons_ne_nil _ _), mem_pure, same]
  constructor
  · rintro ⟨values, _, rfl, rfl, rfl⟩
    exact ⟨rfl, values.length, rfl⟩
  · rintro ⟨rfl, n, rfl⟩
    exact ⟨List.replicate n (), rest, by simp, by simp, rfl⟩

theorem mem_typeText {v : Text} : (v, rest) ∈ typeText t ↔ t = v ++ rest ∧ IsType v := by
  simp only [typeText, mem_bind, mem_one, mem_many, mem_optional, mem_arguments, mem_mark, mem_ranks,
    mem_pure]
  constructor
  · rintro ⟨c, _, ⟨rfl, start⟩, more, _, ⟨rfl, hm⟩, args, _, found, a, _, ⟨rfl, ha⟩, b, _,
      ⟨rfl, hb⟩, d, _, ⟨rfl, hd⟩, rfl, rfl⟩
    have name : IsDotted (c :: more) := ⟨c, more, rfl, start, hm⟩
    have marks : IsMarks (a ++ (b ++ d)) := ⟨a, b, d, rfl, ha, hb, hd⟩
    rcases found with ⟨args, rfl, rfl, hargs⟩ | ⟨rfl, rfl⟩
    · exact ⟨by simp, _, args, _, by simp, name, Or.inr hargs, marks⟩
    · exact ⟨by simp, _, [], _, by simp, name, Or.inl rfl, marks⟩
  · rintro ⟨rfl, _, args, _, rfl, ⟨c, more, rfl, start, hm⟩, hargs, a, b, d, rfl, ha, hb, hd⟩
    refine ⟨c, _, ⟨rfl, start⟩, more, args ++ (a ++ (b ++ (d ++ rest))), ⟨by simp, hm⟩, ?_⟩
    rcases hargs with rfl | hargs
    · exact ⟨none, _, Or.inr ⟨rfl, rfl⟩, a, _, ⟨rfl, ha⟩, b, _, ⟨rfl, hb⟩, d, _, ⟨rfl, hd⟩,
        by simp, rfl⟩
    · exact ⟨some args, _, Or.inl ⟨args, rfl, rfl, hargs⟩, a, _, ⟨rfl, ha⟩, b, _, ⟨rfl, hb⟩, d, _,
        ⟨rfl, hd⟩, by simp, rfl⟩

/-! ## The characters of the parts -/

theorem inked_of_isDotted {c : Char} (h : isDotted c = true) : isBlank c = false := by
  rw [isDotted, Bool.or_eq_true, beq_iff_eq] at h
  rcases h with word | rfl
  · exact isBlank_of_isWord word
  · decide

theorem IsModifier.isIdent {w : Text} (h : IsModifier w) : IsIdent w := by
  rcases h with rfl | rfl
  · exact ⟨'v', "irtual".toList, by decide, by decide, List.all_eq_true.1 (by decide)⟩
  · exact ⟨'r', "equired".toList, by decide, by decide, List.all_eq_true.1 (by decide)⟩

theorem dotted_of_isIdent {w : Text} (h : IsIdent w) : ∀ c ∈ w, isDotted c = true := by
  intro c m
  rw [isDotted, h.words c m, Bool.true_or]

theorem inked_of_isIdent {w : Text} (h : IsIdent w) : ∀ c ∈ w, isBlank c = false :=
  fun c m => isBlank_of_isWord (h.words c m)

theorem IsDotted.dotted (h : IsDotted t) : ∀ c ∈ t, isDotted c = true := by
  obtain ⟨c, more, rfl, start, dotted⟩ := h
  refine List.forall_mem_cons.2 ⟨?_, dotted⟩
  rw [isDotted, isWord_of_isIdentStart start, Bool.true_or]

theorem IsMarks.mem (h : IsMarks t) : ∀ c ∈ t, c ∈ ['?', '[', ']'] := by
  obtain ⟨a, ranks, b, rfl, ha, ⟨n, rfl⟩, hb⟩ := h
  intro c m
  simp only [List.mem_append, List.mem_flatten, List.mem_replicate] at m
  rcases m with m | ⟨_, ⟨-, rfl⟩, m⟩ | m
  · rcases ha with rfl | rfl
    · cases m
    · exact List.mem_cons.2 (Or.inl (List.mem_singleton.1 m))
  · exact List.mem_cons_of_mem _ m
  · rcases hb with rfl | rfl
    · cases m
    · exact List.mem_cons.2 (Or.inl (List.mem_singleton.1 m))

theorem IsMarks.inked (h : IsMarks t) : ∀ c ∈ t, isBlank c = false := by
  have all : ∀ c ∈ ['?', '[', ']'], isBlank c = false := not_kind_of_all (by decide)
  exact fun c m => all c (h.mem c m)

def EndsInked (t : Text) : Prop :=
  ∀ c, t.getLast? = some c → isBlank c = false

theorem endsInked_of_inked (h : ∀ c ∈ t, isBlank c = false) : EndsInked t :=
  fun c last => h c (List.mem_of_getLast? last)

theorem EndsInked.append {s : Text} (hs : EndsInked s) (ht : EndsInked t) : EndsInked (s ++ t) := by
  intro c last
  rw [List.getLast?_append, Option.or_eq_some_iff] at last
  rcases last with last | ⟨-, last⟩
  · exact ht c last
  · exact hs c last

theorem EndsInked.after (h : EndsInked t) (some_ : t ≠ []) (s : Text) : EndsInked (s ++ t) := by
  rwa [EndsInked, List.getLast?_append_of_ne_nil s some_]

theorem endsInked_of_isIdent {w : Text} (h : IsIdent w) : EndsInked w :=
  endsInked_of_inked (inked_of_isIdent h)

theorem IsArguments.endsInked (h : IsArguments t) : EndsInked t := by
  obtain ⟨gap, inner, rfl, -, -, -⟩ := h
  intro c last
  obtain rfl : '>' = c := by
    rw [← List.cons_append, ← List.append_assoc, List.getLast?_append] at last
    exact Option.some.inj last
  decide

theorem IsType.endsInked (h : IsType t) : EndsInked t := by
  obtain ⟨name, args, marks, rfl, hn, ha, hm⟩ := h
  refine (endsInked_of_inked fun c m => inked_of_isDotted (hn.dotted c m)).append ?_
  refine EndsInked.append ?_ (endsInked_of_inked hm.inked)
  rcases ha with rfl | ha
  · exact endsInked_of_inked (by simp)
  · exact ha.endsInked

theorem IsType.ne_nil (h : IsType t) : t ≠ [] := by
  obtain ⟨_, args, marks, rfl, ⟨c, more, rfl, -, -⟩, -, -⟩ := h
  exact List.cons_ne_nil c _

theorem IsDotted.startsInked (h : IsDotted t) (u : Text) : StartsInked (t ++ u) := by
  obtain ⟨c, more, rfl, start, -⟩ := h
  exact startsInked_cons (isBlank_of_isWord (isWord_of_isIdentStart start)) _

theorem IsType.startsInked (h : IsType t) (u : Text) : StartsInked (t ++ u) := by
  obtain ⟨name, args, marks, rfl, hn, -, -⟩ := h
  rw [List.append_assoc]
  exact hn.startsInked _

theorem IsType.inked (h : IsType t) : StartsInked t := by
  simpa using h.startsInked []

theorem Modifiers.startsInked (h : Modifiers t) {u : Text} (hu : StartsInked u) :
    StartsInked (t ++ u) := by
  cases h with
  | nil => exact hu
  | cons word =>
      rw [List.append_assoc]
      exact word.isIdent.startsInked _

theorem Modifiers.inked (h : Modifiers t) : StartsInked t := by
  have nothing : StartsInked [] := fun _ head => nomatch head
  simpa using h.startsInked nothing

theorem Named.startsInked (h : Named t p) (u : Text) : StartsInked (t ++ u) := by
  cases h with
  | intro modifiers type =>
      rw [List.append_assoc, List.append_assoc]
      exact modifiers.startsInked (type.startsInked _)

theorem IsAccessors.endsInked (h : IsAccessors t) : EndsInked t := by
  obtain ⟨a, b, c, rfl, -, -, -⟩ := h
  have closed : EndsInked ['}'] := endsInked_of_inked (not_kind_of_all (by decide))
  simpa using closed.after (List.cons_ne_nil _ _)
    ('{' :: (a ++ ("get;".toList ++ (b ++ ("set;".toList ++ c)))))

theorem Declares.endsInked (h : Declares t p) : EndsInked t := by
  cases h with
  | @intro lead gap named accessors _ _ _ _ ha =>
      have some_ : accessors ≠ [] := by
        obtain ⟨a, b, c, rfl, -⟩ := ha
        exact List.cons_ne_nil _ _
      simp only [← List.append_assoc]
      exact ha.endsInked.after some_ _

/-! Up to its accessors a declaration has characters of type arguments only, so its opening brace is the
first one. -/

theorem argument_of_blank (h : isBlankText t = true) : ∀ c ∈ t, isArgument c = true := by
  intro c m
  rw [isArgument, isBlankText_iff.1 h c m, Bool.or_true, Bool.true_or]

theorem argument_of_word {c : Char} (h : isWord c = true) : isArgument c = true := by
  rw [isArgument, h, Bool.true_or, Bool.true_or]

theorem argument_of_dotted {c : Char} (h : isDotted c = true) : isArgument c = true := by
  rw [isDotted, Bool.or_eq_true, beq_iff_eq] at h
  rcases h with word | rfl
  · exact argument_of_word word
  · decide

theorem IsArguments.argument (h : IsArguments t) : ∀ c ∈ t, isArgument c = true := by
  obtain ⟨gap, inner, rfl, hg, -, hi⟩ := h
  refine List.forall_mem_append.2 ⟨argument_of_blank hg, List.forall_mem_cons.2 ⟨by decide, ?_⟩⟩
  exact List.forall_mem_append.2 ⟨hi, List.all_eq_true.1 (by decide)⟩

theorem IsMarks.argument (h : IsMarks t) : ∀ c ∈ t, isArgument c = true := by
  have all : ∀ c ∈ ['?', '[', ']'], isArgument c = true := List.all_eq_true.1 (by decide)
  exact fun c m => all c (h.mem c m)

theorem IsType.argument (h : IsType t) : ∀ c ∈ t, isArgument c = true := by
  obtain ⟨name, args, marks, rfl, hn, ha, hm⟩ := h
  refine List.forall_mem_append.2 ⟨fun c m => argument_of_dotted (hn.dotted c m), ?_⟩
  refine List.forall_mem_append.2 ⟨?_, hm.argument⟩
  rcases ha with rfl | ha
  · exact fun c m => nomatch m
  · exact ha.argument

theorem Modifiers.argument (h : Modifiers t) : ∀ c ∈ t, isArgument c = true := by
  induction h with
  | nil => exact fun c m => nomatch m
  | cons word gap _ ih =>
      exact List.forall_mem_append.2 ⟨fun c m => argument_of_word (word.isIdent.words c m),
        List.forall_mem_append.2 ⟨argument_of_blank gap.2, ih⟩⟩

theorem Named.argument (h : Named t p) : ∀ c ∈ t, isArgument c = true := by
  cases h with
  | intro modifiers type gap name behind =>
      simp only [List.forall_mem_append]
      exact ⟨modifiers.argument, type.argument, argument_of_blank gap.2,
        fun c m => argument_of_word (name.words c m), argument_of_blank behind⟩

/-! ## One declaration at most -/

/-- A dotted name ends where white space follows. -/
theorem notDotted_of_gap {gap : Text} (h : IsGap gap) (u : Text) :
    ∀ c, (gap ++ u).head? = some c → isDotted c = false := by
  intro c head
  rw [List.head?_append_of_ne_nil gap h.1] at head
  have blank := isBlankText_iff.1 h.2 c (List.mem_of_mem_head? head)
  refine Bool.eq_false_iff.2 fun dotted => ?_
  rw [inked_of_isDotted dotted] at blank
  cases blank

/-- A dotted name ends where type arguments or marks follow. -/
theorem notDotted_of_marks {args marks : Text} (ha : args = [] ∨ IsArguments args)
    (hm : IsMarks marks) : ∀ c, (args ++ marks).head? = some c → isDotted c = false := by
  rcases ha with rfl | ⟨gap, inner, rfl, hg, -, -⟩
  · have all : ∀ c ∈ ['?', '[', ']'], isDotted c = false := not_kind_of_all (by decide)
    exact fun c head => all c (hm.mem c (List.mem_of_mem_head? head))
  · by_cases none_ : gap = []
    · subst none_
      rintro c ⟨⟩
      decide
    · rw [List.append_assoc]
      exact notDotted_of_gap ⟨none_, hg⟩ _

/-- Behind modifiers a type begins with a letter. -/
theorem Modifiers.head (h : Modifiers t) {type : Text} (ht : IsType type) :
    ∃ c rest, t ++ type = c :: rest ∧ isIdentStart c = true := by
  cases h with
  | nil =>
      obtain ⟨_, args, marks, rfl, ⟨c, more, rfl, start, -⟩, -, -⟩ := ht
      exact ⟨c, _, rfl, start⟩
  | cons word =>
      obtain ⟨c, more, rfl, start, -⟩ := word.isIdent
      exact ⟨c, _, rfl, start⟩

/-- A type called like a modifier goes on with arguments or marks, not with a word. -/
theorem not_isType_modified {word gap more type : Text} (hw : IsModifier word) (hg : IsGap gap)
    (hm : Modifiers more) (ht : IsType type) : ¬ IsType (word ++ (gap ++ (more ++ type))) := by
  rintro ⟨name, args, marks, e, hn, ha, hk⟩
  obtain ⟨c, rest, starts, start⟩ := hm.head ht
  rw [starts] at e
  -- the modifier is the dotted name of the type, since dotted characters end behind both
  obtain ⟨-, behind⟩ := append_inj_of_kind e (dotted_of_isIdent hw.isIdent) hn.dotted
    (notDotted_of_gap hg _) (notDotted_of_marks ha hk)
  rcases ha with rfl | ⟨gap', inner, rfl, hg', -, -⟩
  · obtain ⟨d, gap, rfl⟩ := List.exists_cons_of_ne_nil hg.1
    have inked := hk.inked d (by rw [List.nil_append] at behind; simp [← behind])
    exact not_mem_of_isBlankText hg.2 inked List.mem_cons_self
  · rw [List.append_assoc] at behind
    obtain ⟨-, same⟩ := blank_append_inj behind hg.2 hg'
      (startsInked_cons (isBlank_of_isWord (isWord_of_isIdentStart start)) _)
      (startsInked_cons (by decide) _)
    obtain ⟨rfl, -⟩ := List.cons.inj same
    revert start
    decide

/-- Modifiers and the type behind them come apart in one way. -/
theorem modifiers_append_inj {m m' type type' : Text} (e : m ++ type = m' ++ type')
    (hm : Modifiers m) (hm' : Modifiers m') (ht : IsType type) (ht' : IsType type') :
    type = type' := by
  -- a modifier on one side cannot stand against the type on the other
  induction hm generalizing m' with
  | nil =>
      cases hm' with
      | nil => exact e
      | @cons word gap more hw hg hmore =>
          rw [List.nil_append, List.append_assoc, List.append_assoc] at e
          exact absurd (e ▸ ht) (not_isType_modified hw hg hmore ht')
  | @cons word gap more hw hg hmore ih =>
      rw [List.append_assoc, List.append_assoc] at e
      cases hm' with
      | nil =>
          rw [List.nil_append] at e
          exact absurd (e ▸ ht') (not_isType_modified hw hg hmore ht)
      | @cons word' gap' more' hw' hg' hmore' =>
          rw [List.append_assoc, List.append_assoc] at e
          obtain ⟨-, e⟩ := word_append_inj e hw.isIdent hw'.isIdent (hg.endsWord _) (hg'.endsWord _)
          obtain ⟨-, e⟩ := blank_append_inj e hg.2 hg'.2 (hmore.startsInked ht.inked)
            (hmore'.startsInked ht'.inked)
          exact ih e hmore'

/-- A word begins where white space ends. -/
theorem notWord_of_gap {gap : Text} (h : IsGap gap) (s : Text) :
    ∀ c, (s ++ gap).getLast? = some c → isWord c = false := by
  intro c last
  rw [List.getLast?_append_of_ne_nil s h.1] at last
  exact isWord_of_isBlank (isBlankText_iff.1 h.2 c (List.mem_of_getLast? last))

/-- The parts come off from the right, down to the modifiers and the type. -/
theorem Named.determined (h : Named t p) (h' : Named t q) : p = q := by
  generalize e : t = t' at h'
  cases h with
  | @intro m type gap name behind hm ht hg hn hb =>
      cases h' with
      | @intro m' type' gap' name' behind' hm' ht' hg' hn' hb' =>
          simp only [← List.append_assoc] at e
          obtain ⟨named, -⟩ := append_inj_of_kind_right e (isBlankText_iff.1 hb) (isBlankText_iff.1 hb')
            ((endsInked_of_isIdent hn).after hn.ne_nil _) ((endsInked_of_isIdent hn').after hn'.ne_nil _)
          obtain ⟨spaced, rfl⟩ := append_inj_of_kind_right named hn.words hn'.words (notWord_of_gap hg _)
            (notWord_of_gap hg' _)
          obtain ⟨typed, -⟩ := append_inj_of_kind_right spaced (isBlankText_iff.1 hg.2)
            (isBlankText_iff.1 hg'.2) (ht.endsInked.after ht.ne_nil _) (ht'.endsInked.after ht'.ne_nil _)
          rw [modifiers_append_inj typed hm hm' ht ht']

/-- A text starts with declarations of one property at most. -/
theorem Declares.determined {d d' rest' : Text} (e : d ++ rest = d' ++ rest') (h : Declares d p)
    (h' : Declares d' q) : p = q := by
  cases h with
  | @intro lead gap named accessors _ hl hg hn ha =>
      cases h' with
      | @intro lead' gap' named' accessors' _ hl' hg' hn' ha' =>
          simp only [List.append_assoc] at e
          obtain ⟨-, e⟩ := blank_append_inj e hl hl' (startsInked_cons (by decide) _)
            (startsInked_cons (by decide) _)
          obtain ⟨-, e⟩ := blank_append_inj (List.append_cancel_left e) hg.2 hg'.2 (hn.startsInked _)
            (hn'.startsInked _)
          -- the braces that open the accessors are the first ones on both sides
          obtain ⟨a, b, c, rfl, -, -, -⟩ := ha
          obtain ⟨a', b', c', rfl, -, -, -⟩ := ha'
          have brace {t : Text} : ∀ c, ('{' :: t).head? = some c → isArgument c = false := by
            rintro c ⟨⟩
            decide
          obtain ⟨rfl, -⟩ := append_inj_of_kind e hn.argument hn'.argument brace brace
          exact hn.determined hn'

/-! ## The property of a line -/

theorem trim_of_inked (front : StartsInked t) (back : EndsInked t) : trim t = t := by
  have start : trimStart t = t := by
    cases t with
    | nil => rfl
    | cons c t => exact trimStart_gap isBlankText_nil (front c rfl) t
  rw [trim, start]
  rcases last : t.getLast? with _ | c
  · rw [List.getLast?_eq_none_iff.1 last]
    rfl
  · exact trimEnd_of_last last (back c last)

theorem EndsInked.squeeze (h : EndsInked t) : EndsInked (squeeze t) := by
  rcases List.eq_nil_or_concat t with rfl | ⟨front, c, rfl⟩
  · exact h
  · rw [List.concat_eq_append] at h ⊢
    have inked : isBlank c = false := h c (by simp)
    rw [squeeze_append (Or.inr (startsInked_cons inked _)), squeeze_cons_inked inked]
    exact (endsInked_of_inked (t := [c]) (by simpa using inked)).after (List.cons_ne_nil c []) _

/-- A type is not trimmed. -/
theorem IsType.trim_squeeze (h : IsType t) : trim (squeeze t) = squeeze t := by
  refine trim_of_inked ?_ h.endsInked.squeeze
  obtain ⟨_, args, marks, rfl, ⟨c, more, rfl, start, -⟩, -, -⟩ := h
  have inked := isBlank_of_isWord (isWord_of_isIdentStart start)
  rw [List.cons_append, squeeze_cons_inked inked]
  exact startsInked_cons inked _

theorem mem_declaration : (p, rest) ∈ declaration t ↔ ∃ d, t = d ++ rest ∧ Declares d p := by
  simp only [declaration, mem_bind, mem_bind (r := star modifier), exists_unit, mem_literal,
    mem_blanks1, mem_blanks, mem_identifier, mem_typeText, mem_pure]
  constructor
  · rintro ⟨_, ⟨lead, rfl, hl⟩, _, rfl, _, ⟨gap, rfl, hg⟩, values, _, found, type, _, ⟨rfl, ht⟩, _,
      ⟨between, rfl, hb⟩, name, _, ⟨rfl, hn⟩, _, ⟨behind, rfl, hd⟩, _, rfl, _, ⟨a, rfl, ha⟩, _, rfl, _,
      ⟨b, rfl, hb'⟩, _, rfl, _, ⟨c, rfl, hc⟩, _, rfl, rfl, rfl⟩
    obtain ⟨m, rfl, hm⟩ := mem_star_modifier.1 ⟨values, found⟩
    rw [ht.trim_squeeze]
    exact ⟨_, by simp, .intro hl hg (.intro hm ht hb hn hd) ⟨a, b, c, rfl, ha, hb', hc⟩⟩
  · rintro ⟨_, rfl, h⟩
    cases h with
    | @intro lead gap named accessors _ hl hg hn ha =>
        cases hn with
        | @intro m type between name behind hm ht hb hn hd =>
            obtain ⟨a, b, c, rfl, ha, hb', hc⟩ := ha
            obtain ⟨values, found⟩ := mem_star_modifier.2 ⟨m, rfl, hm⟩
            simp only [List.append_assoc, List.cons_append, List.nil_append]
            refine ⟨_, ⟨lead, rfl, hl⟩, _, rfl, _, ⟨gap, rfl, hg⟩, values, _, found, type, _,
              ⟨rfl, ht⟩, _, ⟨between, rfl, hb⟩, name, _, ⟨rfl, hn⟩, _, ⟨behind, rfl, hd⟩, _, rfl, _,
              ⟨a, rfl, ha⟩, _, rfl, _, ⟨b, rfl, hb'⟩, _, rfl, _, ⟨c, rfl, hc⟩, rest, rfl, ?_, rfl⟩
            rw [ht.trim_squeeze]

/-- The property declared on a line is the one the grammar gives. -/
theorem parse?_eq_some {line : Text} :
    parse? line = some p ↔ ∃ d rest, line = d ++ rest ∧ Declares d p := by
  have read : parse? line = some p ↔ ∃ rest, first? declaration line = some (p, rest) := by
    simp [parse?]
  rw [read]
  constructor
  · rintro ⟨rest, found⟩
    obtain ⟨d, parts, h⟩ := mem_declaration.1 (mem_of_first? found)
    exact ⟨d, rest, parts, h⟩
  · rintro ⟨d, rest, parts, h⟩
    have member : (p, rest) ∈ declaration line := mem_declaration.2 ⟨d, parts, h⟩
    -- the first reading may be another one, but it declares the same property
    obtain ⟨⟨q, left⟩, more, e⟩ := List.exists_cons_of_ne_nil (List.ne_nil_of_mem member)
    obtain ⟨d', parts', h'⟩ := mem_declaration.1 (e ▸ List.mem_cons_self : (q, left) ∈ declaration line)
    obtain rfl := h.determined (parts ▸ parts') h'
    exact ⟨left, first?_of_cons e⟩

end Property

end Regraft
