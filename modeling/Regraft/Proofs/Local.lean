import Regraft.Proofs.Reader
import Regraft.Proofs.Text.Cut

/-!
# Regraft.Proofs.Local -- readers that stop before a place

A reader is local to a place when it reads in front of the place as it would with the text ending
there (`Local`).  Literals and classes are local to a place whose first character they do not have,
and sequences, choices and repetitions of local readers are local.  A walk with a local reader comes
apart at the place (`cuts_append_of_local`).
-/

namespace Regraft.Reader

set_option autoImplicit false

variable {α β : Type} {stop : Text}

/-- A reader reads in front of a text as if there were nothing. -/
def Local (stop : Text) (r : Reader α) : Prop :=
  ∀ t, r (t ++ stop) = (r t).map fun p => (p.1, p.2 ++ stop)

theorem local_pure (a : α) : Local stop (pure a : Reader α) := fun _ => rfl

theorem local_bind {r : Reader α} {f : α → Reader β} (hr : Local stop r)
    (hf : ∀ a, Local stop (f a)) : Local stop (r >>= f) := by
  intro t
  have e : (r >>= f) (t ++ stop) = ((r t).map fun p => (p.1, p.2 ++ stop)).flatMap
      fun p => f p.1 p.2 := by
    rw [← hr t]
    rfl
  rw [e, List.flatMap_map]
  simp only [hf _ _]
  exact (List.map_flatMap ..).symm

theorem local_orElse {r s : Reader α} (hr : Local stop r) (hs : Local stop s) :
    Local stop (orElse r s) := by
  intro t
  rw [orElse, hr t, hs t, orElse, List.map_append]

/-- A literal that does not reach over the place is read in front of it or not at all. -/
theorem local_literal_of_ends {needle : Text}
    (apart : ∀ back, back ≠ [] → back <:+ needle → ¬ back <+: stop) :
    Local stop (literal needle) := by
  intro t
  cases e : Text.after? needle t with
  | some rest =>
      obtain rfl := Text.after?_eq_some.1 e
      simp only [literal, e, List.append_assoc, Text.after?_append, List.map_cons, List.map_nil]
  | none =>
      have absent : Text.after? needle (t ++ stop) = none := by
        cases e' : Text.after? needle (t ++ stop) with
        | none => rfl
        | some rest =>
            rcases List.append_eq_append_iff.1 (Text.after?_eq_some.1 e') with
              ⟨back, rfl, tails⟩ | ⟨more, rfl, -⟩
            · cases back with
              | nil =>
                  have whole := Text.after?_append t []
                  rw [List.append_nil] at e whole
                  rw [whole] at e
                  cases e
              | cons c back =>
                  exact absurd ⟨rest, tails.symm⟩
                    (apart (c :: back) (by simp) (List.suffix_append ..))
            · rw [Text.after?_append] at e
              cases e
      simp only [literal, e, absent, List.map_nil]

theorem local_literal {needle : Text} (apart : ∀ c ∈ needle, stop.head? ≠ some c) :
    Local stop (literal needle) := by
  refine local_literal_of_ends fun back some_ suffix stands => ?_
  cases back with
  | nil => exact some_ rfl
  | cons c back =>
      obtain ⟨rest, rfl⟩ := stands
      exact apart c (suffix.subset List.mem_cons_self) rfl

theorem local_one {kind : Char → Bool} (apart : ∀ c, stop.head? = some c → kind c = false) :
    Local stop (one kind) := by
  intro t
  cases t with
  | nil =>
      cases stop with
      | nil => rfl
      | cons c stop => simp [one, apart c rfl]
  | cons c t =>
      simp only [List.cons_append, one]
      split <;> rfl

theorem local_many {kind : Char → Bool} (apart : ∀ c, stop.head? = some c → kind c = false) :
    Local stop (many kind) := by
  intro t
  induction t with
  | nil =>
      cases stop with
      | nil => rfl
      | cons c stop => simp [many_cons, many_nil, apart c rfl]
  | cons c t ih =>
      rw [List.cons_append, many_cons, many_cons, ih]
      split <;> simp [Function.comp_def]

theorem local_skip {kind : Char → Bool} (apart : ∀ c, stop.head? = some c → kind c = false) :
    Local stop (skip kind) := by
  have e (t : Text) : skip kind t = (many kind t).map fun p => ((), p.2) := by
    simp [skip, many, Function.comp_def]
  intro t
  rw [e, e, local_many apart t, List.map_map, List.map_map]
  rfl

theorem local_star {r : Reader α} (hr : Local stop r) : Local stop (star r) := by
  intro t
  induction length : t.length using Nat.strongRecOn generalizing t with
  | ind n ih =>
      rw [star_eq, star_eq, hr t, List.flatMap_map, List.map_append, List.map_flatMap]
      congr 2
      funext p
      simp only [List.length_append, Nat.add_lt_add_iff_right]
      split
      · rename_i shorter
        rw [ih p.2.length (by omega) p.2 rfl, List.map_map, List.map_map]
        rfl
      · rfl

theorem local_blanks (apart : ∀ c, stop.head? = some c → Text.isBlank c = false) :
    Local stop blanks :=
  local_skip apart

theorem local_blanks1 (apart : ∀ c, stop.head? = some c → Text.isBlank c = false) :
    Local stop blanks1 :=
  local_bind (local_one apart) fun _ => local_blanks apart

theorem local_ident (apart : ∀ c, stop.head? = some c → Text.isWord c = false)
    (apartStart : ∀ c, stop.head? = some c → Text.isIdentStart c = false) : Local stop ident :=
  local_bind (local_one apartStart) fun _ => local_bind (local_many apart) fun _ => local_pure _

theorem local_lineEnd (apart : ∀ e, IsLineEnd e → ¬ e <+: stop) : Local stop lineEnd := by
  have ends : ∀ e, IsLineEnd e → ∀ back, back ≠ [] → back <:+ e → ¬ back <+: stop := by
    rintro e (rfl | rfl) back some_ suffix
    · rcases List.suffix_cons_iff.1 suffix with rfl | suffix
      · exact apart _ (Or.inl rfl)
      · rcases List.suffix_cons_iff.1 suffix with rfl | suffix
        · exact apart _ (Or.inr rfl)
        · exact absurd (List.suffix_nil.1 suffix) some_
    · rcases List.suffix_cons_iff.1 suffix with rfl | suffix
      · exact apart _ (Or.inr rfl)
      · exact absurd (List.suffix_nil.1 suffix) some_
  exact local_orElse
    (local_bind (local_literal_of_ends (ends _ (Or.inl rfl))) fun _ => local_pure _)
    (local_bind (local_literal_of_ends (ends _ (Or.inr rfl))) fun _ => local_pure _)

/-! ## Values -/

/-- All values of a reader have a property. -/
def Yields (p : α → Prop) (r : Reader α) : Prop :=
  ∀ t x, x ∈ r t → p x.1

theorem yields_pure {p : α → Prop} {a : α} (h : p a) : Yields p (pure a : Reader α) := by
  rintro t ⟨b, rest⟩ m
  rw [(mem_pure.1 m).1]
  exact h

theorem yields_bind {q : α → Prop} {p : β → Prop} {r : Reader α} {f : α → Reader β}
    (hr : Yields q r) (hf : ∀ a, q a → Yields p (f a)) : Yields p (r >>= f) := by
  rintro t ⟨b, rest⟩ m
  obtain ⟨a, mid, first, second⟩ := mem_bind.1 m
  exact hf a (hr t _ first) mid _ second

theorem yields_then {p : β → Prop} {r : Reader α} {f : α → Reader β}
    (hf : ∀ a, Yields p (f a)) : Yields p (r >>= f) :=
  yields_bind (q := fun _ => True) (fun _ _ _ => trivial) fun a _ => hf a

/-! ## Ends -/

theorem suffixed_star {r : Reader α} (hr : Suffixed r) : Suffixed (star r) := by
  intro t p m
  induction length : t.length using Nat.strongRecOn generalizing t p with
  | ind n ih =>
      obtain ⟨values, rest⟩ := p
      rcases mem_star.1 m with ⟨-, rfl⟩ | ⟨a, mid, more, found, shorter, later, rfl⟩
      · exact List.suffix_refl _
      · exact (ih mid.length (by omega) mid (more, rest) later rfl).trans (hr t (a, mid) found)

theorem suffixed_blanks1 : Suffixed blanks1 :=
  suffixed_bind (suffixed_one _) fun _ => suffixed_skip _

theorem suffixed_ident : Suffixed ident :=
  suffixed_bind (suffixed_one _) fun _ => suffixed_bind (suffixed_many _) fun _ => suffixed_pure _

/-! ## Walking -/

/-- Where a reader does not look back, the character before the text does not matter. -/
theorem cuts_const (r : Reader α) (before before' : Option Char) (t : Text) :
    cuts (fun _ => r) before t = cuts (fun _ => r) before' t := by
  cases t with
  | nil => rw [cuts_nil, cuts_nil]
  | cons c t => rw [cuts, cuts]

/-- What a hit took was read somewhere. -/
theorem mem_cuts_hit {r : Option Char → Reader α} (ends : ∀ before, Suffixed (r before))
    {before : Option Char} {t taken : Text} {a : α} (m : Piece.hit taken a ∈ cuts r before t) :
    taken ≠ [] ∧ ∃ b rest, (a, rest) ∈ r b (taken ++ rest) ∧ taken ++ rest <:+ t := by
  fun_induction cuts r before t with
  | case1 => simp at m
  | case2 before c t none_ ih =>
      rcases List.mem_cons.1 m with e | m
      · cases e
      · obtain ⟨some_, b, rest, read, suffix⟩ := ih m
        exact ⟨some_, b, rest, read, suffix.trans (List.suffix_cons ..)⟩
  | case3 before c t a' rest' found shorter front ih =>
      have read : (a', rest') ∈ r before (c :: t) := mem_of_first? found
      obtain ⟨h, e⟩ := ends before (c :: t) (a', rest') read
      have e' : front = h := by
        rw [show front = Text.taken (c :: t) rest' from rfl, ← e, Text.taken_append]
      rcases List.mem_cons.1 m with hit | m
      · obtain ⟨rfl, rfl⟩ := Piece.hit.inj hit
        rw [← e, ← e'] at read
        refine ⟨fun none_ => ?_, before, rest', read, ⟨[], by rw [List.nil_append, e', e]⟩⟩
        rw [← e, ← e', none_, List.nil_append] at shorter
        exact Nat.lt_irrefl _ shorter
      · obtain ⟨some_, b, rest, read, suffix⟩ := ih m
        exact ⟨some_, b, rest, read, suffix.trans ⟨h, e⟩⟩
  | case4 before c t a' rest' found longer ih =>
      rcases List.mem_cons.1 m with e | m
      · cases e
      · obtain ⟨some_, b, rest, read, suffix⟩ := ih m
        exact ⟨some_, b, rest, read, suffix.trans (List.suffix_cons ..)⟩

/-- A walk that takes nothing out finds nothing. -/
theorem silent_of_leftFrom {r : Option Char → Reader α} (ends : ∀ before, Suffixed (r before))
    (consuming : Consuming r) {before : Option Char} {t : Text} (same : leftFrom r before t = t) :
    SilentBefore r before t [] := by
  refine silent_of_cuts consuming fun p m => ?_
  cases p with
  | plain c => exact ⟨c, rfl⟩
  | hit taken a =>
      exfalso
      obtain ⟨some_, -⟩ := mem_cuts_hit ends m
      obtain ⟨front, more, parts⟩ := List.append_of_mem m
      have shorter (pieces : List (Piece α)) :
          (pieces.flatMap Piece.kept).length ≤ (pieces.flatMap Piece.text).length := by
        induction pieces with
        | nil => exact Nat.le_refl 0
        | cons p pieces ih =>
            have here : p.kept.length ≤ p.text.length := by cases p <;> simp [Piece.kept, Piece.text]
            rw [List.flatMap_cons, List.flatMap_cons, List.length_append, List.length_append]
            omega
      have whole := congrArg List.length (same.trans (cuts_text ends before t).symm)
      have long := List.length_pos_iff.2 some_
      have inFront := shorter front
      have behind := shorter more
      simp only [leftFrom, parts, List.flatMap_append, List.flatMap_cons, Piece.kept, Piece.text,
        List.length_append, List.length_nil] at whole
      omega

/-- Between whole lines and a text that lengthens every reading, nothing is found where nothing is
found in the whole. -/
theorem silent_between {r : Option Char → Reader α} {s t tail : Text}
    (silent : SilentBefore r none (s ++ t ++ tail) []) (start : Text.AtLineStart s)
    (lengthens : ∀ before before' u, before' = before ∨ before = none ∧ before' = some '\n' →
      r before u ≠ [] → r before' (u ++ tail) ≠ []) : SilentBefore r none t [] := by
  intro front c back e
  have here := silent (s ++ front) c (back ++ tail) (by rw [e]; simp)
  have edge : (s ++ front).getLast?.or none = front.getLast?.or none ∨
      front.getLast?.or none = none ∧ (s ++ front).getLast?.or none = some '\n' := by
    rw [List.getLast?_append, Option.or_none, Option.or_none]
    cases front.getLast? with
    | some d => exact Or.inl rfl
    | none =>
        rcases start with rfl | feed
        · exact Or.inl rfl
        · exact Or.inr ⟨rfl, by rw [feed]; rfl⟩
  rw [List.append_nil] at here ⊢
  cases readings : r (front.getLast?.or none) (c :: back) with
  | nil => rfl
  | cons p more => exact absurd here (lengthens _ _ _ edge (by rw [readings]; simp))

/-- The walk of a local reader comes apart at the place. -/
theorem cuts_append_of_local {r : Reader α} (hr : Local stop r) (before : Option Char) (t : Text) :
    cuts (fun _ => r) before (t ++ stop) =
      cuts (fun _ => r) before t ++ cuts (fun _ => r) none stop := by
  induction length : t.length using Nat.strongRecOn generalizing before t with
  | ind n ih =>
      cases t with
      | nil => rw [List.nil_append, cuts_nil, List.nil_append, cuts_const]
      | cons c t =>
          have same := hr (c :: t)
          rw [List.cons_append] at same ⊢
          have first (p : α × Text) (h : first? r (c :: t) = some p) :
              first? r (c :: (t ++ stop)) = some (p.1, p.2 ++ stop) := by
            rw [first?, same, List.head?_map, ← first?, h]
            rfl
          cases found : first? r (c :: t) with
          | none =>
              have here : r (c :: t) = [] := first?_eq_none.1 found
              have there : r (c :: (t ++ stop)) = [] := by rw [same, here]; rfl
              rw [cuts_plain (r := fun _ => r) here, cuts_plain (r := fun _ => r) there,
                ih t.length (by simp at length; omega) (some c) t rfl]
              rfl
          | some p =>
              have found' := first p found
              by_cases shorter : p.2.length < (c :: t).length
              · have shorter' : (p.2 ++ stop).length < (c :: (t ++ stop)).length := by
                  simp only [List.length_append, List.length_cons] at shorter ⊢
                  omega
                have taken : Text.taken (c :: (t ++ stop)) (p.2 ++ stop) =
                    Text.taken (c :: t) p.2 := by
                  rw [Text.taken, Text.taken, ← List.cons_append, List.length_append,
                    List.length_append, Nat.add_sub_add_right,
                    List.take_append_of_le_length (Nat.sub_le ..)]
                rw [cuts_hit (r := fun _ => r) found shorter,
                  cuts_hit (r := fun _ => r) found' shorter', taken,
                  ih p.2.length (by omega) _ p.2 rfl]
                rfl
              · have longer : ¬ (p.2 ++ stop).length < (c :: (t ++ stop)).length := by
                  simp only [List.length_append, List.length_cons] at shorter ⊢
                  omega
                rw [cuts, cuts, found, found']
                simp only [shorter, longer, dif_neg, not_false_eq_true]
                rw [ih t.length (by simp at length; omega) (some c) t rfl]
                rfl

end Regraft.Reader
