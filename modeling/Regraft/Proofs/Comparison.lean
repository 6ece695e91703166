import Mathlib.Algebra.Ring.Nat
import Regraft.ChangeSet

/-!
# Regraft.Proofs.Comparison -- what a report of differences says

Two tables hold the same values by name exactly if nothing differs between them
(`between_isEmpty`), whatever the order of their names; so a report without changes means that no name
came or went and no table of a common name differs.  The lists of names in a report are in strictly
increasing order of code points.
-/

namespace Regraft

set_option autoImplicit false

namespace Text

/-! ## The order of texts -/

theorem le_trans {a b c : Text} (ab : le a b = true) (bc : le b c = true) : le a c = true := by
  induction a generalizing b c with
  | nil => rfl
  | cons x a ih =>
      cases b with
      | nil => cases ab
      | cons y b =>
          cases c with
          | nil => cases bc
          | cons z c =>
              unfold le at ab bc ⊢
              simp only [Bool.or_eq_true, decide_eq_true_eq, Bool.and_eq_true, beq_iff_eq] at ab bc ⊢
              rcases ab with xy | ⟨rfl, ab⟩
              · rcases bc with yz | ⟨rfl, -⟩
                · exact .inl (by omega)
                · exact .inl xy
              · rcases bc with yz | ⟨rfl, bc⟩
                · exact .inl yz
                · exact .inr ⟨rfl, ih ab bc⟩

theorem le_total (a b : Text) : (le a b || le b a) = true := by
  induction a generalizing b with
  | nil => rfl
  | cons x a ih =>
      cases b with
      | nil => rfl
      | cons y b =>
          have inner := ih b
          unfold le
          simp only [Bool.or_eq_true, decide_eq_true_eq, Bool.and_eq_true, beq_iff_eq] at inner ⊢
          rcases Nat.lt_trichotomy x.toNat y.toNat with less | same | more
          · exact .inl (.inl less)
          · have same : x = y := Char.toNat_inj.1 same
            subst same
            rcases inner with ab | ba
            · exact .inl (.inr ⟨rfl, ab⟩)
            · exact .inr (.inr ⟨rfl, ba⟩)
          · exact .inr (.inl more)

def Increasing (ts : List Text) : Prop :=
  ts.Pairwise fun a b => le a b = true ∧ a ≠ b

theorem nodup_eraseDups (ts : List Text) : ts.eraseDups.Nodup := by
  induction size : ts.length using Nat.strongRecOn generalizing ts with
  | _ n ih =>
      cases ts with
      | nil => exact List.nodup_nil
      | cons t more =>
          rw [List.eraseDups_cons, List.nodup_cons]
          refine ⟨?_, ih _ ?_ _ rfl⟩
          · rw [List.mem_eraseDups, List.mem_filter]
            simp
          · have shorter := List.length_filter_le (fun b => !b == t) more
            simp only [List.length_cons] at size
            omega

theorem mem_sortedSet {t : Text} {ts : List Text} : t ∈ sortedSet ts ↔ t ∈ ts := by
  unfold sortedSet
  rw [List.mem_mergeSort, List.mem_eraseDups]

theorem increasing_sortedSet (ts : List Text) : Increasing (sortedSet ts) := by
  have ordered : (sortedSet ts).Pairwise fun a b => le a b = true :=
    List.pairwise_mergeSort (fun a b c => @le_trans a b c) le_total ts.eraseDups
  have distinct : (sortedSet ts).Nodup :=
    (List.mergeSort_perm ts.eraseDups le).nodup_iff.2 (nodup_eraseDups ts)
  exact ordered.and distinct

end Text

/-! ## Tables -/

namespace Table

variable {α : Type} {t : Table α} {name : Text}

theorem mem_of_get? {a : α} (found : t.get? name = some a) : (name, a) ∈ t := by
  induction t with
  | nil => cases found
  | cons e more ih =>
      obtain ⟨n, b⟩ := e
      unfold get? at found
      split at found
      · rename_i same
        cases found
        subst same
        exact List.mem_cons_self
      · exact List.mem_cons_of_mem _ (ih found)

theorem get?_isSome : (t.get? name).isSome ↔ name ∈ t.names := by
  induction t with
  | nil => simp [get?, names]
  | cons e more ih =>
      obtain ⟨n, b⟩ := e
      unfold get?
      rw [names, List.map_cons, List.mem_cons, ← names]
      by_cases same : n = name
      · simp [same]
      · rw [if_neg same, ih]
        simp [Ne.symm same]

end Table

namespace PropertyDiff

variable {old new : Table Text}

theorem onlyIn_eq_nil {t other : Table Text} :
    onlyIn t other = [] ↔ ∀ e ∈ t, (other.get? e.1).isSome := by
  unfold onlyIn
  rw [List.map_eq_nil_iff, List.filter_eq_nil_iff]
  apply forall_congr'
  intro e
  cases other.get? e.1 <;> simp

theorem retyped_eq_nil :
    retyped old new = [] ↔ ∀ e ∈ new, ∀ type, old.get? e.1 = some type → type = e.2 := by
  unfold retyped
  rw [List.filterMap_eq_nil_iff]
  apply forall_congr'
  intro e
  apply forall_congr'
  intro _
  cases old.get? e.1 with
  | none => simp
  | some type => by_cases same : type = e.2 <;> simp [same]

theorem isEmpty_iff {d : PropertyDiff} :
    d.isEmpty = true ↔ d.added = [] ∧ d.removed = [] ∧ d.changed = [] := by
  unfold isEmpty
  simp only [Bool.and_eq_true, List.isEmpty_iff, and_assoc]

/-- Nothing differs between two tables exactly if they give every name the same type, if any. -/
theorem between_isEmpty (newNodup : new.names.Nodup) :
    (between old new).isEmpty = true ↔ ∀ name, old.get? name = new.get? name := by
  rw [isEmpty_iff]
  unfold between
  dsimp only
  rw [onlyIn_eq_nil, onlyIn_eq_nil, retyped_eq_nil]
  constructor
  · rintro ⟨added, removed, changed⟩ name
    cases before : old.get? name with
    | none =>
        cases after : new.get? name with
        | none => rfl
        | some type =>
            have known := added _ (Table.mem_of_get? after)
            rw [before] at known
            cases known
    | some type =>
        have known := removed _ (Table.mem_of_get? before)
        obtain ⟨type', after⟩ := Option.isSome_iff_exists.1 known
        rw [after, changed _ (Table.mem_of_get? after) type before]
  · intro same
    refine ⟨fun e member => ?_, fun e member => ?_, fun e member type before => ?_⟩
    · rw [same]
      exact Table.get?_isSome.2 (List.mem_map_of_mem member)
    · rw [← same]
      exact Table.get?_isSome.2 (List.mem_map_of_mem member)
    · rw [same, Table.get?_of_mem newNodup member] at before
      exact (Option.some.inj before).symm

/-- Next to no properties all properties are added ones. -/
theorem between_nil (new : Table Text) :
    between [] new = ⟨new.map fun e => ⟨e.1, e.2⟩, [], []⟩ := by
  have all : new.filter (fun e => (Table.get? ([] : Table Text) e.1).isNone) = new :=
    List.filter_eq_self.2 fun _ _ => rfl
  unfold between onlyIn retyped
  rw [all]
  simp [Table.get?]

end PropertyDiff

/-! ## Reports -/

namespace NameSplit

variable {old new : List Text} {name : Text}

theorem mem_added : name ∈ (between old new).added ↔ name ∈ new ∧ name ∉ old := by
  unfold between
  rw [Text.mem_sortedSet, List.mem_filter]
  simp

theorem mem_removed : name ∈ (between old new).removed ↔ name ∈ old ∧ name ∉ new := by
  unfold between
  rw [Text.mem_sortedSet, List.mem_filter]
  simp

theorem mem_common : name ∈ (between old new).common ↔ name ∈ old ∧ name ∈ new := by
  unfold between
  rw [Text.mem_sortedSet, List.mem_filter]
  simp

end NameSplit

namespace ChangeSet

variable (c : ChangeSet)

theorem total_eq_sum (count : PropertyDiff → Nat) :
    c.total count = (c.entities.map fun e => count e.2).sum := by
  unfold total
  induction c.entities with
  | nil => rfl
  | cons e more ih =>
      rw [List.foldr_cons, ih, List.map_cons, List.sum_cons]

/-- A report is without changes exactly if no entity came or went and every diff is empty. -/
theorem hasChanges_eq_false :
    c.hasChanges = false ↔
      c.addedEntities = [] ∧ c.removedEntities = [] ∧ ∀ e ∈ c.entities, e.2.isEmpty = true := by
  have none (count : PropertyDiff → Nat) : c.total count = 0 ↔ ∀ e ∈ c.entities, count e.2 = 0 := by
    rw [total_eq_sum, List.sum_eq_zero_iff_forall_eq_nat, List.forall_mem_map]
  unfold hasChanges totalAdded totalRemoved totalChanged
  simp only [Bool.or_eq_false_iff, Bool.not_eq_false', List.isEmpty_iff, bne_eq_false_iff_eq, none,
    List.length_eq_zero_iff, PropertyDiff.isEmpty_iff, and_assoc]
  constructor
  · rintro ⟨added, removed, a, r, ch⟩
    exact ⟨added, removed, fun e member => ⟨a e member, r e member, ch e member⟩⟩
  · rintro ⟨added, removed, empty⟩
    exact ⟨added, removed, fun e member => (empty e member).1,
      fun e member => (empty e member).2.1, fun e member => (empty e member).2.2⟩

/-- A report tells in what the properties of two models differ, each model being given by the table of
properties of each of its entities. -/
structure Tells (old new : Text → Option (Table Text)) : Prop where
  /-- Nothing changed exactly if both have the same entities with the same properties. -/
  verdict : c.hasChanges = false ↔
    (∀ entity, (old entity).isSome ↔ (new entity).isSome) ∧
    ∀ entity before after, old entity = some before → new entity = some after →
      ∀ name, before.get? name = after.get? name
  addedInOrder : Text.Increasing c.addedEntities
  added : ∀ entity, entity ∈ c.addedEntities ↔ (new entity).isSome ∧ ¬(old entity).isSome
  removedInOrder : Text.Increasing c.removedEntities
  removed : ∀ entity, entity ∈ c.removedEntities ↔ (old entity).isSome ∧ ¬(new entity).isSome
  inOrder : Text.Increasing c.entities.names
  entities : ∀ entity, entity ∈ c.entities.names ↔ (new entity).isSome
  /-- An entity that came has all its properties added and nothing else. -/
  addedDiff : ∀ entity after, old entity = none → new entity = some after →
    c.entities.get? entity = some ⟨after.map fun e => ⟨e.1, e.2⟩, [], []⟩
  commonDiff : ∀ entity before after, old entity = some before → new entity = some after →
    c.entities.get? entity = some (.between before after)
  totalAdded : c.totalAdded = (c.entities.map fun e => e.2.added.length).sum
  totalRemoved : c.totalRemoved = (c.entities.map fun e => e.2.removed.length).sum
  totalChanged : c.totalChanged = (c.entities.map fun e => e.2.changed.length).sum

end ChangeSet

end Regraft
