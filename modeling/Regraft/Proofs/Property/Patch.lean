import Mathlib.Data.List.Nodup
import Regraft.Proofs.Comparison

/-!
# Regraft.Proofs.Property.Patch -- a difference carries one table into the other

The table of the properties declared on lines has each declared name at the place of its first
declaration, with the type of its last (`Records`).  Each name falls into one part of the difference
between two tables at most, and the part is settled by what the two tables have under the name
(`mem_onlyIn`, `mem_retyped`).  So a difference can be carried out (`PropertyDiff.apply`): deleting,
retyping and adding what it lists leads from the old table to the new one, and the difference in the
other direction is the same one read backwards (`between_patch`).
-/

namespace Regraft

set_option autoImplicit false

/-! ## Tables made by naming -/

namespace Table

variable {α : Type} {t : Table α} {entries : List (Text × α)} {name : Text} {a : α}

def putAll (t : Table α) (entries : List (Text × α)) : Table α :=
  entries.foldl (fun t e => t.put e.1 e.2) t

def without (t : Table α) (gone : List Text) : Table α :=
  t.filter fun e => !gone.contains e.1

/-- Of the entries put in under a name the last one holds. -/
theorem get?_putAll :
    (t.putAll entries).get? name = some a ↔
      (∃ front back, entries = front ++ (name, a) :: back ∧ name ∉ names back) ∨
        name ∉ names entries ∧ t.get? name = some a := by
  induction entries generalizing t with
  | nil => simp [putAll, names]
  | cons e more ih =>
      show ((t.put e.1 e.2).putAll more).get? name = some a ↔ _
      rw [ih, get?_put]
      constructor
      · rintro (⟨front, back, rfl, last⟩ | ⟨absent, here⟩)
        · exact Or.inl ⟨e :: front, back, rfl, last⟩
        · split at here
          · rename_i same
            obtain rfl := Option.some.inj here
            subst same
            exact Or.inl ⟨[], more, rfl, absent⟩
          · rename_i other
            refine Or.inr ⟨?_, here⟩
            simp only [names, List.map_cons, List.mem_cons, not_or] at absent ⊢
            exact ⟨Ne.symm other, absent⟩
      · rintro (⟨front, back, parts, last⟩ | ⟨absent, here⟩)
        · cases front with
          | nil =>
              obtain ⟨rfl, rfl⟩ := List.cons.inj parts
              exact Or.inr ⟨last, by simp⟩
          | cons f front =>
              obtain ⟨rfl, rfl⟩ := List.cons.inj parts
              exact Or.inl ⟨front, back, rfl, last⟩
        · simp only [names, List.map_cons, List.mem_cons, not_or] at absent
          exact Or.inr ⟨absent.2, by rw [if_neg (Ne.symm absent.1), here]⟩

/-- Entries with names of their own all hold. -/
theorem get?_putAll_of_nodup (nodup : (names entries).Nodup) :
    (t.putAll entries).get? name = some a ↔
      (name, a) ∈ entries ∨ name ∉ names entries ∧ t.get? name = some a := by
  rw [get?_putAll]
  refine or_congr ⟨?_, fun member => ?_⟩ Iff.rfl
  · rintro ⟨front, back, rfl, -⟩
    simp
  · obtain ⟨front, back, rfl⟩ := List.append_of_mem member
    refine ⟨front, back, rfl, ?_⟩
    simp only [names, List.map_append, List.map_cons, List.nodup_append, List.nodup_cons] at nodup
    exact nodup.2.1.1

/-- New names come behind the old ones, each at the place where it is named first. -/
theorem names_putAll :
    (t.putAll entries).names =
      t.names ++ ((names entries).filter fun n => !t.names.contains n).eraseDups := by
  induction entries generalizing t with
  | nil => simp [putAll, names]
  | cons e more ih =>
      show ((t.put e.1 e.2).putAll more).names = _
      rw [ih, names_put]
      by_cases known : e.1 ∈ t.names
      · simp only [if_pos known]
        rw [show names (e :: more) = e.1 :: names more from rfl,
          List.filter_cons_of_neg (by simp [known])]
      · simp only [if_neg known]
        rw [show names (e :: more) = e.1 :: names more from rfl,
          List.filter_cons_of_pos (by simp [known]), List.eraseDups_cons, List.filter_filter,
          List.append_assoc]
        have fresh : (fun n => !(t.names ++ [e.1]).contains n) =
            fun n => !n == e.1 && !t.names.contains n := by
          funext n
          by_cases same : n = e.1 <;> simp [same]
        rw [fresh]
        rfl

theorem names_ofList : (ofList entries).names = (names entries).eraseDups := by
  rw [show ofList entries = putAll [] entries from rfl, names_putAll]
  simp [names]

theorem get?_ofList :
    (ofList entries).get? name = some a ↔
      ∃ front back, entries = front ++ (name, a) :: back ∧ name ∉ names back := by
  rw [show ofList entries = putAll [] entries from rfl, get?_putAll]
  simp [get?]

theorem mem_names : name ∈ t.names ↔ ∃ a, (name, a) ∈ t := by
  simp [names]

theorem get?_without (gone : List Text) :
    (t.without gone).get? name = some a ↔ name ∉ gone ∧ t.get? name = some a := by
  induction t with
  | nil => simp [without, get?]
  | cons e more ih =>
      obtain ⟨n, b⟩ := e
      unfold without at ih ⊢
      by_cases dropped : n ∈ gone
      · rw [List.filter_cons_of_neg (by simp [dropped]), ih]
        by_cases same : n = name
        · subst same
          simp [dropped]
        · simp [get?, same]
      · rw [List.filter_cons_of_pos (by simp [dropped])]
        by_cases same : n = name
        · subst same
          simp [get?, dropped]
        · rw [get?, if_neg same, ih, get?, if_neg same]

end Table

namespace Property

/-- The properties declared on lines, one for each declaration. -/
def declared (lines : List Text) : List Property :=
  lines.filterMap parse?

/-- A table has each declared name at the place of its first declaration with the type of its last. -/
structure Records (ps : List Property) (t : Table Text) : Prop where
  order : t.names = (ps.map name).eraseDups
  last : ∀ n type, t.get? n = some type ↔
    ∃ front back, ps = front ++ ⟨n, type⟩ :: back ∧ ∀ p ∈ back, p.name ≠ n

def entry (p : Property) : Text × Text :=
  (p.name, p.type)

theorem names_entries (ps : List Property) : Table.names (ps.map entry) = ps.map name := by
  simp [Table.names, entry, Function.comp_def]

theorem mem_entries {ps : List Property} {n type : Text} :
    (n, type) ∈ ps.map entry ↔ ⟨n, type⟩ ∈ ps := by
  simp only [List.mem_map, entry, Prod.mk.injEq]
  constructor
  · rintro ⟨p, member, rfl, rfl⟩
    exact member
  · exact fun member => ⟨_, member, rfl, rfl⟩

theorem records_table (lines : List Text) : Records (declared lines) (table lines) where
  order := by
    show (Table.ofList ((declared lines).map entry)).names = _
    rw [Table.names_ofList, names_entries]
  last n type := by
    show (Table.ofList ((declared lines).map entry)).get? n = some type ↔ _
    rw [Table.get?_ofList]
    constructor
    · rintro ⟨front, back, parts, absent⟩
      obtain ⟨front, rest, whole, rfl, tail⟩ := List.map_eq_append_iff.1 parts
      obtain ⟨⟨n', type'⟩, back, rfl, same, rfl⟩ := List.map_eq_cons_iff.1 tail
      obtain ⟨rfl, rfl⟩ := Prod.mk.inj same
      rw [names_entries] at absent
      exact ⟨front, back, whole, fun p member same => absent (same ▸ List.mem_map_of_mem member)⟩
    · rintro ⟨front, back, parts, last⟩
      refine ⟨front.map entry, back.map entry, by rw [parts]; simp [entry], ?_⟩
      rw [names_entries, List.mem_map]
      rintro ⟨p, member, same⟩
      exact last p member same

theorem nodup_table (lines : List Text) : (table lines).names.Nodup :=
  Table.nodup_ofList _

end Property

/-- A change of type taken back. -/
def Retyped.swap (c : Retyped) : Retyped :=
  ⟨c.name, c.newType, c.oldType⟩

namespace PropertyDiff

variable {old new t other : Table Text}

/-! ## The parts of a difference -/

/-- What one table has and the other lacks. -/
theorem mem_onlyIn (nodup : t.names.Nodup) {p : Property} :
    p ∈ onlyIn t other ↔ t.get? p.name = some p.type ∧ other.get? p.name = none := by
  simp only [onlyIn, List.mem_map, List.mem_filter, Option.isNone_iff_eq_none]
  constructor
  · rintro ⟨e, ⟨member, absent⟩, rfl⟩
    exact ⟨Table.get?_of_mem nodup member, absent⟩
  · rintro ⟨here, absent⟩
    exact ⟨(p.name, p.type), ⟨Table.mem_of_get? here, absent⟩, rfl⟩

theorem mem_retyped (nodup : new.names.Nodup) {c : Retyped} :
    c ∈ retyped old new ↔
      old.get? c.name = some c.oldType ∧ new.get? c.name = some c.newType ∧ c.oldType ≠ c.newType := by
  simp only [retyped, List.mem_filterMap]
  constructor
  · rintro ⟨e, member, found⟩
    have after := Table.get?_of_mem nodup member
    split at found
    · rename_i type before
      split at found
      · cases found
      · rename_i different
        obtain rfl := Option.some.inj found
        exact ⟨before, after, different⟩
    · cases found
  · rintro ⟨before, after, different⟩
    refine ⟨(c.name, c.newType), Table.mem_of_get? after, ?_⟩
    simp [before, different]

theorem names_onlyIn :
    (onlyIn t other).map Property.name = t.names.filter fun n => (other.get? n).isNone := by
  simp only [onlyIn, Table.names, List.map_map, List.filter_map]
  rfl

theorem names_retyped : ((retyped old new).map Retyped.name).Sublist new.names := by
  induction new with
  | nil => exact List.Sublist.slnil
  | cons e more ih =>
      rw [retyped, List.filterMap_cons]
      split
      · exact ih.cons e.1
      · rename_i c found
        have same : c.name = e.1 := by
          split at found
          · split at found
            · cases found
            · rw [← Option.some.inj found]
          · cases found
        rw [List.map_cons, same]
        exact ih.cons_cons e.1

/-! ## Carrying a difference out -/

/-- A table after a difference: without the names removed, with the new types of those retyped, and
with those added. -/
def apply (d : PropertyDiff) (t : Table Text) : Table Text :=
  ((t.without (d.removed.map Property.name)).putAll
    (d.changed.map fun c => (c.name, c.newType))).putAll (d.added.map Property.entry)

/-- A difference tells how to come from an old table to a new one. -/
structure Patches (d : PropertyDiff) (old new : Table Text) : Prop where
  /-- No name is in two places. -/
  once : (d.added.map Property.name ++ d.removed.map Property.name ++
    d.changed.map Retyped.name).Nodup
  types : ∀ c ∈ d.changed,
    old.get? c.name = some c.oldType ∧ new.get? c.name = some c.newType ∧ c.oldType ≠ c.newType
  result : ∀ name, (d.apply old).get? name = new.get? name
  addedInOrder : (d.added.map Property.name).Sublist new.names
  changedInOrder : (d.changed.map Retyped.name).Sublist new.names
  removedInOrder : (d.removed.map Property.name).Sublist old.names
  verdict : d.isEmpty = true ↔ ∀ name, old.get? name = new.get? name

theorem names_changes :
    Table.names ((retyped old new).map fun c => (c.name, c.newType)) =
      (retyped old new).map Retyped.name := by
  simp [Table.names, Function.comp_def]

theorem mem_changes (nodup : new.names.Nodup) {name type : Text} :
    (name, type) ∈ (retyped old new).map (fun c => (c.name, c.newType)) ↔
      ∃ before, old.get? name = some before ∧ new.get? name = some type ∧ before ≠ type := by
  simp only [List.mem_map, mem_retyped nodup]
  constructor
  · rintro ⟨c, known, same⟩
    obtain ⟨rfl, rfl⟩ := Prod.mk.inj same
    exact ⟨c.oldType, known⟩
  · rintro ⟨before, known⟩
    exact ⟨⟨name, before, type⟩, known, rfl⟩

theorem nodup_onlyIn (nodup : t.names.Nodup) : ((onlyIn t other).map Property.name).Nodup := by
  rw [names_onlyIn]
  exact nodup.filter _

theorem mem_names_onlyIn {name : Text} :
    name ∈ (onlyIn t other).map Property.name ↔
      (∃ type, t.get? name = some type) ∧ other.get? name = none := by
  rw [names_onlyIn, List.mem_filter, Option.isNone_iff_eq_none, ← Table.get?_isSome,
    Option.isSome_iff_exists]

variable (oldNodup : old.names.Nodup) (newNodup : new.names.Nodup)

include newNodup

/-- What a table has under a name after the difference to another one is what that one has. -/
theorem get?_apply_between (name : Text) :
    ((between old new).apply old).get? name = new.get? name := by
  have changesNodup : (Table.names ((retyped old new).map fun c => (c.name, c.newType))).Nodup := by
    rw [names_changes]
    exact names_retyped.nodup newNodup
  have addedNodup : (Table.names ((onlyIn new old).map Property.entry)).Nodup := by
    rw [Property.names_entries]
    exact nodup_onlyIn newNodup
  ext type
  rw [apply, between]
  simp only [Table.get?_putAll_of_nodup addedNodup, Table.get?_putAll_of_nodup changesNodup,
    Table.get?_without, Table.mem_names, Property.mem_entries, mem_onlyIn newNodup,
    mem_changes newNodup, mem_names_onlyIn]
  -- what holds is settled by what the two tables have under the name
  cases before : old.get? name with
  | none => cases after : new.get? name <;> simp
  | some b =>
      cases after : new.get? name with
      | none => simp
      | some c =>
          by_cases same : b = c
          · simp [same]
          · grind

include oldNodup

/-- A name comes into a part of the difference by what the two tables have under it. -/
theorem nodup_between :
    ((between old new).added.map Property.name ++ (between old new).removed.map Property.name ++
      (between old new).changed.map Retyped.name).Nodup := by
  have changedKnown {name : Text} (member : name ∈ (between old new).changed.map Retyped.name) :
      (∃ type, old.get? name = some type) ∧ ∃ type, new.get? name = some type := by
    obtain ⟨c, changed, rfl⟩ := List.mem_map.1 member
    obtain ⟨before, after, -⟩ := (mem_retyped newNodup).1 changed
    exact ⟨⟨_, before⟩, _, after⟩
  refine List.nodup_append.2 ⟨List.nodup_append.2 ⟨nodup_onlyIn newNodup, nodup_onlyIn oldNodup, ?_⟩,
    names_retyped.nodup newNodup, ?_⟩
  · rintro name added _ removed rfl
    obtain ⟨-, before⟩ := mem_names_onlyIn.1 added
    obtain ⟨⟨type, known⟩, -⟩ := mem_names_onlyIn.1 removed
    rw [before] at known
    cases known
  · rintro name either _ changed rfl
    obtain ⟨⟨type, before⟩, type', after⟩ := changedKnown changed
    rcases List.mem_append.1 either with added | removed
    · rw [(mem_names_onlyIn.1 added).2] at before
      cases before
    · rw [(mem_names_onlyIn.1 removed).2] at after
      cases after

theorem patches_between : Patches (between old new) old new where
  once := nodup_between oldNodup newNodup
  types _ member := (mem_retyped newNodup).1 member
  result := get?_apply_between newNodup
  addedInOrder := by
    rw [show (between old new).added = onlyIn new old from rfl, names_onlyIn]
    exact List.filter_sublist
  changedInOrder := names_retyped
  removedInOrder := by
    rw [show (between old new).removed = onlyIn old new from rfl, names_onlyIn]
    exact List.filter_sublist
  verdict := between_isEmpty newNodup

/-- The names whose types differ are the same in both directions. -/
theorem retyped_swap : (retyped new old).Perm ((retyped old new).map Retyped.swap) := by
  have distinct {a b : Table Text} (nodup : b.names.Nodup) : (retyped a b).Nodup :=
    (names_retyped.nodup nodup).of_map Retyped.name
  have swaps : Function.Injective Retyped.swap := by
    rintro ⟨n, a, b⟩ ⟨n', a', b'⟩ same
    cases same
    rfl
  refine (List.perm_ext_iff_of_nodup (distinct oldNodup) ((distinct newNodup).map swaps)).2 fun c => ?_
  rw [List.mem_map, mem_retyped oldNodup]
  constructor
  · rintro ⟨after, before, different⟩
    exact ⟨c.swap, (mem_retyped newNodup).2 ⟨before, after, Ne.symm different⟩, rfl⟩
  · rintro ⟨c, member, rfl⟩
    obtain ⟨before, after, different⟩ := (mem_retyped newNodup).1 member
    exact ⟨after, before, Ne.symm different⟩

omit oldNodup newNodup

/-- The tables of two sources have each declared name at the place of its first declaration with the type
of its last.  The difference between them lists no name twice, tells what to delete, to retype and to
add so as to come from the old table to the new one, in the order of the table in which the name stands,
and is empty exactly if both tables are the same by name.  In the other direction additions and removals
change places and the types of each change do. -/
theorem between_patch (old new : List Text) :
    Property.Records (Property.declared old) (Property.table old) ∧
      Property.Records (Property.declared new) (Property.table new) ∧
      Patches (between (Property.table old) (Property.table new)) (Property.table old)
        (Property.table new) ∧
      (between (Property.table new) (Property.table old)).added =
        (between (Property.table old) (Property.table new)).removed ∧
      (between (Property.table new) (Property.table old)).removed =
        (between (Property.table old) (Property.table new)).added ∧
      (between (Property.table new) (Property.table old)).changed.Perm
        ((between (Property.table old) (Property.table new)).changed.map Retyped.swap) := by
  have oldNodup := Property.nodup_table old
  have newNodup := Property.nodup_table new
  exact ⟨Property.records_table old, Property.records_table new, patches_between oldNodup newNodup,
    rfl, rfl, retyped_swap oldNodup newNodup⟩

end PropertyDiff

end Regraft
