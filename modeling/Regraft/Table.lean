import Regraft.Text.Basic

/-!
# Regraft.Table -- named values in the order of their first naming

A table holds one value for each name.  Naming again replaces the value and keeps the place
(`get?_put`, `names_put`), so a table made by naming has no name twice (`nodup_ofList`).
-/

namespace Regraft

set_option autoImplicit false

/-- Values by name, in the order in which the names first came. -/
abbrev Table (α : Type) := List (Text × α)

namespace Table

variable {α : Type}

def get? : Table α → Text → Option α
  | [], _ => none
  | (n, a) :: more, name => if n = name then some a else get? more name

def names (t : Table α) : List Text :=
  t.map Prod.fst

/-- Give a name a value; a new name comes last. -/
def put : Table α → Text → α → Table α
  | [], name, a => [(name, a)]
  | (n, b) :: more, name, a =>
      if n = name then (n, a) :: more else (n, b) :: put more name a

/-- The table of a list in which later values win and names keep their first place. -/
def ofList (entries : List (Text × α)) : Table α :=
  entries.foldl (fun t e => t.put e.1 e.2) []

theorem get?_put (t : Table α) (name other : Text) (a : α) :
    (t.put name a).get? other = if name = other then some a else t.get? other := by
  induction t with
  | nil => rfl
  | cons e more ih =>
      obtain ⟨n, b⟩ := e
      by_cases same : n = name
      · subst same
        by_cases h : n = other <;> simp [put, get?, h]
      · by_cases h : n = other
        · subst h
          simp [put, get?, same, Ne.symm same]
        · simp [put, get?, same, h, ih]

theorem names_put (t : Table α) (name : Text) (a : α) :
    (t.put name a).names = if name ∈ t.names then t.names else t.names ++ [name] := by
  induction t with
  | nil => simp [put, names]
  | cons e more ih =>
      obtain ⟨n, b⟩ := e
      by_cases same : n = name
      · simp [put, names, same]
      · simp only [names] at ih
        simp only [put, same, if_false, names, List.map_cons, ih, List.mem_cons, Ne.symm same,
          false_or]
        by_cases known : name ∈ List.map Prod.fst more <;> simp [known]

theorem get?_of_mem {t : Table α} (h : t.names.Nodup) {e : Text × α} (member : e ∈ t) :
    t.get? e.1 = some e.2 := by
  induction t with
  | nil => simp at member
  | cons f more ih =>
      obtain ⟨n, b⟩ := f
      simp only [names, List.map_cons, List.nodup_cons] at h
      rcases List.mem_cons.1 member with rfl | member
      · simp [get?]
      · have different : n ≠ e.1 := fun same => h.1 (same ▸ List.mem_map_of_mem member)
        simpa [get?, different] using ih h.2 member

theorem nodup_put {t : Table α} (h : t.names.Nodup) (name : Text) (a : α) :
    (t.put name a).names.Nodup := by
  rw [names_put]
  split
  · exact h
  · rename_i absent
    rw [List.nodup_append]
    exact ⟨h, by simp, fun x hx y hy e => absent (by simp_all)⟩

theorem nodup_ofList (entries : List (Text × α)) : (ofList entries).names.Nodup := by
  have step : ∀ (es : List (Text × α)) (t : Table α), t.names.Nodup →
      (es.foldl (fun t e => t.put e.1 e.2) t).names.Nodup := by
    intro es
    induction es with
    | nil => exact fun t h => h
    | cons e es ih => exact fun t h => ih _ (nodup_put h e.1 e.2)
  exact step entries [] (by simp [names])

end Table

end Regraft
