import Regraft.Property.Basic

/-!
# Regraft.Property.Diff -- what changed between two tables of properties

A diff sorts the names of two tables into three parts: added names, in the order of the new
table; names whose type changed, in the order of the new table; removed names, in the order of
the old table.
-/

namespace Regraft

set_option autoImplicit false

/-- A property whose type differs between two tables. -/
structure Retyped where
  name : Text
  oldType : Text
  newType : Text
  deriving DecidableEq

/-- The properties that differ between two tables. -/
structure PropertyDiff where
  added : List Property
  removed : List Property
  changed : List Retyped
  deriving DecidableEq

namespace PropertyDiff

def isEmpty (d : PropertyDiff) : Bool :=
  d.added.isEmpty && d.removed.isEmpty && d.changed.isEmpty

def onlyIn (t other : Table Text) : List Property :=
  (t.filter fun e => (other.get? e.1).isNone).map fun e => ⟨e.1, e.2⟩

/-- The properties of both tables whose types differ, in the order of the new one. -/
def retyped (old new : Table Text) : List Retyped :=
  new.filterMap fun e =>
    match old.get? e.1 with
    | some type => if type = e.2 then none else some ⟨e.1, type, e.2⟩
    | none => none

def between (old new : Table Text) : PropertyDiff where
  added := onlyIn new old
  removed := onlyIn old new
  changed := retyped old new

end PropertyDiff

end Regraft
