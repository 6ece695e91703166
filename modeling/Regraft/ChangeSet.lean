import Regraft.Property.Diff
import Regraft.Text.Order

/-!
# Regraft.ChangeSet -- the differences of many entities in one report

A report holds the diff of each entity by name, with the names that came and went.  Its totals
are sums over the diffs, so they cannot disagree with them.
-/

namespace Regraft

set_option autoImplicit false

/-- The names of two sets of entities, each part in increasing order. -/
structure NameSplit where
  added : List Text
  removed : List Text
  common : List Text
  deriving DecidableEq

namespace NameSplit

def between (old new : List Text) : NameSplit where
  added := Text.sortedSet (new.filter fun n => !old.contains n)
  removed := Text.sortedSet (old.filter fun n => !new.contains n)
  common := Text.sortedSet (old.filter fun n => new.contains n)

end NameSplit

/-- The changes of a whole model. -/
structure ChangeSet where
  entities : Table PropertyDiff
  addedEntities : List Text
  removedEntities : List Text

namespace ChangeSet

/-- The sum of a count over the diffs of all entities. -/
def total (c : ChangeSet) (count : PropertyDiff → Nat) : Nat :=
  c.entities.foldr (fun e n => count e.2 + n) 0

def totalAdded (c : ChangeSet) : Nat :=
  c.total fun d => d.added.length

def totalRemoved (c : ChangeSet) : Nat :=
  c.total fun d => d.removed.length

/-- How many properties of entities have another type. -/
def totalChanged (c : ChangeSet) : Nat :=
  c.total fun d => d.changed.length

def hasChanges (c : ChangeSet) : Bool :=
  !c.addedEntities.isEmpty || !c.removedEntities.isEmpty || c.totalAdded != 0 ||
    c.totalRemoved != 0 || c.totalChanged != 0

end ChangeSet

end Regraft
