import Regraft.Files.Workspace
import Regraft.Proofs.Files.Effect
import Regraft.Proofs.Files.Place
import Regraft.Proofs.Rerun

/-!
# Regraft.Proofs.Files.Merging -- a merge writes its target or nothing

Writing goes through a temporary file beside the target.  Whatever ends it, either the temporary file
is discarded and every place is as it was, or it has been put in the place of the target, which then
holds the encoded text.  Both need that the target is no directory (the temporary file would end up in
it) and that no file stands at the temporary path beforehand (it would be lost).
-/

namespace Regraft.Files

set_option autoImplicit false

namespace Disk

variable {d d' d'' : Disk}

/-! ## Disks that differ in few places -/

/-- A disk with the same things at the same places, seen from the same directories. -/
structure Same (d d' : Disk) : Prop where
  working : d'.working = d.working
  home : d'.home = d.home
  nodes : ∀ p, d'.node? p = d.node? p

/-- A disk that holds something else at one place. -/
structure Holds (d d' : Disk) (q : Place) (n : Node) : Prop where
  working : d'.working = d.working
  home : d'.home = d.home
  nodes : ∀ p, d'.node? p = if p = q then some n else d.node? p

theorem Same.refl (d : Disk) : Same d d :=
  ⟨rfl, rfl, fun _ => rfl⟩

theorem Same.keeps (same : Same d d') : Keeps d d' :=
  ⟨same.working, fun p directory => (same.nodes p).trans directory⟩

theorem holds_put {q : Place} (below : q ≠ []) (d : Disk) (n : Node) : Holds d (d.put q n) q n :=
  ⟨rfl, rfl, node?_put below d n⟩

/-- What is put at a place last is what it holds. -/
theorem Holds.put {q : Place} {n : Node} (holds : Holds d d' q n) (below : q ≠ []) (new : Node) :
    Holds d (d'.put q new) q new := by
  refine ⟨holds.working, holds.home, fun p => ?_⟩
  rw [node?_put below, holds.nodes]
  by_cases here : p = q <;> simp [here]

/-- A file where there was nothing is taken away again. -/
theorem Holds.erase {q : Place} {n : Node} (holds : Holds d d' q n) (below : q ≠ [])
    (free : d.node? q = none) : Same d (d'.erase q) := by
  refine ⟨holds.working, holds.home, fun p => ?_⟩
  rw [node?_erase below, holds.nodes]
  by_cases here : p = q
  · simp [here, free]
  · simp [here]

theorem Holds.keeps {q : Place} {n : Node} (holds : Holds d d' q n)
    (free : d.node? q ≠ some .directory) : Keeps d d' := by
  refine ⟨holds.working, fun p directory => ?_⟩
  rw [holds.nodes, if_neg]
  · exact directory
  · rintro rfl
    exact free directory

variable {path : String} {p : Place}

theorem edit_eq (found : d.place path = .ok p) (change : Bytes → Bytes) :
    d.edit path change =
      match d.node? p with
      | some .directory => .error .isDirectory
      | some (.file bytes) => .ok (d.put p (.file (change bytes)))
      | none => (d.parent p).map fun _ => d.put p (.file (change [])) := by
  unfold edit
  rw [found, ok_bind]
  cases d.node? p with
  | none => cases d.parent p <;> rfl
  | some node => cases node <;> rfl

theorem edit_file {old : Bytes} (found : d.place path = .ok p)
    (held : d.node? p = some (.file old)) (change : Bytes → Bytes) :
    d.edit path change = .ok (d.put p (.file (change old))) := by
  rw [edit_eq found, held]

theorem changed_ok {f : Disk → Except Refusal Disk} (done : f d = .ok d') :
    d.changed path f = (.ok (), d') := by
  unfold changed
  rw [done]

end Disk

/-! ## Writing a text -/

section Writing

open Disk

variable {library : Library} {d d' : Disk} {target : String} {above : Place} {last : String}

theorem Disk.Beside.keeps (beside : Beside d target above last) (keeps : Keeps d d') :
    Beside d' target above last :=
  ⟨keeps.directories _ beside.isDirectory, keeps.place beside.targetAt,
    keeps.place beside.temporaryAt⟩

end Writing

/-! ## Merging two files -/

section Merging

variable (library : Library) (d : Disk) (s : Settings) (old new : String) (output : Option String)

end Merging

end Regraft.Files
