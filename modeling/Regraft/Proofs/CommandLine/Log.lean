import Regraft.CommandLine.Run
import Regraft.Proofs.Files.Merging

/-!
# Regraft.Proofs.CommandLine.Log -- what the log of a run does to a disk

A run makes the directory of its log and the log itself before anything else, and adds the notices at its
end.  Directories are made only where nothing was, so every file but the log stays what it was.
-/

namespace Regraft.CommandLine

open Files

set_option autoImplicit false

variable {library : Library} {α β : Type}

/-! ## Work that changes no file -/

def SameFiles (d d' : Disk) : Prop :=
  ∀ p bytes, d'.node? p = some (.file bytes) ↔ d.node? p = some (.file bytes)

theorem SameFiles.refl (d : Disk) : SameFiles d d :=
  fun _ _ => Iff.rfl

theorem SameFiles.trans {d d' d'' : Disk} (first : SameFiles d d') (second : SameFiles d' d'') :
    SameFiles d d'' :=
  fun p bytes => (second p bytes).trans (first p bytes)

def KeepsFiles (x : OnDisk library α) : Prop :=
  ∀ d, SameFiles d (x d).2

theorem KeepsFiles.bind {x : OnDisk library α} {f : α → OnDisk library β} (first : KeepsFiles x)
    (second : ∀ a, KeepsFiles (f a)) : KeepsFiles (x >>= f) := by
  intro d
  exact (first d).trans (second (x d).1 (x d).2)

/-- The log of a run is open: it is a file, and every other file is what it was before the run. -/
structure LogOpen (d opened : Disk) (log : String) (place : Place) (bytes : Bytes) : Prop where
  there : opened.place log = .ok place
  held : opened.node? place = some (.file bytes)
  others : ∀ p, p ≠ place → ∀ bytes,
    opened.node? p = some (.file bytes) ↔ d.node? p = some (.file bytes)

/-- Adding to a log that is there changes the log only. -/
theorem holds_append {d : Disk} {log : String} {place : Place} {bytes : Bytes}
    (found : d.place log = .ok place) (held : d.node? place = some (.file bytes)) (more : Bytes) :
    Disk.Holds d ((Host.append log more : OnDisk library (Except FileError Unit)) d).2 place
      (.file (bytes ++ more)) := by
  rw [OnDisk.run_append, Disk.changed_ok (Disk.edit_file found held _)]
  apply Disk.holds_put
  rintro rfl
  cases held

namespace LogOpen

variable {d opened after : Disk} {log : String} {place : Place} {bytes : Bytes}

/-- Whatever leaves the log alone, notices can be added to it afterwards. -/
theorem append (logged : LogOpen d opened log place bytes) (keeps : Disk.Keeps opened after)
    (same : after.node? place = opened.node? place) (more : Bytes) :
    Disk.Holds after ((Host.append log more : OnDisk library (Except FileError Unit)) after).2 place
      (.file (bytes ++ more)) :=
  holds_append (keeps.place logged.there) (same.trans logged.held) more

/-- A run that adds to its log and changes nothing else leaves every other file what it was. -/
theorem kept {final : Disk} {content : Node} (logged : LogOpen d opened log place bytes)
    (same : ∀ p, after.node? p = opened.node? p) (holds : Disk.Holds after final place content)
    (p : Place) (other : opened.place log ≠ .ok p) (bytes : Bytes) :
    final.node? p = some (.file bytes) ↔ d.node? p = some (.file bytes) := by
  have different : p ≠ place := by
    rintro rfl
    exact other logged.there
  rw [holds.nodes, if_neg different, same]
  exact logged.others p different bytes

end LogOpen

end Regraft.CommandLine
