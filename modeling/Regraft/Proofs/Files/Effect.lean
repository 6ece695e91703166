import Regraft.Files.Disk
import Regraft.Files.Source

/-!
# Regraft.Proofs.Files.Effect -- what a job does to a disk

The effect of a job is its outcome on a disk together with the disk it leaves; what was noticed on the
way is not part of it.  There is one equation for each way to make a job, so that the effect of a job
follows its text: a fault ends a sequence (`effect_bind_error`), a value goes on on the disk that the
first part left (`effect_bind_ok`).  `Reads` is the class of jobs that leave every disk as it is.
-/

namespace Regraft.Files

set_option autoImplicit false

variable {library : Library} {α β ε : Type}

theorem ok_bind (a : α) (f : α → Except ε β) : (Except.ok a >>= f) = f a := rfl

def Disk.kind? (d : Disk) (path : String) : Option Kind :=
  match d.place path with
  | .error _ => none
  | .ok p => (d.node? p).map fun
      | .directory => .directory
      | .file _ => .file

def Disk.list (d : Disk) (path : String) : List String :=
  match d.place path with
  | .error _ => []
  | .ok p => d.names p

def Disk.discard (d : Disk) (path : String) : Disk :=
  match d.place path with
  | .ok p => if let some (.file _) := d.node? p then d.erase p else d
  | .error _ => d

/-- The disk after a change, unless the change is refused. -/
def Disk.changed (d : Disk) (path : String) (f : Disk → Except Refusal Disk) :
    Except FileError Unit × Disk :=
  match f d with
  | .ok d' => (.ok (), d')
  | .error cause => (.error ⟨cause, path⟩, d)

namespace OnDisk

theorem run_bind {x : OnDisk library α} {f : α → OnDisk library β} {d d' : Disk} {a : α} (first : x d = (a, d')) :
    (x >>= f) d = f a d' := by
  show f (x d).1 (x d).2 = f a d'
  rw [first]

theorem run_get (d : Disk) : (get : OnDisk library Disk) d = (d, d) := rfl

variable (d : Disk) (path : String)

theorem run_kind? : (Host.kind? path : OnDisk library (Option Kind)) d = (d.kind? path, d) := by
  refine (run_bind (run_get d)).trans ?_
  unfold Disk.kind?
  cases d.place path <;> rfl

theorem run_list : (Host.list path : OnDisk library (List String)) d = (d.list path, d) := by
  refine (run_bind (run_get d)).trans ?_
  unfold Disk.list
  cases d.place path <;> rfl

theorem run_change (f : Disk → Except Refusal Disk) :
    (OnDisk.change path f : OnDisk library (Except FileError Unit)) d = d.changed path f := by
  refine (run_bind (run_get d)).trans ?_
  unfold Disk.changed
  cases f d <;> rfl

theorem run_append (bytes : Bytes) : (Host.append path bytes : OnDisk library (Except FileError Unit)) d =
    d.changed path fun d => d.edit path fun old => old ++ bytes :=
  run_change d path _

end OnDisk

namespace Job

def effect (x : Job (OnDisk library) α) (d : Disk) : Except Fault α × Disk :=
  ((x.run d).1.outcome, (x.run d).2)

variable (d : Disk)

theorem effect_bind_ok {x : Job (OnDisk library) α} {f : α → Job (OnDisk library) β} {d after : Disk} {a : α}
    (first : x.effect d = (.ok a, after)) : (x >>= f).effect d = (f a).effect after := by
  cases done : x.run d with
  | mk attempt after =>
      obtain ⟨notices, outcome⟩ := attempt
      unfold effect at first
      rw [done] at first
      cases first
      have parts : (x >>= f).run d = (⟨notices ++ ((f a).run after).1.notices, ((f a).run after).1.outcome⟩,
          ((f a).run after).2) :=
        OnDisk.run_bind done
      unfold effect
      rw [parts]

theorem effect_bind_error {x : Job (OnDisk library) α} {f : α → Job (OnDisk library) β} {d after : Disk} {e : Fault}
    (first : x.effect d = (.error e, after)) : (x >>= f).effect d = (.error e, after) := by
  cases done : x.run d with
  | mk attempt after =>
      obtain ⟨notices, outcome⟩ := attempt
      unfold effect at first
      rw [done] at first
      cases first
      have parts : (x >>= f).run d = (⟨notices, .error e⟩, after) := OnDisk.run_bind done
      unfold effect
      rw [parts]

/-- A fault ends a sequence; a value goes on on the disk that the first part leaves. -/
theorem effect_bind (x : Job (OnDisk library) α) (f : α → Job (OnDisk library) β) :
    (x >>= f).effect d =
      match x.effect d with
      | (.error e, d') => (.error e, d')
      | (.ok a, d') => (f a).effect d' := by
  cases first : x.effect d with
  | mk outcome d' =>
      cases outcome with
      | error e => exact effect_bind_error first
      | ok a => exact effect_bind_ok first

theorem effect_ask (x : OnDisk library α) : (ask x).effect d = (.ok (x d).1, (x d).2) := rfl

@[simp] theorem effect_ofExcept (fault : ε → Fault) (x : Except ε α) :
    (ofExcept fault x : Job (OnDisk library) α).effect d = (x.mapError fault, d) := rfl

@[simp] theorem effect_noteAll (ns : List Notice) :
    (noteAll ns : Job (OnDisk library) Unit).effect d = (.ok (), d) := rfl

/-- The last thing of a job that ends with a fault is done on the disk that the job leaves. -/
theorem effect_onFault (x : Job (OnDisk library) α) (last : OnDisk library Unit) :
    (x.onFault last).effect d =
      match x.effect d with
      | (.error e, d') => (.error e, (last d').2)
      | (.ok a, d') => (.ok a, d') := by
  unfold effect
  cases done : x.run d with
  | mk attempt d' =>
      obtain ⟨notices, outcome⟩ := attempt
      cases outcome with
      | error e =>
          have parts : (x.onFault last).run d = (⟨notices, .error e⟩, (last d').2) :=
            OnDisk.run_bind done
          rw [parts]
      | ok a =>
          have parts : (x.onFault last).run d = (⟨notices, .ok a⟩, d') := OnDisk.run_bind done
          rw [parts]

/-- A job that leaves every disk as it is. -/
def Reads (x : Job (OnDisk library) α) : Prop :=
  ∀ d, (x.effect d).2 = d

theorem Reads.bind {x : Job (OnDisk library) α} {f : α → Job (OnDisk library) β} (first : Reads x)
    (second : ∀ a, Reads (f a)) : Reads (x >>= f) := by
  intro d
  have same := first d
  rw [effect_bind]
  cases done : x.effect d with
  | mk outcome d' =>
      rw [done] at same
      cases outcome with
      | error e => exact same
      | ok a => exact (second a d').trans same

/-- The effect of a job that only reads is its outcome. -/
theorem Reads.effect_eq {x : Job (OnDisk library) α} (reads : Reads x) (d : Disk) :
    x.effect d = ((x.effect d).1, d) :=
  Prod.ext rfl (reads d)

/-- A job that can end with some faults only. -/
def FaultsIn (P : Fault → Prop) (x : Job (OnDisk library) α) : Prop :=
  ∀ d e, (x.effect d).1 = .error e → P e

variable {P : Fault → Prop}

theorem FaultsIn.bind {x : Job (OnDisk library) α} {f : α → Job (OnDisk library) β} (first : FaultsIn P x)
    (second : ∀ a, FaultsIn P (f a)) : FaultsIn P (x >>= f) := by
  intro d e ended
  rw [effect_bind] at ended
  cases done : x.effect d with
  | mk outcome d' =>
      rw [done] at ended
      cases outcome with
      | error e' =>
          cases ended
          exact first d _ (congrArg Prod.fst done)
      | ok a => exact second a d' e ended

theorem FaultsIn.onFault {x : Job (OnDisk library) α} (faults : FaultsIn P x) (last : OnDisk library Unit) :
    FaultsIn P (x.onFault last) := by
  intro d e ended
  rw [effect_onFault] at ended
  cases done : x.effect d with
  | mk outcome d' =>
      rw [done] at ended
      cases outcome with
      | error e' =>
          cases ended
          exact faults d _ (congrArg Prod.fst done)
      | ok a => cases ended

end Job

/-! ## Reading source files -/

theorem reads_readSource (path encoding : String) :
    Job.Reads (readSource (m := OnDisk library) path encoding) := by
  unfold readSource
  apply Job.Reads.bind (fun _ => rfl)
  intro _
  apply Job.Reads.bind (fun _ => rfl)
  intro _
  apply Job.Reads.bind (fun _ => rfl)
  intro bytes
  apply Job.Reads.bind (fun _ => rfl)
  intro codec d
  rfl

/-- The text of the source file at a path, or why there is none. -/
def Disk.source (d : Disk) (library : Library) (path encoding : String) : Except Fault Text :=
  ((readSource path encoding : Job (OnDisk library) Text).effect d).1

theorem effect_readSource (d : Disk) (path encoding : String) :
    (readSource path encoding : Job (OnDisk library) Text).effect d = (d.source library path encoding, d) :=
  (reads_readSource path encoding).effect_eq d

end Regraft.Files
