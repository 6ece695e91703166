import Regraft.Proofs.CommandLine.Log

/-!
# Regraft.Proofs.CommandLine.Context -- the exit code of the context command

The command reports every fault of reading and writing through its exit code.  What it does not report
are faults of its configuration: settings that cannot be loaded, a log that cannot be opened, markers
without text, an encoding that is not known or lacks a character.  Where none of these stands in its way
the command ends in a reply; its code is 0 exactly if the merge ended well, and then the target holds the
merged text, and with 1 every file but the log is what it was.
-/

namespace Regraft.CommandLine

open Files

set_option autoImplicit false

variable {library : Library}

/-! ## Faults that have a reply -/

section Command

variable {env : Environment} {clock : Clock} {words : List String} {i : Invocation} {s : Settings}
  {old new log : String} {d opened : Disk}

/-- The target of a merge holds the merged text: the text was written there, or the target is the new
file, which was found to hold it and has its bytes still. -/
inductive Delivered (library : Library) (opened after : Disk) (s : Settings) (new target : String)
    (merged : Text) : Prop where
  | written {codec : Codec} {bytes : Bytes} {q : Place} (known : library.codec s.encoding = .ok codec)
      (encoded : codec.encode merged = .ok bytes) (found : after.place target = .ok q)
      (held : after.node? q = some (.file bytes))
  | unchanged (same : target = Path.absolute (Disk.path opened.working) new)
      (read : opened.source library new s.encoding = .ok merged)
      (untouched : after.read new = opened.read new)

/-- What a reply to the context command says of the merge of files that it stands for: the code is 0 or 1;
it is 0 exactly if the merge ended well, and then the target holds the merged text; with 1 every file but
the log is what it was before the run. -/
structure Tells (library : Library) (d opened : Disk) (s : Settings) (new target log : String)
    (done : Except Fault MergeResult) (reply : Reply) (after : Disk) : Prop where
  bounded : reply.code = 0 ∨ reply.code = 1
  zero : reply.code = 0 ↔ ∃ preserved plan merged, done = .ok (.done preserved plan merged)
  delivered : ∀ preserved plan merged, done = .ok (.done preserved plan merged) →
    Delivered library opened after s new target merged
  kept : reply.code = 1 → ∀ p, opened.place log ≠ .ok p →
    ∀ bytes, after.node? p = some (.file bytes) ↔ d.node? p = some (.file bytes)

namespace Tells

variable {after final : Disk} {target : String} {done : Except Fault MergeResult} {place : Place}
  {logBytes : Bytes} {content : Node}

/-- A merge that did not end well is told by 1, and has left every file but the log alone. -/
theorem failure (logged : LogOpen d opened log place logBytes)
    (bad : ∀ preserved plan merged, done ≠ .ok (.done preserved plan merged))
    (same : ∀ p, after.node? p = opened.node? p) (holds : Disk.Holds after final place content)
    (err : String) : Tells library d opened s new target log done (.failure err) final where
  bounded := .inr rfl
  zero := ⟨fun zero => absurd zero Nat.one_ne_zero, fun ⟨_, _, _, well⟩ => absurd well (bad _ _ _)⟩
  delivered _ _ _ well := absurd well (bad _ _ _)
  kept _ := logged.kept same holds

/-- A merge that ended well is told by 0. -/
theorem success {preserved merged : Text} {plan : Option CarryOver.Plan}
    (delivered : Delivered library opened final s new target merged) (out : String) :
    Tells library d opened s new target log (.ok (.done preserved plan merged)) (.success out)
      final where
  bounded := .inl rfl
  zero := ⟨fun _ => ⟨_, _, _, rfl⟩, fun _ => rfl⟩
  delivered _ _ _ well := by
    cases well
    exact delivered
  kept one := absurd one Nat.zero_ne_one

end Tells

end Command

/-! ## Two runs -/

end Regraft.CommandLine
