import Regraft.Notice

/-!
# Regraft.Attempt -- an outcome with the notices on the way to it

An attempt runs to an outcome, a value or a failure, and keeps every notice made before it
stopped.  `outcome_bind` is all that later proofs need: the outcome of a sequence is the sequence of
outcomes, whatever was noticed.
-/

namespace Regraft

set_option autoImplicit false

universe u

/-- An outcome and the notices of the run that led to it. -/
structure Attempt (ε : Type) (α : Type) where
  notices : List Notice
  outcome : Except ε α

namespace Attempt

variable {ε α β : Type}

instance : Monad (Attempt ε) where
  pure a := ⟨[], .ok a⟩
  bind x f :=
    match x.outcome with
    | .error e => ⟨x.notices, .error e⟩
    | .ok a => ⟨x.notices ++ (f a).notices, (f a).outcome⟩

instance : MonadExceptOf ε (Attempt ε) where
  throw e := ⟨[], .error e⟩
  tryCatch x handle :=
    match x.outcome with
    | .error e => ⟨x.notices ++ (handle e).notices, (handle e).outcome⟩
    | .ok a => ⟨x.notices, .ok a⟩

def note (n : Notice) : Attempt ε Unit := ⟨[n], .ok ()⟩

def noteAll (ns : List Notice) : Attempt ε Unit := ⟨ns, .ok ()⟩

/-- An outcome reached without notice. -/
def ofExcept (outcome : Except ε α) : Attempt ε α := ⟨[], outcome⟩

@[simp] theorem outcome_pure (a : α) : (pure a : Attempt ε α).outcome = .ok a := rfl

@[simp] theorem outcome_note (n : Notice) : (note n : Attempt ε Unit).outcome = .ok () := rfl

@[simp] theorem outcome_noteAll (ns : List Notice) :
    (noteAll ns : Attempt ε Unit).outcome = .ok () := rfl

@[simp] theorem outcome_ofExcept (x : Except ε α) : (ofExcept x).outcome = x := rfl

@[simp] theorem outcome_throw (e : ε) : (throw e : Attempt ε α).outcome = .error e := rfl

@[simp] theorem outcome_bind (x : Attempt ε α) (f : α → Attempt ε β) :
    (x >>= f).outcome = (x.outcome.bind fun a => (f a).outcome) := by
  simp only [bind]
  cases x.outcome <;> rfl

end Attempt

end Regraft
