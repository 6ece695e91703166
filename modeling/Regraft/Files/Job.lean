import Regraft.Attempt
import Regraft.Failure
import Regraft.Files.Host
import Regraft.Settings

/-!
# Regraft.Files.Job -- attempts that work on files

A job is an attempt in the monad of a file system: what it noticed, and its value or the fault
that ended it.  `Fault.message` is the sentence of a fault.
-/

namespace Regraft.Files

set_option autoImplicit false

/-- What can end work on files. -/
inductive Fault where
  | file (e : FileError)
  /-- A file stands already where one was to be moved. -/
  | occupied (path : String)
  | library (e : LibraryError)
  | settings (e : Settings.Error)
  /-- A path holds the character zero, which no path can hold. -/
  | noPath
  /-- The name of an encoding holds the character zero. -/
  | noName
  /-- An operand that names nothing is to be opened as a file. -/
  | blankFile
  /-- An operand that names nothing is to be looked up as a directory. -/
  | blankDirectory
  | merge (e : Failure)

def Fault.message : Fault → String
  | .file e => e.message
  | .occupied path => "Destination path '" ++ path ++ "' already exists"
  | .library e => e.message
  | .settings e => e.message
  | .noPath => "embedded null byte"
  | .noName => "embedded null character"
  | .blankFile => "expected str, bytes or os.PathLike object, not list"
  | .blankDirectory => "stat: path should be string, bytes, os.PathLike or integer, not list"
  | .merge e => e.message

/-- An attempt that works on files. -/
def Job (m : Type → Type) (α : Type) : Type := m (Attempt Fault α)

namespace Job

variable {m : Type → Type} {α β : Type}

def run (x : Job m α) : m (Attempt Fault α) := x

instance [Monad m] : Monad (Job m) where
  pure a := (pure ⟨[], .ok a⟩ : m (Attempt Fault _))
  bind x f := show m (Attempt Fault _) from do
    let first ← x.run
    match first.outcome with
    | .error e => return ⟨first.notices, .error e⟩
    | .ok a =>
        let second ← (f a).run
        return ⟨first.notices ++ second.notices, second.outcome⟩

/-- Ask the file system, without notice and without fault. -/
def ask [Monad m] (x : m α) : Job m α := show m (Attempt Fault α) from do
  let a ← x
  return ⟨[], .ok a⟩

/-- Ask the file system for something it may refuse. -/
def demand [Monad m] (x : m (Except FileError α)) : Job m α := show m (Attempt Fault α) from do
  let a ← x
  return ⟨[], a.mapError Fault.file⟩

def fail [Monad m] (e : Fault) : Job m α := (pure ⟨[], .error e⟩ : m (Attempt Fault α))

/-- Demand that a text is without the character zero. -/
def demandPlain [Monad m] (e : Fault) (s : String) : Job m Unit :=
  (pure ⟨[], if s.toList.contains '\x00' then .error e else .ok ()⟩ : m (Attempt Fault Unit))

/-- Demand that a path can be one at all. -/
def demandPath [Monad m] (path : String) : Job m Unit :=
  demandPlain .noPath path

def ofExcept [Monad m] {ε : Type} (fault : ε → Fault) (x : Except ε α) : Job m α :=
  (pure ⟨[], x.mapError fault⟩ : m (Attempt Fault α))

/-- An attempt that needs no files. -/
def ofAttempt [Monad m] (x : Attempt Failure α) : Job m α :=
  (pure ⟨x.notices, x.outcome.mapError Fault.merge⟩ : m (Attempt Fault α))

def noteAll [Monad m] (ns : List Notice) : Job m Unit :=
  (pure ⟨ns, .ok ()⟩ : m (Attempt Fault Unit))

/-- Do a last thing where a job ended with a fault, which stays the fault. -/
def onFault [Monad m] (x : Job m α) (last : m Unit) : Job m α := show m (Attempt Fault α) from do
  let done ← x.run
  match done.outcome with
  | .error _ =>
      last
      return done
  | .ok _ => return done

end Job

end Regraft.Files
