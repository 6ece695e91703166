import Regraft.Files.Library

/-!
# Regraft.Files.Host -- what the tool asks of a file system

The operations on files that the tool needs, as a class over the monad that performs them: a
model of a disk and the real one are two instances, and everything above is written once.  A
refused operation is a value that names its cause and the path as it was given.  A host has a
library, which decides on codecs and on settings files.
-/

namespace Regraft.Files

set_option autoImplicit false

/-- The causes for which an operation on a path is refused. -/
inductive Refusal where
  | notFound
  | denied
  | alreadyExists
  | notDirectory
  | isDirectory
  | nameTooLong
  | other (code : Nat) (text : String)
  deriving DecidableEq

namespace Refusal

def code : Refusal → Nat
  | notFound => 2
  | denied => 13
  | alreadyExists => 17
  | notDirectory => 20
  | isDirectory => 21
  | nameTooLong => 36
  | other code _ => code

def text : Refusal → String
  | notFound => "No such file or directory"
  | denied => "Permission denied"
  | alreadyExists => "File exists"
  | notDirectory => "Not a directory"
  | isDirectory => "Is a directory"
  | nameTooLong => "File name too long"
  | other _ text => text

end Refusal

/-- A refused operation and the path it was asked for. -/
structure FileError where
  cause : Refusal
  path : String
  deriving DecidableEq

def FileError.message (e : FileError) : String :=
  s!"[Errno {e.cause.code}] {e.cause.text}: " ++ Text.quoted e.path

/-- What stands at a path. -/
inductive Kind where
  | file
  | directory
  deriving DecidableEq

/-- The operations on files, performed in a monad. -/
class Host (m : Type → Type) where
  library : Library
  /-- What stands at a path, if anything can be reached there. -/
  kind? : String → m (Option Kind)
  /-- The names in a directory, in any order. -/
  list : String → m (List String)
  read : String → m (Except FileError Bytes)
  /-- Make a file hold some bytes; the file is made where there is none. -/
  write : String → Bytes → m (Except FileError Unit)
  /-- Add bytes at the end of a file; the file is made where there is none. -/
  append : String → Bytes → m (Except FileError Unit)
  /-- Move a file to another path, in place of a file that stands there. -/
  rename : String → String → m (Except FileError Unit)
  /-- Remove a file where there is one. -/
  discard : String → m Unit
  makeDirectory : String → m (Except FileError Unit)
  workingDirectory : m String
  homeDirectory : m String

end Regraft.Files
