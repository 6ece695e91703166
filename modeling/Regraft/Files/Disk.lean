import Regraft.Files.Host
import Regraft.Files.Path

/-!
# Regraft.Files.Disk -- a model of a disk

A disk is what stands at each place, a place being the list of names from the root, together with
the working directory and the home directory.  Paths are walked name by name: every name but the
last must lead through a directory.  `OnDisk` performs the operations of `Host` on a disk, with any
library.  There are no links and no rights on such a disk: a path is the only way to its place, and
nothing is refused for want of a permission.
-/

namespace Regraft.Files

set_option autoImplicit false

/-- A place on a disk: the names that lead to it from the root. -/
abbrev Place := List String

inductive Node where
  | directory
  | file (bytes : Bytes)
  deriving DecidableEq

/-- What stands at the places of a disk; the root is always a directory. -/
structure Disk where
  nodes : List (Place × Node)
  working : Place
  home : Place
  deriving DecidableEq

namespace Disk

def node? (d : Disk) (p : Place) : Option Node :=
  if p = [] then some .directory else (d.nodes.find? fun e => e.1 = p).map Prod.snd

/-- The entries with one place changed; a new place comes last. -/
def putIn (p : Place) (n : Node) : List (Place × Node) → List (Place × Node)
  | [] => [(p, n)]
  | e :: more => if e.1 = p then (p, n) :: more else e :: putIn p n more

def put (d : Disk) (p : Place) (n : Node) : Disk :=
  { d with nodes := putIn p n d.nodes }

def erase (d : Disk) (p : Place) : Disk :=
  { d with nodes := d.nodes.filter fun e => e.1 ≠ p }

def nameLimit : Nat := 255

def pathLimit : Nat := 4095

/-- The place that names lead to from another place. -/
def walk (d : Disk) (from_ : Place) : List String → Except Refusal Place
  | [] => .ok from_
  | name :: more =>
      match d.node? from_ with
      | none => .error .notFound
      | some (.file _) => .error .notDirectory
      | some .directory =>
          if name == "" || name == "." then walk d from_ more
          else if name == ".." then walk d from_.dropLast more
          else if nameLimit < name.utf8ByteSize then .error .nameTooLong
          else walk d (from_ ++ [name]) more

def place (d : Disk) (path : String) : Except Refusal Place :=
  if path.isEmpty then .error .notFound
  else if pathLimit < path.utf8ByteSize then .error .nameTooLong
  else d.walk (if Path.isAbsolute path then [] else d.working) (Path.split path)

/-- The directory that a place stands in must be one. -/
def parent (d : Disk) (p : Place) : Except Refusal Unit :=
  match d.node? p.dropLast with
  | none => .error .notFound
  | some (.file _) => .error .notDirectory
  | some .directory => .ok ()

def names (d : Disk) (p : Place) : List String :=
  d.nodes.filterMap fun e => if e.1.dropLast = p then e.1.getLast? else none

def read (d : Disk) (path : String) : Except Refusal Bytes := do
  match d.node? (← d.place path) with
  | none => .error .notFound
  | some .directory => .error .isDirectory
  | some (.file bytes) => .ok bytes

/-- Let the file at a path hold what `change` makes of its content. -/
def edit (d : Disk) (path : String) (change : Bytes → Bytes) : Except Refusal Disk := do
  let p ← d.place path
  match d.node? p with
  | some .directory => .error .isDirectory
  | some (.file bytes) => return d.put p (.file (change bytes))
  | none =>
      d.parent p
      return d.put p (.file (change []))

def rename (d : Disk) (source target : String) : Except Refusal Disk := do
  let p ← d.place source
  let q ← d.place target
  match d.node? p with
  | none => .error .notFound
  | some n =>
      match d.node? q with
      | some .directory => .error .isDirectory
      | _ =>
          d.parent q
          return (d.erase p).put q n

/-- Make a directory at a path; slashes at its end do not count. -/
def makeDirectory (d : Disk) (path : String) : Except Refusal Disk := do
  let p ← d.place (Path.dropSlashes path)
  match d.node? p with
  | some _ => .error .alreadyExists
  | none =>
      d.parent p
      return d.put p .directory

def path (p : Place) : String :=
  "/" ++ "/".intercalate p

end Disk

/-- Work on a disk, with a library at hand. -/
def OnDisk (_ : Library) : Type → Type := StateM Disk

variable {library : Library}

instance : Monad (OnDisk library) := inferInstanceAs (Monad (StateM Disk))

instance : MonadStateOf Disk (OnDisk library) := inferInstanceAs (MonadStateOf Disk (StateM Disk))

/-- Change a disk, unless the change is refused. -/
def OnDisk.change (path : String) (f : Disk → Except Refusal Disk) :
    OnDisk library (Except FileError Unit) := do
  match f (← get) with
  | .ok d =>
      set d
      return .ok ()
  | .error cause => return .error ⟨cause, path⟩

instance : Host (OnDisk library) where
  library := library
  kind? path := do
    let d ← get
    match d.place path with
    | .error _ => return none
    | .ok p =>
        return (d.node? p).map fun
          | .directory => .directory
          | .file _ => .file
  list path := do
    let d ← get
    match d.place path with
    | .error _ => return []
    | .ok p => return d.names p
  read path := do
    return ((← get).read path).mapError fun cause => ⟨cause, path⟩
  write path bytes := OnDisk.change path fun d => d.edit path fun _ => bytes
  append path bytes := OnDisk.change path fun d => d.edit path fun old => old ++ bytes
  rename source target := OnDisk.change source fun d => d.rename source target
  discard path := do
    let d ← get
    match d.place path with
    | .ok p =>
        if let some (.file _) := d.node? p then set (d.erase p)
    | .error _ => return
  makeDirectory path := OnDisk.change path fun d => d.makeDirectory path
  workingDirectory := do return Disk.path (← get).working
  homeDirectory := do return Disk.path (← get).home

end Regraft.Files
