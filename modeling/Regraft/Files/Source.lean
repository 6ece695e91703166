import Regraft.Files.Job
import Regraft.Files.Path

/-!
# Regraft.Files.Source -- source files as texts

Reading drops the signature of UTF-8 and keeps line ends as they are.  Writing goes through a
temporary file beside the target, so that a target is either replaced as a whole or not touched;
where the target is a directory the temporary file ends up in it.
-/

namespace Regraft.Files

set_option autoImplicit false

variable {m : Type → Type} [Monad m] [Host m]

/-- The codec of a name, which must be known. -/
def codecNamed (name : String) : Job m Codec :=
  Job.ofExcept Fault.library ((Host.library m).codec name)

/-- The name under which files are read: the usual one stands for UTF-8 with a signature. -/
def readingName (name : String) : String :=
  let plain := String.ofList <| name.toList.map fun c => if c == '_' then '-' else c.toLower
  if plain == "utf-8" then "utf-8-sig" else name

def readSource (path encoding : String) : Job m Text := do
  Job.demandPlain .noName encoding
  Job.demandPath path
  let bytes ← Job.demand (Host.read path)
  let codec ← codecNamed (readingName encoding)
  Job.ofExcept Fault.library (codec.decode bytes)

/-- The path of the temporary file beside a target. -/
def temporary (target : String) : String :=
  target ++ ".scaffoldmerge_tmp"

/-- Put a temporary file in the place of its target. -/
def settle (temp target : String) : Job m Unit := do
  match ← Job.ask (Host.kind? target) with
  | some .directory =>
      let inside := Path.join target (Path.baseName temp)
      if (← Job.ask (Host.kind? inside)).isSome then Job.fail (.occupied inside)
      else Job.demand (Host.rename temp inside)
  | _ => Job.demand (Host.rename temp target)

def writeSource (path : String) (t : Text) (encoding : String) : Job m Unit := do
  let target := Path.absolute (← Job.ask Host.workingDirectory) path
  let temp := temporary target
  Job.demandPath path
  let work : Job m Unit := do
    Job.demandPlain .noName encoding
    Job.demand (Host.write temp [])
    let codec ← codecNamed encoding
    let bytes ← Job.ofExcept Fault.library (codec.encode t)
    Job.demand (Host.write temp bytes)
    settle temp target
  work.onFault (Host.discard temp)

end Regraft.Files
