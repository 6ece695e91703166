import Regraft.Files.Source
import Regraft.Settings

/-!
# Regraft.Files.Configuration -- finding and reading the settings file

A settings file is either named, and then counts only if it is a file, or looked for in the
working directory and after that in the home directory.  The first one found is the only one
read; one that cannot be opened, breaks its format or has no mapping in it configures nothing.  All
else that the library complains of is a fault, and so are options without a value.
-/

namespace Regraft.Files

set_option autoImplicit false

variable {m : Type → Type} [Monad m] [Host m]

/-- The names a settings file can have, the preferred one first. -/
def settingsNames : List String :=
  [".scaffoldmerge.yaml", ".scaffoldmerge.yml"]

def firstFile? : List String → Job m (Option String)
  | [] => pure none
  | path :: more => do
      if (← Job.ask (Host.kind? path)) = some .file then return some path
      firstFile? more

/-- The settings file to read, given the one that was named. -/
def settingsFile? (named : Option String) : Job m (Option String) := do
  match named with
  | some "" | none =>
      let working ← Job.ask Host.workingDirectory
      let home ← Job.ask Host.homeDirectory
      firstFile? ([working, home].flatMap fun d => settingsNames.map (Path.join d))
  | some path => firstFile? [path]

/-- The mapping that a settings file was loaded to. -/
def mappingOf : Except LoadError Value → Except LibraryError Entries
  | .ok v => .ok v.entries
  | .error .malformed => .ok []
  | .error (.failed e) => .error e

/-- The mapping in the settings file at a path. -/
def readSettings (path : String) : Job m Entries := do
  match ← Job.ask (Host.read path) with
  | .error _ => return []
  | .ok bytes => Job.ofExcept Fault.library (mappingOf ((Host.library m).load bytes))

def loadSettings (env : Environment) (named : Option String) : Job m Settings := do
  let entries ←
    match ← settingsFile? named with
    | none => pure []
    | some path => readSettings path
  Job.ofExcept Fault.settings (Settings.resolve env entries)

end Regraft.Files
