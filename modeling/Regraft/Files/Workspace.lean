import Regraft.ChangeSet
import Regraft.Files.Source
import Regraft.Merge
import Regraft.Settings

/-!
# Regraft.Files.Workspace -- merging context files and comparing model directories

Merging reads the old and the new context file, and writes the target only after the merge of
their texts has ended well.  Comparing maps each model file of two directories to its properties;
context files among them are passed over.
-/

namespace Regraft.Files

set_option autoImplicit false

variable {m : Type → Type} [Monad m] [Host m]

def rulesOf (s : Settings) : Job m Rules :=
  Job.ofExcept Fault.settings s.rules

/-- The file a merge writes to: the new one, unless another is named. -/
def targetOf (new : String) : Option String → String
  | some "" | none => new
  | some output => output

/-- Merge the old context file into the new one and write the result. -/
def mergeFiles (s : Settings) (old new : String) (output : Option String) :
    Job m MergeResult := do
  let target := targetOf new output
  let oldText ← readSource old s.encoding
  let newText ← readSource new s.encoding
  let rules ← rulesOf s
  let (notices, result) := Merge.run rules old new oldText newText
  Job.noteAll notices
  match result with
  | .aborted .. => return result
  | .done _ _ merged =>
      let working ← Job.ask Host.workingDirectory
      if merged = newText ∧ Path.absolute working target = Path.absolute working new then
        Job.noteAll [.unchanged target]
      else
        writeSource target merged s.encoding
        Job.noteAll [.wrote target]
      return result

def sourceEnding : Text := ".cs".toList

/-- The entity that a file name stands for: the name without its ending. -/
def entityName? (file : Text) : Option Text :=
  if sourceEnding.isSuffixOf file then some (file.take (file.length - sourceEnding.length))
  else none

def modelFiles (s : Settings) (directory : String) : List Text → Job m (Table String)
  | [] => pure []
  | file :: more => do
      let name := String.ofList file
      match entityName? file with
      | none => modelFiles s directory more
      | some entity =>
          let path := Path.join directory name
          if name == s.contextFile || (← Job.ask (Host.kind? path)) ≠ some .file then
            modelFiles s directory more
          else
            let t ← readSource path s.encoding
            if (s.signature.occurrences t).isEmpty then
              return (entity, path) :: (← modelFiles s directory more)
            else
              Job.noteAll [.skippedContext path]
              modelFiles s directory more

/-- The model files of a directory by entity, in increasing order of their file names.  A
directory that is not there has none. -/
def entityFiles (s : Settings) (directory : String) : Job m (Table String) := do
  let _ ← rulesOf s
  match ← Job.ask (Host.kind? directory) with
  | some .directory =>
      let names ← Job.ask (Host.list directory)
      modelFiles s directory (Text.sortedSet (names.map String.toList))
  | _ =>
      Job.noteAll [.missingDirectory directory]
      return []

/-- The properties in the file of an entity; without a file there are none. -/
def propertiesOf (s : Settings) (files : Table String) (entity : Text) : Job m (Table Text) := do
  match files.get? entity with
  | none => return []
  | some path => return Property.table (Text.lines (← readSource path s.encoding))

def entityDiffs (s : Settings) (old new : Table String) : List Text → Job m (Table PropertyDiff)
  | [] => pure []
  | entity :: more => do
      let before ← propertiesOf s old entity
      let after ← propertiesOf s new entity
      return (entity, PropertyDiff.between before after) :: (← entityDiffs s old new more)

/-- Compare the model files of two directories.  Entities in the new one are compared property by
property; those that went are only named. -/
def compareDirectories (s : Settings) (oldDirectory newDirectory : String) :
    Job m ChangeSet := do
  let old ← entityFiles s oldDirectory
  let new ← entityFiles s newDirectory
  let names := NameSplit.between old.names new.names
  let entities ← entityDiffs s old new (Text.sortedSet (names.common ++ names.added))
  let report : ChangeSet := ⟨entities, names.added, names.removed⟩
  Job.noteAll [.compared names.added.length names.removed.length report.totalAdded
    report.totalRemoved report.totalChanged]
  return report

end Regraft.Files
