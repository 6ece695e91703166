import Std.Time.Format
import Regraft.CommandLine.Run

/-!
# Regraft.Main -- the program

The operations of `Host` on the real file system, and the program that carries out a command line
there with the library it is given.  Nothing is decided here.
-/

namespace Regraft

open Files CommandLine

set_option autoImplicit false

/-- The cause that an error of the system names. -/
def refusalOf : IO.Error → Refusal
  | .noFileOrDirectory _ code text | .permissionDenied _ code text | .alreadyExists _ code text
  | .inappropriateType _ code text | .resourceExhausted _ code text
  | .invalidArgument _ code text =>
      match code.toNat with
      | 2 => .notFound
      | 13 => .denied
      | 17 => .alreadyExists
      | 20 => .notDirectory
      | 21 => .isDirectory
      | 36 => .nameTooLong
      | n => .other n text
  | e => .other 5 (toString e)

/-- Do something on a path and name the path in a refusal. -/
def attempting {α : Type} (path : String) (act : IO α) : IO (Except FileError α) := do
  try return .ok (← act)
  catch e => return .error ⟨refusalOf e, path⟩

/-- Work on the real file system, with a library at hand. -/
def OnSystem (_ : Library) : Type → Type := IO

instance {library : Library} : Monad (OnSystem library) := inferInstanceAs (Monad IO)

instance {library : Library} : Host (OnSystem library) where
  library := library
  kind? path := show IO (Option Kind) from do
    try
      let real ← IO.FS.realPath path
      if ← real.isDir then return some .directory
      return if (← real.metadata).type == .file then some .file else none
    catch _ => return none
  list path := show IO (List String) from do
    try return (← (← IO.FS.realPath path).readDir).toList.map fun e => e.fileName
    catch _ => return []
  read path := attempting path do
    return (← IO.FS.readBinFile path).toList
  write path bytes := attempting path do
    IO.FS.writeBinFile path (ByteArray.mk bytes.toArray)
  append path bytes := attempting path do
    (← IO.FS.Handle.mk path .append).write (ByteArray.mk bytes.toArray)
  rename source target := attempting source do
    IO.FS.rename source target
  discard path := show IO Unit from do
    try IO.FS.removeFile path
    catch _ => return
  makeDirectory path := attempting path do
    IO.FS.createDir path
  workingDirectory := show IO String from do return (← IO.currentDir).toString
  homeDirectory := show IO String from do return (← IO.getEnv "HOME").getD "/"

def optionVariables : List String :=
  ["METHOD", "BUILDER_TYPE", "PARTIAL_METHOD", "STRICT", "MARKER_BEGIN", "MARKER_END",
    "MARKER_PREFIX", "CONTEXT_FILE", "ENCODING", "LOG_DIR"].map ("SCAFFOLD_MERGE_" ++ ·)

def environment : IO Environment := do
  let found ← optionVariables.mapM fun name => return (name, ← IO.getEnv name)
  return fun name => (found.lookup name).join

def clockNow : IO Clock := do
  let now ← Std.Time.PlainDateTime.now
  return ⟨now.format "yyyyMMdd_HHmmss", now.format "HH:mm:ss"⟩

/-- The commands and flags in short. -/
def help : String :=
  "usage: scaffold-merge [-h] [--config CONFIG] [--verbose] COMMAND ...\n\n" ++
  "  context OLD NEW [-o OUTPUT] [--strict]          carry statements of OLD over into NEW\n" ++
  "  extract OLD [--strict]                          print what would be carried over\n" ++
  "  diff OLD_DIR NEW_DIR [--context-file NAME]      compare the models of two directories\n"

/-- Carry out the command line. -/
def program (library : Library) (words : List String) : IO UInt32 := do
  let work : OnSystem library Ending := run (← environment) (← clockNow) words
  match ← (work : IO Ending) with
  | .stopped .help =>
      IO.print help
      return 0
  | .stopped (.misuse speaker complaint) =>
      IO.eprintln (complaintLine speaker complaint)
      return 2
  | .ran notices outcome verbose =>
      IO.eprint (shown verbose notices)
      match outcome with
      | .ok reply =>
          IO.print reply.out
          IO.eprint reply.err
          return reply.code.toUInt32
      | .error e =>
          IO.eprintln e.message
          return 1

end Regraft
