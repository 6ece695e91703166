import Regraft.CommandLine.Arguments
import Regraft.Files.Configuration
import Regraft.Files.Encoding
import Regraft.Files.Workspace
import Regraft.Json

/-!
# Regraft.CommandLine.Run -- carrying out a command line

Each command is a job that ends in a reply: an exit code and what goes to the two streams.  A
fault of reading or writing is part of the reply; a fault of the configuration ends the run.  The
notices of a run go to a log file, and those that matter enough to the error stream as well.
-/

namespace Regraft.CommandLine

open Files

set_option autoImplicit false

variable {m : Type → Type} [Monad m] [Host m]

/-- The exit code of a command, and what it prints. -/
structure Reply where
  code : Nat
  out : String
  err : String

namespace Reply

def success (out : String) : Reply := ⟨0, out, ""⟩

def failure (err : String) : Reply := ⟨1, "", err ++ "\n"⟩

end Reply

/-- The command carried out on its operands and flags, after the settings were read. -/
abbrev Action (m : Type → Type) := Settings → Invocation → Job m Reply

/-- Whether a fault is one of reading or writing files, for which a command has a reply. -/
def isFileFault : Fault → Bool
  | .file _ | .occupied _ | .library (.decode _) => true
  | _ => false

/-- Turn a fault of reading or writing into a reply. -/
def replying (x : Job m Reply) (reply : Fault → Option Reply) : Job m Reply :=
  show m (Attempt Fault Reply) from do
    let done ← x.run
    match done.outcome with
    | .ok _ => return done
    | .error e =>
        match reply e with
        | some r => return ⟨done.notices, .ok r⟩
        | none => return done

def mergeLine (target : String) (result : MergeResult) : String :=
  if result.changed then
    "  ✔ " ++ target ++ ": carried over " ++ toString (Text.lines result.preserved).length ++
      " line(s)\n"
  else "  – " ++ target ++ ": nothing to carry over\n"

def contextAction : Action m := fun s i =>
  let output := i.own.value? .output
  let work : Job m Reply :=
    match i.operand 0, i.operand 1 with
    | .path old, .path new => do
        let result ← mergeFiles s old new output
        match result with
        | .done .. => return .success (mergeLine (targetOf new output) result)
        | .aborted _ _ _ message => return .failure ("  ✘ " ++ message)
    | .path old, .blank => do
        let _ ← readSource old s.encoding
        Job.fail .blankFile
    | .blank, _ => Job.fail .blankFile
  replying work fun e =>
    if isFileFault e then some (.failure ("Cannot read or write context file: " ++ e.message))
    else none

/-- Print what would be carried over from a file. -/
def extractFrom (s : Settings) (old : String) : Job m Reply :=
  let work : Job m Reply := do
    let t ← readSource old s.encoding
    let rules ← rulesOf s
    let preserved ← Job.ofAttempt (CarryOver.extract rules old t)
    return .success (if preserved.isEmpty then "" else String.ofList preserved ++ "\n")
  replying work fun e =>
    match e with
    | .merge cause => some (.failure ("Cannot extract from " ++ old ++ ": " ++ cause.message))
    | _ =>
        if isFileFault e then some (.failure ("Cannot read " ++ old ++ ": " ++ e.message))
        else none

def extractAction : Action m := fun s i =>
  match i.operand 0 with
  | .path old => extractFrom s old
  | .blank => Job.fail .blankFile

def propertyJson (p : Property) : Json :=
  .object [("name".toList, .text p.name), ("type".toList, .text p.type)]

def retypedJson (c : Retyped) : Json :=
  .object
    [("name".toList, .text c.name), ("from_type".toList, .text c.oldType),
      ("to_type".toList, .text c.newType)]

def diffJson (d : PropertyDiff) : Json :=
  .object
    [("added".toList, .array (d.added.map propertyJson)),
      ("removed".toList, .array (d.removed.map propertyJson)),
      ("changed".toList, .array (d.changed.map retypedJson))]

def reportJson (c : ChangeSet) : Json :=
  .object
    [("added_entities".toList, .array (c.addedEntities.map Json.text)),
      ("removed_entities".toList, .array (c.removedEntities.map Json.text)),
      ("entities".toList, .object (c.entities.map fun e => (e.1, diffJson e.2))),
      ("total_properties_added".toList, .number c.totalAdded),
      ("total_properties_removed".toList, .number c.totalRemoved),
      ("total_properties_changed".toList, .number c.totalChanged)]

def diffAction : Action m := fun s i =>
  let s :=
    match i.own.value? .contextFile with
    | some "" | none => s
    | some name => { s with contextFile := name }
  let work : Job m Reply :=
    match i.operand 0, i.operand 1 with
    | .path old, .path new => do
        let report ← compareDirectories s old new
        return .success (String.ofList ((reportJson report).render 0) ++ "\n")
    | .path old, .blank => do
        let _ ← entityFiles s old
        Job.fail .blankDirectory
    | .blank, _ => Job.fail .blankDirectory
  replying work fun e =>
    if isFileFault e then some (.failure ("Cannot read model file: " ++ e.message)) else none

def action : Command → Action m
  | .context => contextAction
  | .extract => extractAction
  | .diff => diffAction

/-- Make a directory and those above it; one that is there already is no fault.  `steps` bounds
the number of directories above. -/
def makeDirectories : Nat → String → m (Except FileError Unit)
  | 0, _ => return .ok ()
  | steps + 1, path => do
      let (head, name) :=
        match Path.splitLast path with
        | (head, "") => Path.splitLast head
        | parts => parts
      let deep := !head.isEmpty && !name.isEmpty && (← Host.kind? (m := m) head).isNone
      let above ← if deep then makeDirectories steps head else pure (.ok ())
      match above with
      | .error e => if e.cause ≠ .alreadyExists then return .error e
      | .ok _ => pure ()
      if deep && name == "." then return .ok ()
      match ← Host.makeDirectory path with
      | .ok _ => return .ok ()
      | .error e =>
          if (← Host.kind? (m := m) path) = some .directory then return .ok () else return .error e

/-- The time of a run: as it stands in the name of a log file, and in its lines. -/
structure Clock where
  stamp : String
  time : String

/-- Make the log file of a run: its directory and, if need be, the file. -/
def openLog (directory : String) (clock : Clock) : Job m String := do
  Job.demandPath directory
  Job.demand (makeDirectories (directory.length + 1) directory)
  let working ← Job.ask Host.workingDirectory
  let path := Path.absolute working (Path.join directory ("merge_" ++ clock.stamp ++ ".log"))
  Job.demand (Host.append path [])
  return path

def logLines (clock : Clock) (notices : List Notice) : Text :=
  notices.flatMap fun n =>
    (clock.time ++ " [" ++ n.level.name ++ "] " ++ n.text ++ "\n").toList

/-- Write the notices of a job to a log file once it has ended. -/
def logging {α : Type} (clock : Clock) (path : String) (x : Job m α) : Job m α :=
  show m (Attempt Fault α) from do
    let done ← x.run
    let _ ← Host.append path ((logLines clock done.notices).flatMap Encoding.utf8Char)
    return done

/-- Carry out an invocation.  The settings are read again once the log is there: the file that is
named may be reached only through the directory of the log. -/
def perform (env : Environment) (clock : Clock) (i : Invocation) : Job m Reply := do
  let first ← loadSettings env i.settingsFile?
  let log ← openLog first.logDirectory clock
  logging clock log do
    let s ← loadSettings env i.settingsFile?
    let strict := s.strict || i.own.has .strict
    action i.command { s with strict } i

/-- How a command line ends. -/
inductive Ending where
  /-- It was not carried out. -/
  | stopped (why : Stop)
  /-- It was carried out, with a reply or a fault that has none. -/
  | ran (notices : List Notice) (outcome : Except Fault Reply) (verbose : Bool)

/-- Understand and carry out a command line. -/
def run (env : Environment) (clock : Clock) (words : List String) : m Ending := do
  match Invocation.ofWords words with
  | .error why => return .stopped why
  | .ok i =>
      let done ← (perform (m := m) env clock i).run
      return .ran done.notices done.outcome i.verbose

/-- The notices that go to the error stream, one line each. -/
def shown (verbose : Bool) (notices : List Notice) : String :=
  String.join ((Notice.atLeast (if verbose then .debug else .warning) notices).map fun n =>
    n.line ++ "\n")

end Regraft.CommandLine
