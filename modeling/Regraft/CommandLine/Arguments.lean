import Regraft.Text.Digit
import Regraft.Text.Quoted

/-!
# Regraft.CommandLine.Arguments -- what a command line asks for

A command line is flags, a command, and the flags and operands of that command.  A long flag may
be cut short while it is clear, takes its value after `=` or as the next word, and short flags may
be run together.  After a `--` every word is an operand.  `Invocation.ofWords` either understands
a command line or says what is wrong with it.
-/

namespace Regraft.CommandLine

set_option autoImplicit false

inductive Flag where
  | help
  | config
  | verbose
  | output
  | strict
  | contextFile
  deriving DecidableEq

namespace Flag

def names : Flag → List String
  | help => ["-h", "--help"]
  | config => ["--config"]
  | verbose => ["--verbose", "-v"]
  | output => ["-o", "--output"]
  | strict => ["--strict"]
  | contextFile => ["--context-file"]

def takesValue : Flag → Bool
  | config | output | contextFile => true
  | help | verbose | strict => false

/-- The name of a flag in a complaint. -/
def title (f : Flag) : String :=
  "/".intercalate f.names

end Flag

inductive Command where
  | context
  | extract
  | diff
  deriving DecidableEq

namespace Command

def all : List Command := [context, extract, diff]

def name : Command → String
  | context => "context"
  | extract => "extract"
  | diff => "diff"

def flags : Command → List Flag
  | context => [.help, .output, .strict]
  | extract => [.help, .strict]
  | diff => [.help, .contextFile]

def operands : Command → List String
  | context => ["old", "new"]
  | extract => ["old"]
  | diff => ["old_dir", "new_dir"]

end Command

def programName : String := "scaffold-merge"

/-- The flags before the command. -/
def toolFlags : List Flag := [.help, .config, .verbose]

/-- Why a command line is not carried out. -/
inductive Stop where
  /-- Help was asked for. -/
  | help
  /-- The program, or the program with its command, complains. -/
  | misuse (speaker : String) (complaint : String)
  deriving DecidableEq

def complaintLine (speaker complaint : String) : String :=
  speaker ++ ": error: " ++ complaint

/-- A flag as found in a word: how it is spelled there, and what is written with it, be it right
after a short flag or after an equals sign. -/
structure Found where
  flag : Flag
  spelling : String
  attached : Option (List Char)
  deriving DecidableEq

/-- What a word of a command line is. -/
inductive Word where
  | operand
  /-- The first `--`. -/
  | divider
  /-- A flag; nothing is found for one that is not known. -/
  | flag (found : Option Found)
  deriving DecidableEq

def spellings (flags : List Flag) : List (Flag × String) :=
  flags.flatMap fun f => f.names.map fun n => (f, n)

/-- The flag with exactly this spelling. -/
def spelledAs? (flags : List Flag) (spelling : String) : Option Flag :=
  ((spellings flags).find? fun e => e.2 == spelling).map Prod.fst

/-- A word cut at its first equals sign. -/
def cutAtEquals (word : String) : String × Option (List Char) :=
  let front := word.toList.takeWhile (· != '=')
  match word.toList.drop front.length with
  | [] => (word, none)
  | _ :: value => (String.ofList front, some value)

def startsWith (front whole : String) : Bool :=
  front.toList.isPrefixOf whole.toList

/-- The flags that a word may mean: those it is a cut-short spelling of, or the short flag that
it starts with. -/
def candidates (flags : List Flag) (word : String) : List Found :=
  if startsWith "--" word then
    let (front, attached) := cutAtEquals word
    ((spellings flags).filter fun e => startsWith front e.2).map fun e => ⟨e.1, e.2, attached⟩
  else
    let short := String.ofList (word.toList.take 2)
    (spellings flags).filterMap fun e =>
      if e.2 == short then some ⟨e.1, e.2, some (word.toList.drop 2)⟩
      else if startsWith word e.2 then some ⟨e.1, e.2, none⟩
      else none

/-- Whether digits, or digits around a point with some after it, make up a text. -/
def isNumber (t : List Char) : Bool :=
  let whole := t.takeWhile Text.isDecimal
  match t.drop whole.length with
  | [] => !whole.isEmpty
  | '.' :: places => !places.isEmpty && places.all Text.isDecimal
  | _ => false

/-- Whether a word with a dash is a negative number, in the digits of whatever script; a line feed
at its end does not count. -/
def isNegativeNumber (word : String) : Bool :=
  match word.toList with
  | '-' :: t => isNumber (if t.getLast? == some '\n' then t.dropLast else t)
  | _ => false

/-- What a word is, before any `--`; the candidates, where it may mean several flags. -/
def classify (flags : List Flag) (word : String) : Except (List Found) Word :=
  if !startsWith "-" word || word == "-" then .ok .operand
  else
    let (front, attached) := cutAtEquals word
    let whole := (spelledAs? flags word).map fun f => (⟨f, word, none⟩ : Found)
    let assigned := (spelledAs? flags front).map fun f => (⟨f, front, attached⟩ : Found)
    match whole.or assigned with
    | some found => .ok (.flag (some found))
    | none =>
        match candidates flags word with
        | [found] => .ok (.flag (some found))
        | [] =>
            if isNegativeNumber word || word.toList.contains ' ' then .ok .operand
            else .ok (.flag none)
        | several => .error several

def classifyAll (speaker : String) (flags : List Flag) :
    List String → Except Stop (List (String × Word))
  | [] => .ok []
  | word :: more =>
      if word == "--" then
        .ok ((word, .divider) :: more.map fun w => (w, .operand))
      else
        match classify flags word with
        | .ok kind => (classifyAll speaker flags more).map ((word, kind) :: ·)
        | .error several =>
            .error (.misuse speaker
              ("ambiguous option: " ++ word ++ " could match " ++
                ", ".intercalate (several.map Found.spelling)))

inductive Operand where
  | path (word : String)
  /-- A `--` in the place of an operand, which names nothing. -/
  | blank
  deriving DecidableEq

/-- What was read of a command line so far. -/
structure Reading where
  /-- The flags given, with their values where they take one; later ones count. -/
  given : List (Flag × String)
  operands : List Operand
  /-- Words that belong to nothing. -/
  strays : List String

namespace Reading

def empty : Reading := ⟨[], [], []⟩

/-- Note a flag; asking for help ends the reading.  A value that is a lone `--` is empty. -/
def give (r : Reading) (f : Flag) (value : String) : Except Stop Reading :=
  if f = .help then .error .help
  else .ok { r with given := r.given ++ [(f, if value == "--" then "" else value)] }

/-- Note several flags without values, in order. -/
def giveAll (r : Reading) : List Flag → Except Stop Reading
  | [] => .ok r
  | f :: more => do giveAll (← r.give f "") more

def stray (r : Reading) (word : String) : Reading :=
  { r with strays := r.strays ++ [word] }

/-- The value of a flag, the last one given. -/
def value? (r : Reading) (f : Flag) : Option String :=
  (r.given.reverse.find? fun e => e.1 = f).map Prod.snd

def has (r : Reading) (f : Flag) : Bool :=
  (r.value? f).isSome

/-- Note an operand. -/
def take (r : Reading) (operand : Operand) : Reading :=
  { r with operands := r.operands ++ [operand] }

end Reading

/-- A complaint about a flag. -/
def aboutFlag (speaker : String) (f : Flag) (complaint : String) : Stop :=
  .misuse speaker ("argument " ++ f.title ++ ": " ++ complaint)

def ignored (speaker : String) (f : Flag) (value : List Char) : Stop :=
  aboutFlag speaker f ("ignored explicit argument " ++ Text.quoted (String.ofList value))

/-- What a word of flags stands for: the flags before the last one, and the last one with the
value written with it. -/
abbrev Unfolded := List Flag × Flag × Option String

/-- Take apart short flags that are run together: what is written with a flag that takes no value
starts with the letter of the next one. -/
def cluster (speaker : String) (flags : List Flag) (f : Flag) : List Char → Except Stop Unfolded
  | [] => .ok ([], f, none)
  | c :: t =>
      if f.takesValue then .ok ([], f, some (String.ofList (c :: t)))
      else
        match spelledAs? flags (String.ofList ['-', c]) with
        | none => .error (ignored speaker f (c :: t))
        | some g => (cluster speaker flags g t).map fun (before, last) => (f :: before, last)

/-- The flags that a found flag stands for. -/
def unfold (speaker : String) (flags : List Flag) (found : Found) : Except Stop Unfolded :=
  match found.attached with
  | none => .ok ([], found.flag, none)
  | some value =>
      if found.flag.takesValue then .ok ([], found.flag, some (String.ofList value))
      else if value.isEmpty || startsWith "--" found.spelling then
        .error (ignored speaker found.flag value)
      else cluster speaker flags found.flag value

/-- Read a flag and the words after it: what was read, and the words that are left. -/
def readFlag (speaker : String) (flags : List Flag) (r : Reading) (found : Found)
    (more : List (String × Word)) : Except Stop (Reading × List (String × Word)) := do
  let (before, f, value) ← unfold speaker flags found
  match f.takesValue, value, more with
  | true, none, (word, .operand) :: rest => return (← (← r.giveAll before).give f word, rest)
  | true, none, _ => throw (aboutFlag speaker f "expected one argument")
  | _, value, more => return (← (← r.giveAll before).give f (value.getD ""), more)

/-- Move the words up to the next flag to the strays. -/
def strayRun (r : Reading) : List (String × Word) → Reading × List (String × Word)
  | [] => (r, [])
  | (word, .flag found) :: more => (r, (word, .flag found) :: more)
  | (word, _) :: more => strayRun (r.stray word) more

/-- Read the flags and operands of a command; `steps` bounds the words to come. -/
def readWords (speaker : String) (flags : List Flag) (wanted : Nat) :
    Nat → Reading → List (String × Word) → Except Stop Reading
  | 0, r, _ => .ok r
  | _ + 1, r, [] => .ok r
  | steps + 1, r, (word, .flag none) :: more =>
      readWords speaker flags wanted steps (r.stray word) more
  | steps + 1, r, (_, .flag (some found)) :: more => do
      let (r, rest) ← readFlag speaker flags r found more
      readWords speaker flags wanted steps r rest
  | steps + 1, r, words =>
      if r.operands.length < wanted then
        match words with
        | (word, .operand) :: (_, .divider) :: more
        | (_, .divider) :: (word, .operand) :: more =>
            readWords speaker flags wanted steps (r.take (.path word)) more
        | (word, .operand) :: more =>
            readWords speaker flags wanted steps
              (r.take (if word == "--" then .blank else .path word)) more
        | _ =>
            let (r, rest) := strayRun r words
            readWords speaker flags wanted steps r rest
      else
        let (r, rest) := strayRun r words
        readWords speaker flags wanted steps r rest

def missing (speaker : String) (names : List String) : Stop :=
  .misuse speaker ("the following arguments are required: " ++ ", ".intercalate names)

def readCommand (c : Command) (words : List String) : Except Stop Reading := do
  let speaker := programName ++ " " ++ c.name
  let kinds ← classifyAll speaker c.flags words
  let r ← readWords speaker c.flags c.operands.length (kinds.length + 1) .empty kinds
  if r.operands.length < c.operands.length then
    throw (missing speaker (c.operands.drop r.operands.length))
  return r

/-- What a command line asks for. -/
structure Invocation where
  command : Command
  /-- The flags before the command. -/
  tool : Reading
  /-- The flags and operands of the command. -/
  own : Reading

namespace Invocation

/-- Read the word in place of the command, and what follows it. -/
def ofCommandWord (tool : Reading) (word : String) (words : List String) :
    Except Stop Invocation := do
  match Command.all.find? fun c => c.name == word with
  | none =>
      throw (.misuse programName
        ("argument COMMAND: invalid choice: " ++ Text.quoted word ++ " (choose from " ++
          ", ".intercalate (Command.all.map fun c => Text.quoted c.name) ++ ")"))
  | some command => return ⟨command, tool, ← readCommand command words⟩

/-- Read the flags before the command, and from the command on. -/
def ofKinds : Nat → Reading → List (String × Word) → Except Stop Invocation
  | 0, _, _ => .error (missing programName ["COMMAND"])
  | _ + 1, _, [] => .error (missing programName ["COMMAND"])
  | steps + 1, r, (word, .flag none) :: more => ofKinds steps (r.stray word) more
  | steps + 1, r, (_, .flag (some found)) :: more => do
      let (r, rest) ← readFlag programName toolFlags r found more
      ofKinds steps r rest
  | _ + 1, r, (word, .operand) :: more => ofCommandWord r word (more.map Prod.fst)
  | _ + 1, r, (word, .divider) :: next :: more =>
      ofCommandWord r word ((next :: more).map Prod.fst)
  | _ + 1, _, [(_, .divider)] => .error (missing programName ["COMMAND"])

/-- Understand the words of a command line. -/
def ofWords (words : List String) : Except Stop Invocation := do
  let kinds ← classifyAll programName toolFlags words
  let found ← ofKinds (kinds.length + 1) .empty kinds
  let strays := found.tool.strays ++ found.own.strays
  if strays.isEmpty then return found
  else throw (.misuse programName ("unrecognized arguments: " ++ " ".intercalate strays))

def settingsFile? (i : Invocation) : Option String :=
  i.tool.value? .config

def verbose (i : Invocation) : Bool :=
  i.tool.has .verbose

def operand (i : Invocation) (n : Nat) : Operand :=
  i.own.operands[n]?.getD .blank

end Invocation

end Regraft.CommandLine
