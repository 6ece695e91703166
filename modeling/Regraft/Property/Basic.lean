import Regraft.Reader
import Regraft.Table

/-!
# Regraft.Property.Basic -- auto-properties declared on a line

A declaration reads `public`, perhaps `virtual` or `required`, a type, a name and the accessor
block with `get;` and `set;`.  The type is a dotted name with an optional list of type arguments,
nullable marks and array ranks.  White space in a type counts as one space however much there is,
so two spellings of one type compare equal.
-/

namespace Regraft

set_option autoImplicit false

/-- A declared property: its name and its type as written, but for white space. -/
structure Property where
  name : Text
  type : Text
  deriving DecidableEq

namespace Property

def modifier : Reader Unit := do
  Reader.orElse (Reader.literal "virtual".toList) (Reader.literal "required".toList)
  Reader.blanks1

/-- The characters between the angle brackets of type arguments. -/
def isArgument (c : Char) : Bool :=
  Text.isWord c || Text.isBlank c || ['.', '?', ',', '<', '>', '[', ']'].contains c

def arguments : Reader Text := do
  let gap ← Reader.many Text.isBlank
  Reader.literal ['<']
  let inner ← Reader.many1 isArgument
  Reader.literal ['>']
  return gap ++ '<' :: inner ++ ['>']

/-- Read one character, or nothing; the value is the text read. -/
def mark (c : Char) : Reader Text := do
  let found ← Reader.optional (Reader.literal [c])
  return if found.isSome then [c] else []

/-- Read array ranks; the value is the text read. -/
def ranks : Reader Text := do
  let found ← Reader.star (Reader.literal ['[', ']'])
  return found.flatMap fun _ => ['[', ']']

def typeText : Reader Text := do
  let first ← Reader.one Text.isIdentStart
  let more ← Reader.many fun c => Text.isWord c || c == '.'
  let args ← Reader.optional arguments
  let nullable ← mark '?'
  let array ← ranks
  let nullableArray ← mark '?'
  return first :: more ++ args.getD [] ++ nullable ++ array ++ nullableArray

/-- Read a declaration; what follows its accessor block does not matter. -/
def declaration : Reader Property := do
  Reader.blanks
  Reader.literal "public".toList
  Reader.blanks1
  let _ ← Reader.star modifier
  let type ← typeText
  Reader.blanks1
  let name ← Reader.ident
  Reader.blanks
  Reader.literal ['{']
  Reader.blanks
  Reader.literal "get;".toList
  Reader.blanks
  Reader.literal "set;".toList
  Reader.blanks
  Reader.literal ['}']
  return ⟨name, Text.trim (Text.squeeze type)⟩

def parse? (line : Text) : Option Property :=
  (Reader.first? declaration line).map Prod.fst

/-- The properties declared on lines, by name: of two declarations of a name the later type
holds, at the place of the first. -/
def table (lines : List Text) : Table Text :=
  Table.ofList ((lines.filterMap parse?).map fun p => (p.name, p.type))

end Property

end Regraft
