import Regraft.Reader

/-!
# Regraft.Signature -- the declaration of the generated method

The declaration reads `protected override void`, the method's name, and in parentheses one
parameter whose type is the builder type, plain or qualified by a dotted name space.  The reader
below is that grammar; its value is the name of the parameter.
-/

namespace Regraft

set_option autoImplicit false

/-- What a declaration is recognised by. -/
structure Signature where
  method : Text
  builder : Text

namespace Signature

/-- One name of a dotted qualifier, with its dot. -/
def qualifier : Reader Unit := do
  let _ ← Reader.ident
  Reader.blanks
  Reader.literal ['.']
  Reader.blanks

/-- Read a declaration; the value is its parameter. -/
def declaration (s : Signature) : Reader Text := do
  Reader.literal "protected".toList
  Reader.blanks1
  Reader.literal "override".toList
  Reader.blanks1
  Reader.literal "void".toList
  Reader.blanks1
  Reader.literal s.method
  Reader.blanks
  Reader.literal ['(']
  Reader.blanks
  let _ ← Reader.star qualifier
  Reader.literal s.builder
  Reader.blanks1
  let param ← Reader.ident
  Reader.blanks
  Reader.literal [')']
  return param

def occurrences (s : Signature) (t : Text) : List (Reader.Occurrence Text) :=
  Reader.occurrences (fun _ => s.declaration) t

/-- The characters that stand for themselves in a pattern only behind a backslash. -/
def patternSpecials : List Char :=
  "()[]\x7b\x7d?*+-|^$\\.&~# \t\n\r\x0b\x0c".toList

/-- A literal as part of a pattern. -/
def patternLiteral (t : Text) : Text :=
  t.flatMap fun c => if patternSpecials.contains c then ['\\', c] else [c]

/-- The declaration written as a pattern: its name in messages where the method has none. -/
def pattern (s : Signature) : Text :=
  "protected\\s+override\\s+void\\s+".toList ++ patternLiteral s.method ++
    "\\s*\\(\\s*(?:[A-Za-z_][\\w]*\\s*\\.\\s*)*".toList ++ patternLiteral s.builder ++
    "\\s+(?P<param>[A-Za-z_]\\w*)\\s*\\)".toList

/-- The name that messages give the method. -/
def displayName (s : Signature) : Text :=
  if s.method.isEmpty then s.pattern else s.method

end Signature

end Regraft
