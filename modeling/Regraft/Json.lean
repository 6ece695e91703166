import Regraft.Text.Basic
import Regraft.Text.Quoted

/-!
# Regraft.Json -- reports as JSON text

A report is printed over several lines, two spaces for each level, with every character beyond
printable ASCII escaped by its UTF-16 units.  Empty lists and objects stay on one line.
-/

namespace Regraft

set_option autoImplicit false

/-- A JSON value as far as reports need one. -/
inductive Json where
  | number (n : Nat)
  | text (t : Text)
  | array (items : List Json)
  | object (fields : List (Text × Json))

namespace Json

/-- The escape of one UTF-16 unit. -/
def unit (n : Nat) : Text :=
  ("\\u" ++ Text.hex 4 n).toList

def escape (c : Char) : Text :=
  let n := c.toNat
  if c = '"' ∨ c = '\\' then ['\\', c]
  else if c = '\n' then ['\\', 'n']
  else if c = '\r' then ['\\', 'r']
  else if c = '\t' then ['\\', 't']
  else if n = 0x08 then ['\\', 'b']
  else if n = 0x0C then ['\\', 'f']
  else if 0x20 ≤ n ∧ n < 0x7F then [c]
  else if n < 0x10000 then unit n
  else unit (0xD800 + (n - 0x10000) / 0x400) ++ unit (0xDC00 + (n - 0x10000) % 0x400)

def quote (t : Text) : Text :=
  '"' :: t.flatMap escape ++ ['"']

/-- The start of a line at a level. -/
def newLine (level : Nat) : Text :=
  '\n' :: List.replicate (2 * level) ' '

mutual

/-- The text of a value that stands at a level. -/
def render (level : Nat) : Json → Text
  | number n => (toString n).toList
  | text t => quote t
  | array items =>
      if items.isEmpty then ['[', ']']
      else '[' :: renderItems (level + 1) true items ++ newLine level ++ [']']
  | object fields =>
      if fields.isEmpty then ['{', '}']
      else '{' :: renderFields (level + 1) true fields ++ newLine level ++ ['}']

/-- The items of a list, each on a line of its own. -/
def renderItems (level : Nat) (first : Bool) : List Json → Text
  | [] => []
  | item :: more =>
      (if first then [] else [',']) ++ newLine level ++ render level item ++
        renderItems level false more

/-- The fields of an object, each on a line of its own. -/
def renderFields (level : Nat) (first : Bool) : List (Text × Json) → Text
  | [] => []
  | (name, value) :: more =>
      (if first then [] else [',']) ++ newLine level ++ quote name ++ [':', ' '] ++
        render level value ++ renderFields level false more

end

end Json

end Regraft
