import Regraft.Text.Printable

/-!
# Regraft.Text.Quoted -- texts between quotes

A text is quoted on one line: the backslash, the quote and every character that does not show are
written as escapes, everything else stands for itself.  The quote is a single one, unless the text
holds single quotes and no double ones.
-/

namespace Regraft.Text

set_option autoImplicit false

/-- The digits of a number in hexadecimal, with leading zeros up to a width. -/
def hexDigits (width n : Nat) : List Char :=
  let ds := Nat.toDigits 16 n
  List.replicate (width - ds.length) '0' ++ ds

def hex (width n : Nat) : String :=
  String.ofList (hexDigits width n)

/-- A character written as an escape of its code point: in two, four or eight digits. -/
def escaped (c : Char) : List Char :=
  let n := c.toNat
  if n < 0x100 then '\\' :: 'x' :: hexDigits 2 n
  else if n < 0x10000 then '\\' :: 'u' :: hexDigits 4 n
  else '\\' :: 'U' :: hexDigits 8 n

def quotedChar (quote c : Char) : List Char :=
  if c = '\\' ∨ c = quote then ['\\', c]
  else if c = '\n' then ['\\', 'n']
  else if c = '\r' then ['\\', 'r']
  else if c = '\t' then ['\\', 't']
  else if isPrintable c then [c]
  else escaped c

/-- The quote for a text. -/
def quoteOf (t : List Char) : Char :=
  if t.contains '\'' && !t.contains '"' then '"' else '\''

def quoted (s : String) : String :=
  let t := s.toList
  let quote := quoteOf t
  String.ofList (quote :: t.flatMap (quotedChar quote) ++ [quote])

end Regraft.Text
