import Regraft.Text.Basic

/-!
# Regraft.Text.Blank -- white space and line breaks

White space is every character with the bidirectional type of a separator or a segment, which is
more than core's class: the four separators U+001C to U+001F, next line, no-break space and the
Unicode spaces are in it (`isBlank_of_isWhitespace`), the zero-width ones are not.  Trimming and
splitting into lines are stated over these classes.
-/

namespace Regraft.Text

set_option autoImplicit false

def isBlank (c : Char) : Bool :=
  let n := c.toNat
  (0x09 ≤ n && n ≤ 0x0D) || (0x1C ≤ n && n ≤ 0x20) || n == 0x85 || n == 0xA0 || n == 0x1680 ||
    (0x2000 ≤ n && n ≤ 0x200A) || n == 0x2028 || n == 0x2029 || n == 0x202F || n == 0x205F ||
    n == 0x3000

theorem isBlank_of_isWhitespace {c : Char} (h : c.isWhitespace = true) : isBlank c = true := by
  simp only [Char.isWhitespace, Bool.or_eq_true, decide_eq_true_eq] at h
  rcases h with ((rfl | rfl) | rfl) | rfl <;> decide

def isBlankText (t : Text) : Bool :=
  t.all isBlank

def trimStart (t : Text) : Text :=
  t.dropWhile isBlank

def trimEnd (t : Text) : Text :=
  (t.reverse.dropWhile isBlank).reverse

def trim (t : Text) : Text :=
  trimEnd (trimStart t)

theorem trimEnd_isPrefix (t : Text) : trimEnd t <+: t := by
  have h := (List.dropWhile_suffix isBlank (l := t.reverse))
  simpa [trimEnd] using List.reverse_prefix.2 h

/-- Each run of white space read as one space. -/
def squeeze : Text → Text
  | [] => []
  | [c] => if isBlank c then [' '] else [c]
  | c :: d :: t =>
      if isBlank c then (if isBlank d then squeeze (d :: t) else ' ' :: squeeze (d :: t))
      else c :: squeeze (d :: t)

/-- The characters that end a line; a carriage return and the line feed after it are one end. -/
def isLineBreak (c : Char) : Bool :=
  let n := c.toNat
  (0x0A ≤ n && n ≤ 0x0D) || (0x1C ≤ n && n ≤ 0x1E) || n == 0x85 || n == 0x2028 || n == 0x2029

/-- The lines of a text without their ends; a last line that is empty does not count. -/
def lines : Text → List Text
  | [] => []
  | [c] => if isLineBreak c then [[]] else [[c]]
  | c :: d :: t =>
      if c = '\r' ∧ d = '\n' then [] :: lines t
      else if isLineBreak c then [] :: lines (d :: t)
      else
        match lines (d :: t) with
        | [] => [[c]]
        | line :: more => (c :: line) :: more

end Regraft.Text
