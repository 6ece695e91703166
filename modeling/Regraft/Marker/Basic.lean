import Regraft.Text.Basic

/-!
# Regraft.Marker.Basic -- the comments that bound carried-over code

A marker pair is the two comments between which an inserted notice stands, with the lead that
whole comment lines of this tool start with.  Neither comment is empty; that is part of the type,
and `MarkerPair.ofTexts` says when three texts are a pair.  `notice` and `footer` are what is
written around carried-over code.
-/

namespace Regraft

set_option autoImplicit false

/-- The comments that open and close a notice, and the lead of single comment lines. -/
structure MarkerPair where
  opening : Text
  closing : Text
  lead : Text
  opening_ne_nil : opening ≠ []
  closing_ne_nil : closing ≠ []

namespace MarkerPair

/-- The one reason why three texts are no marker pair. -/
inductive Error where
  | emptyLiteral
  deriving DecidableEq

def Error.message : Error → String
  | .emptyLiteral => "Marker begin and end literals must be non-empty"

/-- Three texts are a marker pair when the first two are not empty. -/
def ofTexts (opening closing lead : Text) : Except Error MarkerPair :=
  if h : opening ≠ [] ∧ closing ≠ [] then .ok ⟨opening, closing, lead, h.1, h.2⟩
  else .error .emptyLiteral

/-- The pair used where nothing else is configured. -/
def standard : MarkerPair where
  opening := "// scaffold-merge:begin-notice".toList
  closing := "// scaffold-merge:end-notice".toList
  lead := "// scaffold-merge:".toList
  opening_ne_nil := by decide
  closing_ne_nil := by decide

def noticeLines : List Text :=
  ["// The statements below were carried over from the previous".toList,
    "// OnModelCreating body and are re-applied on every regeneration.".toList]

/-- The notice in front of carried-over code, one indented line for each entry. -/
def notice (m : MarkerPair) (indent : Text) : Text :=
  (m.opening :: noticeLines ++ [m.closing]).flatMap fun line => indent ++ line ++ ['\n']

def footer (m : MarkerPair) : Text :=
  m.lead ++ " end of carried-over statements".toList

end MarkerPair

end Regraft
