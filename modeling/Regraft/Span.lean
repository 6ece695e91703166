import Regraft.Text.Basic

/-!
# Regraft.Span -- half-open ranges of offsets

A span holds every offset from its start up to, but not including, its stop; that the stop does
not come before the start is part of the type.  `Span.ofInts` says which pairs of numbers are
spans, `Span.slice` which texts are long enough to be cut by one.
-/

namespace Regraft

set_option autoImplicit false

/-- A half-open range of offsets into one text. -/
structure Span where
  start : Nat
  stop : Nat
  ordered : start ≤ stop

namespace Span

/-- Why two numbers are no span, or a span is no range of a text or longer than any text. -/
inductive Error where
  | invalid (start stop : Int)
  | exceeds (span : Span) (length : Nat)
  | tooLong

def Error.message : Error → String
  | .invalid start stop => s!"Invalid span ({start}, {stop})"
  | .exceeds span length => s!"Span ({span.start}, {span.stop}) exceeds text of length {length}"
  | .tooLong => "cannot fit 'int' into an index-sized integer"

/-- Two numbers are a span when the first is not negative and the second is not smaller. -/
def ofInts (start stop : Int) : Except Error Span :=
  if h : 0 ≤ start ∧ start ≤ stop then .ok ⟨start.toNat, stop.toNat, Int.toNat_le_toNat h.2⟩
  else .error (.invalid start stop)

def length (s : Span) : Nat :=
  s.stop - s.start

/-- The greatest length that a text can have. -/
def longest : Nat :=
  0x7FFFFFFFFFFFFFFF

/-- The length of a span, which must be one that a text can have. -/
def measure (s : Span) : Except Error Nat :=
  if s.length ≤ longest then .ok s.length else .error .tooLong

def slice (s : Span) (t : Text) : Except Error Text :=
  if s.stop ≤ t.length then .ok ((t.take s.stop).drop s.start)
  else .error (.exceeds s t.length)

end Span

end Regraft
