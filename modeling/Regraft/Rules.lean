import Regraft.Marker.Strip
import Regraft.Method

/-!
# Regraft.Rules -- the names and markers a merge goes by

One value holds everything literal: the declaration to look for, the call by which the generated
body forwards to hand-written code, and the markers.  `forwardingCall` reads that call as a whole
statement, with the indentation before it and, at the end of a line, the line end after it, so
that taking it out leaves no empty line.
-/

namespace Regraft

set_option autoImplicit false

structure Rules where
  signature : Signature
  forward : Text
  markers : MarkerPair
  strict : Bool

namespace Rules

/-- The rules used where nothing else is configured. -/
def standard : Rules where
  signature := ⟨"OnModelCreating".toList, "ModelBuilder".toList⟩
  forward := "OnModelCreatingPartial".toList
  markers := .standard
  strict := false

def receiver : Reader Text := do
  Reader.literal "this".toList
  let left ← Reader.many Text.isBlank
  Reader.literal ['.']
  let right ← Reader.many Text.isBlank
  return "this".toList ++ left ++ ['.'] ++ right

/-- Whether a place holds a word character; the ends of the text hold none. -/
def wordAt (c : Option Char) : Bool :=
  c.any Text.isWord

/-- Read nothing where a word starts or ends, `before` being the character before the place. -/
def boundary (before : Option Char) : Reader Unit :=
  Reader.when fun t => wordAt before != wordAt t.head?

/-- Read the forwarding call on a parameter as a statement. -/
def forwardingCall (r : Rules) (param : Text) (before : Option Char) : Reader Unit := do
  let indent ← Reader.manyBack Text.isIndent
  let this ← Reader.optional receiver
  boundary (((this.getD []).reverse ++ indent).head?.or before)
  Reader.literal r.forward
  Reader.blanks
  Reader.literal ['(']
  Reader.blanks
  Reader.literal param
  Reader.blanks
  Reader.literal [')']
  Reader.blanks
  Reader.literal [';']
  Reader.indent
  let _ ← Reader.optional Reader.lineEnd

def removeCalls (r : Rules) (param body : Text) : Text :=
  Reader.remove (r.forwardingCall param) body

/-- The first forwarding call of a body, with its indentation: the offset and the text. -/
def firstCall? (r : Rules) (param body : Text) : Option (Nat × Text) :=
  (Reader.occurrences (r.forwardingCall param) body).head?.map fun found =>
    (found.start, (body.take found.stop).drop found.start)

end Rules

end Regraft
