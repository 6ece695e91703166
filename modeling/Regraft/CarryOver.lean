import Regraft.Entity.Strip
import Regraft.Rules

/-!
# Regraft.CarryOver -- hand-written statements, out of an old body and into a new one

Extraction takes the body of the old method and removes what a generator wrote: marked regions
and comment lines, entity statements, forwarding calls.  What is left, without blank lines before
it and white space after it, is the carry-over.  Insertion plans one place in the new body: right
before its first forwarding call, or at the end of the body where there is none.
-/

namespace Regraft.CarryOver

set_option autoImplicit false

def locate (r : Rules) (source : String) (t : Text) : Attempt Failure Method := do
  match ← Method.locate r.signature r.strict t with
  | some m => return m
  | none => throw (.methodNotFound r.signature.method source)

/-- A line of spaces and tabs only, with its end. -/
def blankLine : Reader Unit := do
  Reader.indent
  let _ ← Reader.lineEnd

def dropBlankLines (t : Text) : Text :=
  match Reader.first? (Reader.star blankLine) t with
  | some (_, rest) => rest
  | none => t

/-- The carry-over in the body of a located method. -/
def ofMethod (r : Rules) (m : Method) : Except Failure Text := do
  let unmarked := r.markers.strip m.body
  let bare ← Entity.strip (Entity.anchor m.param) unmarked
  return Text.trimEnd (dropBlankLines (r.removeCalls m.param bare))

/-- What extraction from a located method gives notice of before it ends. -/
def methodNotices (r : Rules) (m : Method) : List Notice :=
  r.markers.stripNotices m.body ++
    Entity.stripNotices (Entity.anchor m.param) (r.markers.strip m.body)

def extract (r : Rules) (source : String) (old : Text) : Attempt Failure Text := do
  let m ← locate r source old
  Attempt.noteAll (methodNotices r m)
  let preserved ← Attempt.ofExcept (ofMethod r m)
  Attempt.note (.extracted (Text.lines preserved).length source)
  return preserved

/-- Carry-over between its notice and its footer.  Only these two are indented: the code itself
is kept character for character, as its lines may continue a string literal. -/
def wrap (r : Rules) (indent preserved : Text) : Text :=
  r.markers.notice indent ++ preserved ++ '\n' :: indent ++ r.markers.footer ++ ['\n']

/-- Where something is put into a new text, and what. -/
structure Plan where
  offset : Nat
  preserved : Text
  insertion : Text
  /-- Whether the place is right before a forwarding call. -/
  anchored : Bool
  deriving DecidableEq

def Plan.apply (p : Plan) (t : Text) : Text :=
  t.take p.offset ++ p.insertion ++ t.drop p.offset

/-- The new text with an insertion made where there is one. -/
def apply (plan : Option Plan) (t : Text) : Text :=
  match plan with
  | some p => p.apply t
  | none => t

/-- The indentation where a body has no line to take it from. -/
def standardIndent : Text :=
  List.replicate 8 ' '

/-- The indentation of the last line of a body that is not blank. -/
def bodyIndent (body : Text) : Text :=
  match (Text.lines body).reverse.find? fun line => !Text.isBlankText line with
  | some line => Text.indentation line
  | none => standardIndent

def dropFinalLineFeeds (t : Text) : Text :=
  (t.reverse.dropWhile (· == '\n')).reverse

/-- The insertion before a forwarding call that starts, without its indentation, at an offset of
the body.  A call on a line of its own gets the carry-over above that line; in front of one that
shares its line the line is broken. -/
def planAtCall (r : Rules) (m : Method) (preserved : Text) (call : Nat) : Plan :=
  let (whole, line) := Text.splitLastLine (m.body.take call)
  if Text.isBlankText line then
    ⟨m.bodyStart + whole.length, preserved, wrap r line preserved ++ ['\n'], true⟩
  else
    let indent := Text.indentation (m.body.drop whole.length)
    ⟨m.bodyStart + call, preserved, '\n' :: wrap r indent preserved ++ '\n' :: indent, true⟩

/-- The insertion at the end of a body: after its last character that is no white space, with an
empty line between unless there is no such character. -/
def planAtEnd (r : Rules) (m : Method) (preserved : Text) : Plan :=
  let kept := (Text.trimEnd m.body).length
  let gap : Text := if kept = 0 then ['\n'] else ['\n', '\n']
  ⟨m.bodyStart + kept, preserved,
    gap ++ dropFinalLineFeeds (wrap r (bodyIndent m.body) preserved), false⟩

/-- The insertion into a located method. -/
def planIn (r : Rules) (m : Method) (preserved : Text) : Plan :=
  match r.firstCall? m.param m.body with
  | some (start, call) => planAtCall r m preserved (start + (Text.indentation call).length)
  | none => planAtEnd r m preserved

/-- Plan where the carry-over goes in a new text; blank carry-over goes nowhere. -/
def plan (r : Rules) (source : String) (preserved new : Text) :
    Attempt Failure (Option Plan) := do
  let m ← locate r source new
  if Text.isBlankText preserved then return none
  let p := planIn r m preserved
  if !p.anchored then
    Attempt.note (.noForwardingCall r.forward source r.signature.method)
  return some p

def insert (r : Rules) (source : String) (preserved new : Text) : Attempt Failure Text := do
  return apply (← plan r source preserved new) new

end Regraft.CarryOver
