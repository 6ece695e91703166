import Regraft.Text.Basic

/-!
# Regraft.Notice -- what a run says about its work

A notice is a value: operations return the notices of their run in order beside their outcome,
and the outer layer decides which of them a reader sees.  `Notice.level` grades them and
`Notice.line` is the line written for one.
-/

namespace Regraft

set_option autoImplicit false

/-- How much a notice matters, from the least to the most. -/
inductive Level where
  | debug
  | info
  | warning
  | error
  deriving DecidableEq

namespace Level

def rank : Level → Nat
  | debug => 0
  | info => 1
  | warning => 2
  | error => 3

def name : Level → String
  | debug => "DEBUG"
  | info => "INFO"
  | warning => "WARNING"
  | error => "ERROR"

end Level

inductive Notice where
  /-- A begin marker has no end marker after it. -/
  | unpairedMarker (offset : Nat)
  /-- Several declarations fit and the first is taken. -/
  | severalSignatures (count offset : Nat)
  /-- A declaration has no block. -/
  | noBlock (offset : Nat)
  /-- An anchor is not followed by the block of a lambda. -/
  | noLambda (offset : Nat)
  /-- The statement of an anchor goes on after its block. -/
  | openEnded (offset : Nat)
  /-- Entity statements were taken out. -/
  | strippedEntities (count : Nat)
  /-- Carry-over was found in an old text. -/
  | extracted (lineCount : Nat) (source : String)
  /-- The new body has no forwarding call. -/
  | noForwardingCall (call : Text) (source : String) (method : Text)
  /-- A merge stopped. -/
  | aborted (message : String)
  /-- A merge ended, with carry-over put in or not. -/
  | merged (source : String) (inserted : Bool)
  /-- The target holds the merged text already. -/
  | unchanged (target : String)
  /-- The merged text was written. -/
  | wrote (target : String)
  /-- A directory to compare does not exist. -/
  | missingDirectory (path : String)
  /-- A file holds the context and no model. -/
  | skippedContext (path : String)
  /-- The figures of a comparison. -/
  | compared (addedEntities removedEntities added removed changed : Nat)
  deriving DecidableEq

namespace Notice

def level : Notice → Level
  | unpairedMarker .. | severalSignatures .. | noForwardingCall .. | missingDirectory .. => .warning
  | noBlock .. | noLambda .. | openEnded .. | strippedEntities .. | extracted ..
  | skippedContext .. => .debug
  | merged .. | unchanged .. | wrote .. | compared .. => .info
  | aborted .. => .error

/-- The name of a source in a message, with a word for one that has no name. -/
def sourceOr (source word : String) : String :=
  if source.isEmpty then word else source

def text : Notice → String
  | unpairedMarker offset =>
      s!"[Merge] Begin marker at offset {offset} has no end marker, " ++
        "dropping only the marker line and keeping the code after it"
  | severalSignatures count offset =>
      s!"[Merge] {count} signatures match, using the first at offset {offset}"
  | noBlock offset => s!"[Merge] Signature at offset {offset} has no block body"
  | noLambda offset => s!"[Merge] Anchor at offset {offset} has no lambda body, keeping it as is"
  | openEnded offset =>
      s!"[Merge] Anchor at offset {offset} does not end after its block, keeping it as is"
  | strippedEntities count => s!"[Merge] Removed {count} entity block(s)"
  | extracted lineCount source =>
      s!"[Merge] Extracted {lineCount} line(s) of carry-over from " ++ sourceOr source "old text"
  | noForwardingCall call source method =>
      "[Merge] No " ++ String.ofList call ++ " call in " ++ sourceOr source "new text" ++
        ", appending carry-over at the end of " ++ String.ofList method
  | aborted message => "[Merge] " ++ message
  | merged source inserted =>
      "[Merge] " ++ sourceOr source "context" ++ ": " ++
        (if inserted then "carry-over inserted" else "nothing to carry over")
  | unchanged target => "[Merge] " ++ target ++ " unchanged, not rewriting"
  | wrote target => "[Merge] Wrote merged context to " ++ target
  | missingDirectory path => "[Diff] Model directory not found: " ++ path
  | skippedContext path => "[Diff] Skipping context file " ++ path
  | compared addedEntities removedEntities added removed changed =>
      s!"[Diff] {addedEntities} added, {removedEntities} removed entities; " ++
        s!"properties +{added} -{removed} ~{changed}"

def line (n : Notice) : String :=
  n.level.name ++ ": " ++ n.text

/-- The notices that matter at least as much as a level, in order. -/
def atLeast (least : Level) (notices : List Notice) : List Notice :=
  notices.filter fun n => least.rank ≤ n.level.rank

end Notice

end Regraft
