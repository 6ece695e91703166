import Regraft.CarryOver

/-!
# Regraft.Merge -- one old text and one new text

A merge passes four stages: extract the carry-over of the old text, locate the method in the new
one, compose the merged text, validate it.  A failure in any of them aborts: nothing of the new
text is changed and the carry-over found so far is kept for the report.  The result is a value,
never an exception.
-/

namespace Regraft

set_option autoImplicit false

inductive Stage where
  | extractOld
  | locateNew
  | compose
  | validate
  deriving DecidableEq

def Stage.name : Stage → String
  | extractOld => "extract_old"
  | locateNew => "locate_new"
  | compose => "compose"
  | validate => "validate"

inductive MergeResult where
  /-- All stages passed; there is no plan where there was nothing to carry over. -/
  | done (preserved : Text) (plan : Option CarryOver.Plan) (merged : Text)
  /-- A stage failed; the message names the text it failed on. -/
  | aborted (preserved : Text) (stage : Stage) (cause : Failure) (message : String)
  deriving DecidableEq

/-! What a report shows of a result; what does not apply to it is the empty text. -/

namespace MergeResult

def success : MergeResult → Bool
  | done .. => true
  | aborted .. => false

/-- The stage at which a merge stands when it is over. -/
def stage : MergeResult → String
  | done .. => "done"
  | aborted .. => "aborted"

def failedStage : MergeResult → String
  | done .. => ""
  | aborted _ stage _ _ => stage.name

def errorKind : MergeResult → String
  | done .. => ""
  | aborted _ _ cause _ => cause.kind

def error : MergeResult → String
  | done .. => ""
  | aborted _ _ _ message => message

def preserved : MergeResult → Text
  | done preserved .. => preserved
  | aborted preserved .. => preserved

def merged? : MergeResult → Option Text
  | done _ _ merged => some merged
  | aborted .. => none

def plan? : MergeResult → Option CarryOver.Plan
  | done _ plan _ => plan
  | aborted .. => none

def changed (r : MergeResult) : Bool :=
  r.plan?.isSome

end MergeResult

namespace Merge

/-- A merged text passes when its method is found again and closes its blocks. -/
def validate (r : Rules) (source : String) (merged : Text) : Attempt Failure Unit := do
  let m ← CarryOver.locate r source merged
  if !Brace.isBalanced m.body then
    throw (.unbalancedBody r.signature.method source)

def abortMessage (r : Rules) (source : String) (cause : Failure) : String :=
  "Cannot safely merge " ++ String.ofList r.signature.method ++
    (if source.isEmpty then "" else " (" ++ source ++ ")") ++ ": " ++ cause.message ++
    ". Aborting to avoid data loss; no changes were applied."

/-- Where the stages after extraction stop: the stage, and why. -/
structure Stop where
  stage : Stage
  cause : Failure

/-- Mark the failure of an attempt with the stage it belongs to. -/
def inStage {α : Type} (stage : Stage) (x : Attempt Failure α) : Attempt Stop α :=
  ⟨x.notices, x.outcome.mapError fun cause => ⟨stage, cause⟩⟩

/-- The stages after extraction: the plan and the merged text. -/
def compose (r : Rules) (source : String) (preserved new : Text) :
    Attempt Stop (Option CarryOver.Plan × Text) := do
  let _ ← inStage .locateNew (CarryOver.locate r source new)
  let plan ← inStage .compose (CarryOver.plan r source preserved new)
  let merged := CarryOver.apply plan new
  inStage .validate (validate r source merged)
  return (plan, merged)

/-- The end of a merge that failed, and what is noticed of it. -/
def abort (r : Rules) (source : String) (preserved : Text) (stop : Stop) :
    List Notice × MergeResult :=
  let message := abortMessage r source stop.cause
  ([.aborted message], .aborted preserved stop.stage stop.cause message)

/-- Merge the carry-over of an old text into a new one. -/
def run (r : Rules) (oldSource newSource : String) (old new : Text) :
    List Notice × MergeResult :=
  let found := CarryOver.extract r oldSource old
  match found.outcome with
  | .error cause =>
      let (ns, result) := abort r oldSource [] ⟨.extractOld, cause⟩
      (found.notices ++ ns, result)
  | .ok preserved =>
      let rest := compose r newSource preserved new
      match rest.outcome with
      | .error stop =>
          let (ns, result) := abort r newSource preserved stop
          (found.notices ++ rest.notices ++ ns, result)
      | .ok (plan, merged) =>
          (found.notices ++ rest.notices ++ [.merged newSource plan.isSome],
            .done preserved plan merged)

/-- Merge a text with one new text after the other; each merge that ends well gives the text
for the next. -/
def chain (r : Rules) (current : Text) : List Text → List Notice × List MergeResult × Text
  | [] => ([], [], current)
  | new :: more =>
      let (ns, result) := run r "" "" current new
      let (later, results, final) := chain r (result.merged?.getD current) more
      (ns ++ later, result :: results, final)

end Merge

end Regraft
