import Regraft.Brace

/-!
# Regraft.Failure -- why a merge stops

Every failure means that nothing may be written.  `Failure.kind` is the word that results carry,
`Failure.message` the sentence for people.
-/

namespace Regraft

set_option autoImplicit false

/-- The reasons for which a merge stops. -/
inductive Failure where
  /-- The method is not declared in the text, or it has no block. -/
  | methodNotFound (method : Text) (source : String)
  /-- A block is open at the end of the text. -/
  | unclosedBrace (offset depth : Nat)
  /-- Several declarations fit where one is wanted. -/
  | ambiguousMethod (method : Text) (count : Nat)
  /-- The merged body does not close its blocks. -/
  | unbalancedBody (method : Text) (source : String)
  deriving DecidableEq

namespace Failure

def kind : Failure → String
  | methodNotFound .. => "no_method_found"
  | unclosedBrace .. => "unbalanced_braces"
  | ambiguousMethod .. => "ambiguous_method"
  | unbalancedBody .. => "merge_error"

def message : Failure → String
  | methodNotFound method source =>
      "Method '" ++ String.ofList method ++ "' not found" ++
        (if source.isEmpty then "" else " in " ++ source)
  | unclosedBrace offset depth => Brace.unclosedMessage offset depth
  | ambiguousMethod method count =>
      "Found " ++ toString count ++ " candidate signatures for '" ++ String.ofList method ++
        "', expected one"
  | unbalancedBody method source =>
      "Merged " ++ String.ofList method ++ " body in " ++
        (if source.isEmpty then "context" else source) ++ " is not brace-balanced"

end Failure

end Regraft
