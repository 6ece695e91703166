import Regraft.Text.Basic

/-!
# Regraft.Text.Order -- texts in the order of their code points

The order compares the first code points that differ; a text comes before its extensions.
-/

namespace Regraft.Text

set_option autoImplicit false

/-- Whether a text comes before another or equals it. -/
def le : Text → Text → Bool
  | [], _ => true
  | _ :: _, [] => false
  | a :: s, b :: t => a.toNat < b.toNat || (a == b && le s t)

def sortedSet (ts : List Text) : List Text :=
  (ts.eraseDups).mergeSort le

end Regraft.Text
