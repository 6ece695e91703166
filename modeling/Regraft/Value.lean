import Regraft.Decimal
import Regraft.Moment
import Regraft.Text.Quoted

/-!
# Regraft.Value -- the values a configuration can hold

A configuration is a mapping from names to values of any kind.  `Value.display` is the text of a
value where a text is wanted, `Value.truth` its truth where a switch is wanted, and `field?` reads
a mapping in which a repeated name counts by its last value.  Whole numbers of any size can be
held; those with too many digits have no text (`Value.isShowable`).  Of values of further kinds, as
byte strings, sets and tuples, and of collections that hold themselves, nothing counts but their
text and their truth (`Value.other`).
-/

namespace Regraft

set_option autoImplicit false

inductive Value where
  | null
  | bool (b : Bool)
  | int (i : Int)
  | float (x : Float)
  | moment (m : Moment)
  | text (s : String)
  | list (items : List Value)
  | map (entries : List (Value × Value))
  /-- A value of another kind, with its text if it has one. -/
  | other (shown : Option String) (truth : Bool)
  deriving Inhabited

namespace Value

/-- Whether a value counts as switched on: null, zero and everything empty do not. -/
def truth : Value → Bool
  | null => false
  | bool b => b
  | int i => i != 0
  | float x => Decimal.magnitude x != 0
  | moment _ => true
  | text s => !s.isEmpty
  | list items => !items.isEmpty
  | map entries => !entries.isEmpty
  | other _ truth => truth

mutual

/-- A value inside a list or a mapping: texts stand between quotes. -/
def inner : Value → String
  | null => "None"
  | bool b => if b then "True" else "False"
  | int i => toString i
  | float x => String.ofList (Decimal.ofFloat x)
  | moment m => m.parts
  | text s => Text.quoted s
  | list items => "[" ++ innerList true items ++ "]"
  | map entries => "\x7b" ++ innerEntries true entries ++ "\x7d"
  | other shown _ => shown.getD ""

def innerList (first : Bool) : List Value → String
  | [] => ""
  | v :: more => (if first then "" else ", ") ++ inner v ++ innerList false more

def innerEntries (first : Bool) : List (Value × Value) → String
  | [] => ""
  | (k, v) :: more =>
      (if first then "" else ", ") ++ inner k ++ ": " ++ inner v ++ innerEntries false more

end

/-- The text of a value: a text is its own. -/
def display : Value → String
  | text s => s
  | moment m => m.text
  | v => inner v

/-- The most digits of a whole number that is written or read in decimal digits. -/
def digitLimit : Nat := 4300

mutual

/-- Whether a value has a text: no whole number in it has too many digits. -/
def isShowable : Value → Bool
  | int i => decide (i.natAbs < Nat.pow 10 digitLimit)
  | list items => areShowable items
  | map entries => haveShowable entries
  | other shown _ => shown.isSome
  | _ => true

def areShowable : List Value → Bool
  | [] => true
  | v :: more => isShowable v && areShowable more

def haveShowable : List (Value × Value) → Bool
  | [] => true
  | (k, v) :: more => isShowable k && isShowable v && haveShowable more

end

def isText (name : String) : Value → Bool
  | text s => s == name
  | _ => false

/-- The value of a name among entries; of a name given twice, the last value. -/
def field? (entries : List (Value × Value)) (name : String) : Option Value :=
  (entries.reverse.find? fun e => e.1.isText name).map Prod.snd

/-- The entries of a mapping; a value of another kind has none. -/
def entries : Value → List (Value × Value)
  | map es => es
  | _ => []

end Value

end Regraft
