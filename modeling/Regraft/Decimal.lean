import Regraft.Text.Basic

/-!
# Regraft.Decimal -- decimals for floating-point numbers

A finite floating-point number is a whole number times a power of two.  Its text has the fewest
decimal digits that read back to it; of several such decimals it is the nearest, and of two equally
near ones the even one.  The digits are found in exact arithmetic: a decimal reads back when it
lies between the midpoints to the two neighbours of the number (`Dyadic.isReadFrom`), which are
tried on coarser grids before finer ones.
-/

namespace Regraft

set_option autoImplicit false

/-- The number `digits * 10 ^ scale`. -/
structure Decimal where
  digits : Nat
  scale : Int
  deriving DecidableEq

/-- The number `mantissa * 2 ^ exponent`. -/
structure Dyadic where
  mantissa : Nat
  exponent : Int
  deriving DecidableEq

namespace Dyadic

/-- The number of which 64 bits without their sign are the floating-point form, where it is
finite. -/
def ofBits (bits : Nat) : Dyadic :=
  let exponent := bits / 0x10000000000000 % 0x800
  let fraction := bits % 0x10000000000000
  if exponent = 0 then ⟨fraction, -1074⟩
  else ⟨0x10000000000000 + fraction, (exponent : Int) - 1075⟩

/-- Whether the neighbour below is nearer than the one above: so it is at a power of two, unless
the numbers are as close as they get. -/
def isNarrow (x : Dyadic) : Bool :=
  x.mantissa == 0x10000000000000 && decide (-1074 < x.exponent)

/-- The order of a decimal and a number in powers of two. -/
def order (d : Decimal) (x : Dyadic) : Ordering :=
  compare (d.digits * Nat.pow 10 d.scale.toNat * Nat.pow 2 (-x.exponent).toNat)
    (x.mantissa * Nat.pow 2 x.exponent.toNat * Nat.pow 10 (-d.scale).toNat)

/-- Whether a decimal is read as a number: it lies between the midpoints to the neighbours.  The
midpoints belong to the number with the even mantissa. -/
def isReadFrom (x : Dyadic) (d : Decimal) : Bool :=
  let low : Dyadic := ⟨4 * x.mantissa - (if x.isNarrow then 1 else 2), x.exponent - 2⟩
  let high : Dyadic := ⟨4 * x.mantissa + 2, x.exponent - 2⟩
  let closed := x.mantissa % 2 == 0
  let above := order d low
  let below := order d high
  (above == .gt || (closed && above == .eq)) && (below == .lt || (closed && below == .eq))

/-- The nearest multiple of `10 ^ scale` that is read as a number, if one is. -/
def onGrid? (x : Dyadic) (scale : Int) : Option Decimal :=
  let num := x.mantissa * Nat.pow 2 x.exponent.toNat * Nat.pow 10 (-scale).toNat
  let den := Nat.pow 2 (-x.exponent).toNat * Nat.pow 10 scale.toNat
  let floor := num / den
  let half := (2 * floor + 1) * den
  let near := if 2 * num < half || (2 * num == half && floor % 2 == 0) then floor else floor + 1
  let far := if near == floor then floor + 1 else floor
  [near, far].findSome? fun digits =>
    if x.isReadFrom ⟨digits, scale⟩ then some ⟨digits, scale⟩ else none

/-- How many digits a number that is not zero has before the decimal point; less than one, where
zeros follow the point. -/
def places (x : Dyadic) : Int :=
  let guess := ((x.mantissa.log2 : Int) + x.exponent) * 30103 / 100000
  let reached := fun (k : Int) => order ⟨1, k⟩ x == .gt
  if reached guess then guess else if reached (guess + 1) then guess + 1 else guess + 2

/-- The number itself, which has a decimal. -/
def exact (x : Dyadic) : Decimal :=
  if x.exponent < 0 then ⟨x.mantissa * Nat.pow 5 (-x.exponent).toNat, x.exponent⟩
  else ⟨x.mantissa * Nat.pow 2 x.exponent.toNat, 0⟩

/-- The decimal with the fewest digits that is read as a number. -/
def decimal (x : Dyadic) : Decimal :=
  if x.mantissa = 0 then ⟨0, 0⟩
  else ((List.range 17).findSome? fun (n : Nat) => x.onGrid? (x.places - (n + 1))).getD x.exact

end Dyadic

namespace Decimal

/-- A point in digits, before as many of them as there are places; zeros fill gaps, and a digit
stands on either side. -/
def withPoint (ds : List Char) (before : Int) : List Char :=
  let front := if before ≤ 0 then ['0'] else
    ds.take before.toNat ++ List.replicate (before.toNat - ds.length) '0'
  let back := List.replicate (-before).toNat '0' ++ ds.drop before.toNat
  front ++ '.' :: (if back.isEmpty then ['0'] else back)

/-- A decimal as text: with a point where its first digit is from the sixteenth before to the
fourth after the point, else with an exponent of two digits or more. -/
def text (d : Decimal) : List Char :=
  let all := Nat.toDigits 10 d.digits
  let ds := (all.reverse.dropWhile (· == '0')).reverse
  let before := (all.length : Int) + d.scale
  if d.digits = 0 then ['0', '.', '0']
  else if -4 < before ∧ before ≤ 16 then withPoint ds before
  else
    let exponent := before - 1
    let number := Nat.toDigits 10 exponent.natAbs
    let fraction := if ds.length ≤ 1 then [] else '.' :: ds.tail
    ds.take 1 ++ fraction ++ 'e' :: (if exponent < 0 then '-' else '+') ::
      (List.replicate (2 - number.length) '0' ++ number)

def magnitude (x : Float) : Nat :=
  x.toBits.toNat % 0x8000000000000000

def isNegative (x : Float) : Bool :=
  decide (0x8000000000000000 ≤ x.toBits.toNat)

/-- The bits of infinity; those of what is no number are beyond. -/
def infinityBits : Nat := 0x7FF0000000000000

def ofFloat (x : Float) : List Char :=
  let bits := magnitude x
  let sign := if isNegative x then ['-'] else []
  if infinityBits < bits then "nan".toList
  else if bits = infinityBits then sign ++ "inf".toList
  else sign ++ (Dyadic.ofBits bits).decimal.text

end Decimal

end Regraft
