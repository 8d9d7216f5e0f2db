import Parcel.Double

/-!
# The fewest decimal digits that read back

A finite positive double stands for every real number that rounds to it. Of the decimal grids with
one, two, … significant digits the first that has a point among those reals gives the digits, and of
two such points the nearer one; an exact tie is left to the caller's style.

## Main definitions

* `Shortest.Tie`: where a value halfway between two grid points goes
* `Shortest.Digits`: significant digits and the decimal exponent of the first one
* `Double.shortest`: the digits of a positive double
-/

namespace Parcel

namespace Shortest

/-- Where a value goes that lies halfway between two points of the grid. -/
inductive Tie
  | toEven
  | up
deriving DecidableEq, Repr

/-- Significant decimal digits without trailing zeros, and the exponent of the first of them. -/
structure Digits where
  digits : List Char
  exponent : Int
deriving DecidableEq, Repr

/-- The digits of a grid point `point · 10 ^ unit`. -/
def Digits.ofPoint (point : Nat) (unit : Int) : Digits :=
  let all := Nat.toDigits 10 point
  let kept := (all.reverse.dropWhile (· == '0')).reverse
  ⟨kept, unit + all.length - 1⟩

/-- The reals that round to a double: the value and the two ends, in quarter units of its last
place, and whether the ends belong to them. -/
structure Neighbourhood where
  lower : Nat
  value : Nat
  upper : Nat
  closed : Bool
  exponent : Int

/-- The reals that round to a positive double. Below a power of two the gap is half as wide. -/
def Neighbourhood.ofDouble (x : Double) : Neighbourhood :=
  let m := x.significand
  let narrow := BinaryFormat.double.fractionField x.bits.toNat = 0
    ∧ 1 < BinaryFormat.double.exponentField x.bits.toNat
  { lower := 4 * m - (if narrow then 1 else 2)
    value := 4 * m
    upper := 4 * m + 2
    closed := m % 2 == 0
    exponent := x.exponent - 2 }

/-- Numerator and denominator of the quarter unit of a neighbourhood over `10 ^ unit`. -/
def Neighbourhood.scale (around : Neighbourhood) (unit : Int) : Nat × Nat :=
  let (num, den) := scaledQuotient 1 1 around.exponent
  if 0 ≤ unit then (num, den * Nat.pow 10 unit.toNat) else (num * Nat.pow 10 (-unit).toNat, den)

/-- The point of the grid of `10 ^ unit` that is nearest to the value, among those of its two
neighbours on the grid that round to the same double. -/
def Neighbourhood.point? (around : Neighbourhood) (tie : Tie) (unit : Int) : Option Nat :=
  let (num, den) := around.scale unit
  let below := around.value * num / den
  let inside (point : Nat) : Bool :=
    if around.closed then around.lower * num ≤ point * den && point * den ≤ around.upper * num
    else around.lower * num < point * den && point * den < around.upper * num
  let twice := 2 * (around.value * num)
  let middle := (2 * below + 1) * den
  let nearer :=
    if twice < middle then below
    else if middle < twice then below + 1
    else match tie with
      | .toEven => below + below % 2
      | .up => below + 1
  match inside below, inside (below + 1) with
  | true, true => some nearer
  | true, false => some below
  | false, true => some (below + 1)
  | false, false => none

/-- The exponent of the greatest power of ten that is at most `num / den`. Its logarithm base two is
known to within one, and 30103 / 100000 is close enough to the ratio of the two logarithms for every
double. -/
def floorLog10 (num den : Nat) : Int :=
  let guess := (floorLog2 num den * 30103).fdiv 100000
  let reaches :=
    if 0 ≤ guess + 1 then den * Nat.pow 10 (guess + 1).toNat ≤ num
    else den ≤ num * Nat.pow 10 (-(guess + 1)).toNat
  if reaches then guess + 1 else guess

/-- The most significant digits any double needs. -/
def maxDigits : Nat := 17

end Shortest

open Shortest

/-- The fewest significant digits that read back as the positive double `x`. -/
def Double.shortest (x : Double) (tie : Tie) : Digits :=
  let around := Neighbourhood.ofDouble x
  let (num, den) := x.ratio
  let leading := floorLog10 num den
  let found := (List.range maxDigits).findSome? fun (count : Nat) =>
    let unit := leading - (count : Nat)
    (around.point? tie unit).map fun point => Digits.ofPoint point unit
  found.getD ⟨['0'], 0⟩

end Parcel
