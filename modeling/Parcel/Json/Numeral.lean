import Parcel.Json

/-!
# Numbers in JSON text

An integer in range stays an integer. Everything else becomes a double in a fixed number of rounded
steps: the digits that fit 64 bits form a significand, and one multiplication or division by a power
of ten scales it, so the double is close to the written number and not always the nearest one.

## Main definitions

* `Numeral`: the parts of a written number
* `Numeral.read?`: the number at the front of a text
* `Numeral.scaled?`: a significand times a power of ten
* `Numeral.value?`: the value of a written number
-/

namespace Parcel

/-- The parts of a written number. -/
structure Numeral where
  negative : Bool
  whole : List Char
  fraction : List Char
  exponent : Int
  /-- Written without a fraction and without an exponent. -/
  integral : Bool

namespace Numeral

/-- The value of a decimal digit. -/
def digitValue (c : Char) : Nat :=
  c.toNat - '0'.toNat

/-- The number that decimal digits stand for. -/
def digitsValue (digits : List Char) : Nat :=
  digits.foldl (fun n c => 10 * n + digitValue c) 0

/-- The decimal digits at the front, and the rest. -/
def digits (cs : List Char) : List Char × List Char :=
  (cs.takeWhile Char.isDigit, cs.dropWhile Char.isDigit)

/-- The whole part: a zero alone, or digits that do not start with one. -/
def whole? (cs : List Char) : Option (List Char × List Char) :=
  match digits cs with
  | ([], _) => none
  | ('0' :: _ :: _, _) => none
  | (found, rest) => some (found, rest)

/-- The fraction, if a point follows: at least one digit. -/
def fraction? : List Char → Option (List Char × List Char)
  | '.' :: rest =>
    match digits rest with
    | ([], _) => none
    | (found, rest) => some (found, rest)
  | cs => some ([], cs)

/-- An optional sign, and whether it is a minus. -/
def sign : List Char → Bool × List Char
  | '-' :: rest => (true, rest)
  | '+' :: rest => (false, rest)
  | cs => (false, cs)

/-- The exponent, if an `e` follows: at least one digit behind an optional sign. -/
def exponent? (cs : List Char) : Option (Option Int × List Char) :=
  match cs with
  | [] => some (none, [])
  | c :: rest =>
    if c = 'e' ∨ c = 'E' then
      let (negative, rest) := sign rest
      match digits rest with
      | ([], _) => none
      | (found, rest) =>
        let n := digitsValue found
        some (some (if negative then -(n : Int) else n), rest)
    else some (none, cs)

/-- The number at the front of a text, and the rest. -/
def read? (cs : List Char) : Option (Numeral × List Char) := do
  let (negative, cs) := match cs with
    | '-' :: rest => (true, rest)
    | cs => (false, cs)
  let (whole, cs) ← whole? cs
  let (fraction, cs) ← fraction? cs
  let (exponent, cs) ← exponent? cs
  let integral := fraction.isEmpty && exponent.isNone
  return (⟨negative, whole, fraction, exponent.getD 0, integral⟩, cs)

/-- The least significand that does not fit. -/
def significandBound : Nat := UInt64.size

/-- The significand that the whole part adds to `significand`, and how many digits it leaves out:
all of them from the first one that does not fit. -/
def gatherWhole (significand : Nat) : List Char → Nat × Nat
  | [] => (significand, 0)
  | c :: rest =>
    let next := 10 * significand + digitValue c
    if next < significandBound then gatherWhole next rest
    else (significand, rest.length + 1)

/-- The significand with the digits of the fraction that still fit, behind `taken` of them, and how
many there are. -/
def gatherFraction (significand taken : Nat) : List Char → Nat × Nat
  | [] => (significand, taken)
  | c :: rest =>
    let next := 10 * significand + digitValue c
    if next < significandBound then gatherFraction next (taken + 1) rest
    else (significand, taken)

/-- The greatest power of ten by which one step scales. -/
def greatestPower : Nat := 308

/-- The double nearest to a power of ten. -/
def powerOfTen (n : Nat) : Double :=
  Double.ofNat (Nat.pow 10 n)

/-- A magnitude over a power of ten, in steps of at most `greatestPower`. -/
def scaledDown (x : Double) (n : Nat) : Double :=
  if n ≤ greatestPower then x.divMagnitude (powerOfTen n)
  else if x.isZero then x
  else scaledDown (x.divMagnitude (powerOfTen greatestPower)) (n - greatestPower)
termination_by n
decreasing_by
  have : 0 < greatestPower := by decide
  omega

/-- The magnitude `significand · 10 ^ exponent`, if it does not overflow. -/
def scaled? (significand : Nat) (exponent : Int) : Option Double :=
  let x := Double.ofNat significand
  if exponent < 0 then some (scaledDown x exponent.natAbs)
  else if exponent ≤ greatestPower then
    let scaled := x.mulMagnitude (powerOfTen exponent.natAbs)
    if scaled.isFinite then some scaled else none
  else if x.isZero then some x
  else none

/-- The double that a number is read as. -/
def double? (n : Numeral) : Option Double := do
  let (significand, dropped) := gatherWhole 0 n.whole
  let (significand, taken) := gatherFraction significand 0 n.fraction
  let magnitude ← scaled? significand (dropped - taken + n.exponent)
  return if n.negative then magnitude.neg else magnitude

/-- The value of a written number: an integer where it can be one, but minus zero is a double. -/
def value? (n : Numeral) : Option Json :=
  let magnitude : Int := digitsValue n.whole
  let integer := if n.negative then -magnitude else magnitude
  if n.integral ∧ ¬(n.negative ∧ magnitude = 0) ∧ Json.isIntegerInRange integer then
    some (.integer integer)
  else (double? n).map .double

end Numeral

end Parcel
