/-!
# Binary floating point numbers by their bits

A double is its 64 bits. What it stands for is read off its three fields as an exact integer times a
power of two, so that reading, writing and comparing need only natural number arithmetic.

## Main definitions

* `BinaryFormat`: an interchange format of half, single or double precision
* `BinaryFormat.nearest`: the bits of the magnitude nearest to a quotient, a tie going to the even
  significand
* `Double`, `Double.significand`, `Double.exponent`: a double and its exact magnitude
* `Double.same`: numerical equality of finite doubles, under which the two zeros agree
-/

namespace Parcel

/-- A binary interchange format: one sign bit, an exponent field and a fraction field. -/
structure BinaryFormat where
  fractionBits : Nat
  exponentBits : Nat
deriving DecidableEq, Repr

namespace BinaryFormat

/-- Half precision: 16 bits. -/
def half : BinaryFormat := ⟨10, 5⟩

/-- Single precision: 32 bits. -/
def single : BinaryFormat := ⟨23, 8⟩

/-- Double precision: 64 bits. -/
def double : BinaryFormat := ⟨52, 11⟩

variable (fmt : BinaryFormat)

/-- The exponent of the unit in the last place of the smallest magnitudes. -/
def leastExponent : Int :=
  2 - (1 <<< (fmt.exponentBits - 1) : Nat) - fmt.fractionBits

/-- The exponent field that infinities and NaNs carry. -/
def topField : Nat :=
  (1 <<< fmt.exponentBits) - 1

/-- The bits of positive infinity. -/
def infinityBits : Nat :=
  fmt.topField <<< fmt.fractionBits

/-- The bit that carries the sign. -/
def signBit : Nat :=
  1 <<< (fmt.fractionBits + fmt.exponentBits)

/-- The fraction field of `bits`. -/
def fractionField (bits : Nat) : Nat :=
  bits % (1 <<< fmt.fractionBits)

/-- The exponent field of `bits`. -/
def exponentField (bits : Nat) : Nat :=
  (bits >>> fmt.fractionBits) % (1 <<< fmt.exponentBits)

/-- Whether `bits` carry a minus sign. -/
def isNegative (bits : Nat) : Bool :=
  bits / fmt.signBit % 2 == 1

/-- The integer `m` of the magnitude `m · 2 ^ q` of finite `bits`. -/
def significand (bits : Nat) : Nat :=
  if fmt.exponentField bits = 0 then fmt.fractionField bits
  else (1 <<< fmt.fractionBits) + fmt.fractionField bits

/-- The exponent `q` of the magnitude `m · 2 ^ q` of finite `bits`. -/
def exponent (bits : Nat) : Int :=
  fmt.leastExponent + (fmt.exponentField bits - 1 : Nat)

end BinaryFormat

/-- The quotient `num / den` rounded to an integer, a tie going to the even one. -/
def roundedQuotient (num den : Nat) : Nat :=
  let quotient := num / den
  let twice := 2 * (num % den)
  if twice < den then quotient
  else if twice = den then quotient + quotient % 2
  else quotient + 1

/-- A quotient scaled by a power of two: `(num · 2 ^ shift) / den` as numerator and denominator. -/
def scaledQuotient (num den : Nat) (shift : Int) : Nat × Nat :=
  if 0 ≤ shift then (num <<< shift.toNat, den) else (num, den <<< (-shift).toNat)

/-- The exponent of the greatest power of two that is at most the positive quotient `num / den`. -/
def floorLog2 (num den : Nat) : Int :=
  let guess : Int := (num.log2 : Int) - den.log2
  let (scaled, unit) := scaledQuotient num den (-guess)
  if unit ≤ scaled then guess else guess - 1

namespace BinaryFormat

/-- The bits of the magnitude nearest to `num / den`; a tie goes to the even significand, and what
lies beyond the greatest finite magnitude becomes infinity. Consecutive magnitudes have consecutive
bits, so a significand that is rounded up to the next power of two needs no case of its own. -/
def nearest (fmt : BinaryFormat) (num den : Nat) : Nat :=
  if num = 0 then 0
  else
    let unit := max (floorLog2 num den - fmt.fractionBits) fmt.leastExponent
    let (scaled, divisor) := scaledQuotient num den (-unit)
    let steps := (unit - fmt.leastExponent).toNat
    min ((steps <<< fmt.fractionBits) + roundedQuotient scaled divisor) fmt.infinityBits

end BinaryFormat

/-- A double precision number, by its bits. -/
structure Double where
  bits : UInt64
deriving DecidableEq, Repr, Inhabited

namespace Double

/-- The double with the sign and magnitude bits given. -/
def ofMagnitude (negative : Bool) (magnitude : Nat) : Double :=
  ⟨UInt64.ofNat (if negative then BinaryFormat.double.signBit + magnitude else magnitude)⟩

/-- Positive zero. -/
def zero : Double := ⟨0⟩

/-- Whether the sign bit is set, as it is for negative zero too. -/
def isNegative (x : Double) : Bool :=
  BinaryFormat.double.isNegative x.bits.toNat

/-- The integer `m` of the magnitude `m · 2 ^ q` of a finite double. -/
def significand (x : Double) : Nat :=
  BinaryFormat.double.significand x.bits.toNat

/-- The exponent `q` of the magnitude `m · 2 ^ q` of a finite double. -/
def exponent (x : Double) : Int :=
  BinaryFormat.double.exponent x.bits.toNat

/-- Neither an infinity nor a NaN. -/
def isFinite (x : Double) : Bool :=
  BinaryFormat.double.exponentField x.bits.toNat < BinaryFormat.double.topField

/-- An infinity. -/
def isInfinite (x : Double) : Bool :=
  !x.isFinite && BinaryFormat.double.fractionField x.bits.toNat == 0

/-- Not a number. -/
def isNaN (x : Double) : Bool :=
  !x.isFinite && BinaryFormat.double.fractionField x.bits.toNat != 0

/-- Positive or negative zero. -/
def isZero (x : Double) : Bool :=
  x.bits.toNat % BinaryFormat.double.signBit == 0

/-- The double without its sign. -/
def abs (x : Double) : Double :=
  ofMagnitude false (x.bits.toNat % BinaryFormat.double.signBit)

/-- The double with the opposite sign. -/
def neg (x : Double) : Double :=
  ofMagnitude (!x.isNegative) (x.bits.toNat % BinaryFormat.double.signBit)

/-- Numerical equality: the two zeros agree, and a NaN agrees with nothing. -/
def same (x y : Double) : Bool :=
  (x.isZero && y.isZero) || (x == y && !x.isNaN)

/-- The magnitude of a finite double as numerator and denominator. -/
def ratio (x : Double) : Nat × Nat :=
  scaledQuotient x.significand 1 x.exponent

/-- The double nearest to a natural number. -/
def ofNat (n : Nat) : Double :=
  ofMagnitude false (BinaryFormat.double.nearest n 1)

/-- The double nearest to an integer. -/
def ofInt (n : Int) : Double :=
  ofMagnitude (n < 0) (BinaryFormat.double.nearest n.natAbs 1)

/-- The product of two finite magnitudes, rounded once. -/
def mulMagnitude (x y : Double) : Double :=
  let (xNum, xDen) := x.ratio
  let (yNum, yDen) := y.ratio
  ofMagnitude false (BinaryFormat.double.nearest (xNum * yNum) (xDen * yDen))

/-- The quotient of two finite magnitudes, the second of them positive, rounded once. -/
def divMagnitude (x y : Double) : Double :=
  let (xNum, xDen) := x.ratio
  let (yNum, yDen) := y.ratio
  ofMagnitude false (BinaryFormat.double.nearest (xNum * yDen) (xDen * yNum))

/-- The double with the value of `bits` in another format; a NaN keeps its payload. -/
def widen (fmt : BinaryFormat) (bits : Nat) : Double :=
  let magnitude :=
    if fmt.exponentField bits = fmt.topField then
      BinaryFormat.double.infinityBits
        + (fmt.fractionField bits <<< (BinaryFormat.double.fractionBits - fmt.fractionBits))
    else
      let (num, den) := scaledQuotient (fmt.significand bits) 1 (fmt.exponent bits)
      BinaryFormat.double.nearest num den
  ofMagnitude (fmt.isNegative bits) magnitude

/-- The bits of a double in a narrower format, its low digits given up. -/
def narrowed (fmt : BinaryFormat) (x : Double) : Nat :=
  let magnitude :=
    if x.isFinite then
      let (num, den) := x.ratio
      fmt.nearest num den
    else
      fmt.infinityBits + (BinaryFormat.double.fractionField x.bits.toNat
        >>> (BinaryFormat.double.fractionBits - fmt.fractionBits))
  if x.isNegative then fmt.signBit + magnitude else magnitude

/-- The bits of a double in a narrower format, if they widen to the same double again. -/
def narrow? (fmt : BinaryFormat) (x : Double) : Option Nat :=
  if widen fmt (x.narrowed fmt) = x then some (x.narrowed fmt) else none

/-- What is narrowed widens to the double it came from. -/
theorem widen_of_narrow?_eq_some {fmt : BinaryFormat} {x : Double} {bits : Nat}
    (h : narrow? fmt x = some bits) : widen fmt bits = x := by
  rw [narrow?, Option.ite_none_right_eq_some] at h
  obtain ⟨heq, hbits⟩ := h
  exact Option.some.inj hbits ▸ heq

end Double

end Parcel
