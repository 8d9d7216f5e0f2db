import Parcel.Double.Shortest

/-!
# Decimal text of doubles

A finite double is written with the fewest digits that read back: positionally, with a point and at
least one digit behind it, when the exponent of its first digit is in the style's range, otherwise
as a significand with an exponent.

## Main definitions

* `DecimalStyle`: the choices of a text form
* `DecimalStyle.text`: the text of a double
-/

namespace Parcel

open Shortest

/-- The choices of a decimal text form. -/
structure DecimalStyle where
  /-- The least exponent of the first digit that is written positionally. -/
  leastPositional : Int
  /-- The greatest exponent of the first digit that is written positionally. -/
  greatestPositional : Int
  /-- What stands before a positive exponent. -/
  plus : List Char
  /-- Where a tie between two shortest candidates goes. -/
  tie : Tie

namespace DecimalStyle

/-- Digits with the point after the first `whole` of them, zeros filling up either side. -/
def positional (digits : List Char) (exponent : Int) : List Char :=
  if exponent < 0 then
    '0' :: '.' :: List.replicate (-exponent - 1).toNat '0' ++ digits
  else
    let whole := exponent.toNat + 1
    if digits.length ≤ whole then
      digits ++ List.replicate (whole - digits.length) '0' ++ ['.', '0']
    else
      digits.take whole ++ '.' :: digits.drop whole

/-- A significand with one digit before the point, and the exponent. -/
def scientific (plus digits : List Char) (exponent : Int) : List Char :=
  let significand := match digits with
    | first :: second :: rest => first :: '.' :: second :: rest
    | short => short
  let sign := if exponent < 0 then ['-'] else plus
  significand ++ 'e' :: sign ++ Nat.toDigits 10 exponent.natAbs

/-- The text of a magnitude other than zero. -/
def magnitude (style : DecimalStyle) (x : Double) : List Char :=
  let ⟨digits, exponent⟩ := x.shortest style.tie
  if style.leastPositional ≤ exponent ∧ exponent ≤ style.greatestPositional then
    positional digits exponent
  else
    scientific style.plus digits exponent

/-- The text of a double. Zero keeps its sign; a NaN has none. -/
def text (style : DecimalStyle) (x : Double) : List Char :=
  if x.isNaN then "NaN".toList
  else
    let sign := if x.isNegative then ['-'] else []
    let magnitude :=
      if x.isInfinite then "inf".toList
      else if x.isZero then "0.0".toList
      else style.magnitude x.abs
    sign ++ magnitude

end DecimalStyle

end Parcel
