import Parcel.Double.Decimal
import Parcel.Json

/-!
# Compact JSON text

Values are written without blanks, entries in their own order. Texts escape the quote, the backslash
and the controls below the space, and nothing else.

## Main definitions

* `Json.quoted`: a text in quotes
* `Json.doubleStyle`: the form of doubles
* `Json.render`, `Json.toText`: the text of a value
-/

namespace Parcel.Json

/-- The escape of a control below the space: a letter where there is one, else its number. -/
def controlEscape (c : Char) : List Char :=
  if c.toNat = 8 then ['\\', 'b']
  else if c = '\t' then ['\\', 't']
  else if c = '\n' then ['\\', 'n']
  else if c.toNat = 12 then ['\\', 'f']
  else if c = '\r' then ['\\', 'r']
  else ['\\', 'u', '0', '0', Nat.digitChar (c.toNat / 16), Nat.digitChar (c.toNat % 16)]

/-- A character inside quotes. -/
def escaped (c : Char) : List Char :=
  if c = '"' then ['\\', '"']
  else if c = '\\' then ['\\', '\\']
  else if c.toNat < 0x20 then controlEscape c
  else [c]

/-- A text in quotes. -/
def quoted (s : String) : List Char :=
  '"' :: s.toList.flatMap escaped ++ ['"']

/-- Doubles are positional from 0.00001 up to 16 digits before the point; other exponents always
have a sign, and ties go to the even digit. -/
def doubleStyle : DecimalStyle where
  leastPositional := -5
  greatestPositional := 15
  plus := ['+']
  tie := .toEven

/-- Decimal digits of an integer, a minus sign before a negative one. -/
def integerText (n : Int) : List Char :=
  if n < 0 then '-' :: Nat.toDigits 10 n.natAbs else Nat.toDigits 10 n.natAbs

mutual

/-- The characters of a value. -/
def render : Json → List Char
  | .null => ['n', 'u', 'l', 'l']
  | .bool true => ['t', 'r', 'u', 'e']
  | .bool false => ['f', 'a', 'l', 's', 'e']
  | .integer n => integerText n
  | .double x => doubleStyle.text x
  | .text s => quoted s
  | .array [] => ['[', ']']
  | .array (first :: rest) => '[' :: render first ++ renderItems rest
  | .object [] => ['\x7b', '\x7d']
  | .object ((key, value) :: rest) =>
    '\x7b' :: quoted key ++ ':' :: render value ++ renderEntries rest

/-- The items of an array behind the first, and the closing bracket. -/
def renderItems : List Json → List Char
  | [] => [']']
  | item :: rest => ',' :: render item ++ renderItems rest

/-- The entries of an object behind the first, and the closing brace. -/
def renderEntries : List (String × Json) → List Char
  | [] => ['\x7d']
  | (key, value) :: rest => ',' :: quoted key ++ ':' :: render value ++ renderEntries rest

end

/-- The text of a value. -/
def toText (v : Json) : String :=
  String.ofList (render v)

end Parcel.Json

/-- The text of a mapping. -/
def Parcel.Entries.toText (entries : Parcel.Entries) : String :=
  Parcel.Json.toText (.object entries)
