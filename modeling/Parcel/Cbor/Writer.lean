import Parcel.Cbor.Item
import Parcel.Text.Utf8

/-!
# Writing data items

Headers are as short as their argument allows, lengths are always given in advance, and a double is
written in the narrowest format that keeps its bits.

## Main definitions

* `Cbor.head`: a major type with its argument
* `Cbor.doubleBytes`: a double
* `Item.write`: the bytes of an item
-/

namespace Parcel.Cbor

/-- A major type and its argument in as few bytes as possible. -/
def head (major argument : Nat) : Bytes :=
  let first (additional : Nat) : UInt8 := UInt8.ofNat (32 * major + additional)
  if argument < 24 then [first argument]
  else if argument < UInt8.size then first 24 :: Bytes.bigEndian 1 argument
  else if argument < UInt16.size then first 25 :: Bytes.bigEndian 2 argument
  else if argument < UInt32.size then first 26 :: Bytes.bigEndian 4 argument
  else first 27 :: Bytes.bigEndian 8 argument

/-- A double in half, single or double precision, whichever is the first to keep its bits. -/
def doubleBytes (x : Double) : Bytes :=
  match x.narrow? .half with
  | some bits => 0xf9 :: Bytes.bigEndian 2 bits
  | none =>
    match x.narrow? .single with
    | some bits => 0xfa :: Bytes.bigEndian 4 bits
    | none => 0xfb :: Bytes.bigEndian 8 x.bits.toNat

/-- An integer: a negative one by its distance from minus one. -/
def integerBytes (n : Int) : Bytes :=
  if n < 0 then head 1 (-1 - n).natAbs else head 0 n.natAbs

/-- A text: its length in bytes, and the bytes. -/
def textBytes (s : String) : Bytes :=
  head 3 s.utf8ByteSize ++ Utf8.bytes s

namespace Item

mutual

/-- The bytes of an item. -/
def write : Item → Bytes
  | .null => [0xf6]
  | .bool false => [0xf4]
  | .bool true => [0xf5]
  | .integer n => integerBytes n
  | .double x => doubleBytes x
  | .text s => textBytes s
  | .bytes b => head 2 b.length ++ b
  | .tag number content => head 6 number ++ write content
  | .array items => head 4 items.length ++ writeItems items
  | .map entries => head 5 entries.length ++ writeEntries entries

/-- The bytes of the items of an array. -/
def writeItems : List Item → Bytes
  | [] => []
  | item :: rest => write item ++ writeItems rest

/-- The bytes of the entries of a map. -/
def writeEntries : List (Item × Item) → Bytes
  | [] => []
  | (key, value) :: rest => write key ++ write value ++ writeEntries rest

end

end Item

end Parcel.Cbor
