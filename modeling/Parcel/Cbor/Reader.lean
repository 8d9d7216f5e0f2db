import Parcel.Cbor.Header
import Parcel.Cbor.Item
import Parcel.Text.Utf8

/-!
# Reading data items

The reader takes any well-formed encoding, not only the one that is written. Recursion is on the
levels that containers and tags may still use; the items of a container are a loop over the bytes.

## Main definitions

* `Cbor.readText`, `Cbor.readString`: a string of known length, and one in segments
* `Cbor.readMany`, `Cbor.readUntilStop`: the contents of a container
* `Item.read`: the item at the front of a byte string
-/

namespace Parcel.Cbor

/-- A reader of something at the front of a byte string, which leaves the bytes behind it. -/
abbrev Reader (α : Type) := Bytes → Except Fault (α × Bytes)

/-! ## Strings -/

/-- The given number of bytes at the front. -/
def readBytes (length : Nat) : Reader Bytes := fun bytes =>
  if (bytes.take length).length < length then .error .truncated
  else .ok (bytes.take length, bytes.drop length)

/-- The bytes of a long text that are looked at in one go. -/
def chunkSize : Nat := 4096

/-- The bytes of an unfinished character that one chunk may leave to the next. -/
def greatestCarry : Nat := 3

/-- Whether a text that is cut short is no text already, as far as whole chunks go: a chunk starts
with what the one before left over, and holds more broken bytes at its end than the next may take
up. -/
def breaksEarly (bytes : Bytes) : Bool :=
  if h : bytes.length < chunkSize then false
  else
    let valid := Utf8.validLength (bytes.take chunkSize)
    if hvalid : valid + greatestCarry < chunkSize then true
    else
      have : (bytes.drop valid).length < bytes.length := by
        have hsize : chunkSize = 4096 := rfl
        have hcarry : greatestCarry = 3 := rfl
        simp only [List.length_drop]
        omega
      breaksEarly (bytes.drop valid)
termination_by bytes.length
decreasing_by exact this

/-- A text of the given length in bytes. One that is cut short is truncated, unless it is longer
than a chunk and breaks early. -/
def readText (length : Nat) : Reader String := fun bytes =>
  if (bytes.take length).length < length then
    if chunkSize < length && breaksEarly bytes then .error .illFormed else .error .truncated
  else
    match Utf8.text? (bytes.take length) with
    | some s => .ok (s, bytes.drop length)
    | none => .error .illFormed

/-- The kind of a string, with the reader of a segment of known length. -/
structure StringKind (α : Type) where
  /-- The length that a header of this kind announces. -/
  length? : Header → Option (Option Nat)
  /-- A segment of known length. -/
  segment : Nat → Reader α
  /-- The segments as one string. -/
  join : List α → α

/-- Strings of bytes. -/
def byteStrings : StringKind Bytes where
  length?
    | .bytes length => some length
    | _ => none
  segment := readBytes
  join := List.flatten

/-- Texts, each segment of which is a text by itself. -/
def textStrings : StringKind String where
  length?
    | .text length => some length
    | _ => none
  segment := readText
  join := String.join

/-- The segments up to the break that ends the outermost of `opened + 1` open strings, behind those
already read, which come in reverse. There is a header for each unit of `fuel`. -/
def readSegments {α : Type} (kind : StringKind α) (fuel opened : Nat) (read : List α) :
    Reader α := fun bytes =>
  match fuel with
  | 0 => .error .truncated
  | fuel + 1 =>
    match Header.read bytes with
    | .error fault => .error fault
    | .ok (.stop, rest) =>
      match opened with
      | 0 => .ok (kind.join read.reverse, rest)
      | opened + 1 => readSegments kind fuel opened read rest
    | .ok (header, rest) =>
      match kind.length? header with
      | none => .error .illFormed
      | some none => readSegments kind fuel (opened + 1) read rest
      | some (some length) =>
        match kind.segment length rest with
        | .error fault => .error fault
        | .ok (segment, rest) => readSegments kind fuel opened (segment :: read) rest

/-- A string of known length, or one in segments up to a break. -/
def readString {α : Type} (kind : StringKind α) (length : Option Nat) : Reader α := fun bytes =>
  match length with
  | some length => kind.segment length bytes
  | none => readSegments kind bytes.length 0 [] bytes

/-! ## Containers -/

/-- The given number of elements, behind those already read, which come in reverse. -/
def readMany {α : Type} (element : Reader α) (count : Nat) (read : List α) :
    Reader (List α) := fun bytes =>
  match count with
  | 0 => .ok (read.reverse, bytes)
  | count + 1 =>
    match element bytes with
    | .error fault => .error fault
    | .ok (found, rest) => readMany element count (found :: read) rest

/-- The byte that ends a container of open length. -/
def stopByte : UInt8 := 0xff

/-- The elements up to a break, behind those already read, which come in reverse. There is an
element for each unit of `fuel`, and every element takes at least one byte. -/
def readUntilStop {α : Type} (element : Reader α) (fuel : Nat) (read : List α) :
    Reader (List α) := fun bytes =>
  match fuel, bytes with
  | 0, _ => .error .truncated
  | _, [] => .error .truncated
  | fuel + 1, first :: rest =>
    if first = stopByte then .ok (read.reverse, rest)
    else
      match element (first :: rest) with
      | .error fault => .error fault
      | .ok (found, rest) => readUntilStop element fuel (found :: read) rest

/-- The elements of a container of known or open length. -/
def readElements {α : Type} (element : Reader α) (length : Option Nat) :
    Reader (List α) := fun bytes =>
  match length with
  | some count => readMany element count [] bytes
  | none => readUntilStop element bytes.length [] bytes

/-- Two elements, one behind the other. -/
def readPair {α : Type} (element : Reader α) : Reader (α × α) := fun bytes =>
  match element bytes with
  | .error fault => .error fault
  | .ok (key, rest) =>
    match element rest with
    | .error fault => .error fault
    | .ok (value, rest) => .ok ((key, value), rest)

/-! ## Items -/

/-- The longest byte string that is read as a big integer. -/
def bigIntegerSize : Nat := 16

/-- The item that a simple value stands for. -/
def simpleItem (number : Nat) : Except Fault Item :=
  if number = 20 then .ok (.bool false)
  else if number = 21 then .ok (.bool true)
  else if number = 22 ∨ number = 23 then .ok .null
  else .error .meaningless

/-- The least magnitude that a negative big integer may not have. -/
def negativeBound : Nat := 1 <<< 127

/-- The item that the bytes of a big integer stand for. -/
def bigInteger (number : Nat) (bytes : Bytes) : Except Fault Item :=
  let n := Bytes.toNat bytes
  if number = Item.positiveTag then .ok (Item.ofInt n)
  else if n < negativeBound then .ok (Item.ofInt (-1 - n))
  else .error .meaningless

/-- The length of the byte string that makes a tag a big integer, if the header behind the tag
announces one. -/
def bigIntegerLength? (number : Nat) (header : Header) : Option Nat :=
  match header with
  | .bytes (some length) =>
    if (number = Item.positiveTag ∨ number = Item.negativeTag) ∧ length ≤ bigIntegerSize then
      some length
    else none
  | _ => none

/-- The item behind a tag. The header of the content is read before a level is used up. -/
def readTagged (content : Option (Reader Item)) (number : Nat) : Reader Item := fun bytes =>
  match Header.read bytes with
  | .error fault => .error fault
  | .ok (header, rest) =>
    match bigIntegerLength? number header with
    | some length =>
      match readBytes length rest with
      | .error fault => .error fault
      | .ok (found, rest) => (bigInteger number found).map fun item => (item, rest)
    | none =>
      match content with
      | none => .error .tooDeep
      | some content =>
        match content bytes with
        | .error fault => .error fault
        | .ok (item, rest) => .ok (.tag number item, rest)

/-- The item at the front of a byte string; containers and tags use at most `levels` levels. -/
def Item.read (levels : Nat) : Reader Item := fun bytes =>
  match Header.read bytes with
  | .error fault => .error fault
  | .ok (header, rest) =>
    match header with
    | .unsigned n => .ok (.integer n, rest)
    | .negative n => .ok (.integer (-1 - n), rest)
    | .double x => .ok (.double x, rest)
    | .simple number => (simpleItem number).map fun item => (item, rest)
    | .stop => .error .meaningless
    | .bytes length => (readString byteStrings length rest).map fun (b, rest) => (.bytes b, rest)
    | .text length => (readString textStrings length rest).map fun (s, rest) => (.text s, rest)
    | .tag number =>
      match levels with
      | 0 => readTagged none number rest
      | levels + 1 => readTagged (some (Item.read levels)) number rest
    | .array length =>
      match levels with
      | 0 => .error .tooDeep
      | levels + 1 =>
        (readElements (Item.read levels) length rest).map fun (items, rest) => (.array items, rest)
    | .map length =>
      match levels with
      | 0 => .error .tooDeep
      | levels + 1 =>
        (readElements (readPair (Item.read levels)) length rest).map fun (entries, rest) =>
          (.map entries, rest)

end Parcel.Cbor
