import Parcel.Bytes
import Parcel.Double

/-!
# Headers of data items

The first byte of an item holds a major type and says how its argument is given. Any width of the
argument is accepted, and strings and containers may leave their length open. Of what is wrong with
bytes only the sort is kept, and not the place.

## Main definitions

* `Cbor.Fault`: what is wrong with encoded bytes
* `Cbor.Header`: what a header announces
* `Header.read`: the header at the front of a byte string
-/

namespace Parcel.Cbor

/-- What is wrong with encoded bytes. -/
inductive Fault
  /-- They end before the item does. -/
  | truncated
  /-- They follow no rule of the format. -/
  | illFormed
  /-- They are well formed and stand for nothing in the data model. -/
  | meaningless
  /-- Containers and tags lie too deep inside each other. -/
  | tooDeep
deriving DecidableEq, Repr

/-- What the header of an item announces. An absent length is left open until a break. -/
inductive Header
  | unsigned (n : Nat)
  | negative (n : Nat)
  | bytes (length : Option Nat)
  | text (length : Option Nat)
  | array (length : Option Nat)
  | map (length : Option Nat)
  | tag (number : Nat)
  | simple (number : Nat)
  | double (value : Double)
  | stop
deriving DecidableEq, Repr

/-- The given number of bytes at the front as a big-endian number, and the rest. -/
def readNumber (width : Nat) (bytes : Bytes) : Except Fault (Nat × Bytes) :=
  if (bytes.take width).length < width then .error .truncated
  else .ok (Bytes.toNat (bytes.take width), bytes.drop width)

/-- The argument that the five low bits of a first byte announce; 31 stands for an open length and
has none. -/
def readArgument (additional : Nat) (bytes : Bytes) : Except Fault (Option Nat × Bytes) :=
  let wide (width : Nat) : Except Fault (Option Nat × Bytes) :=
    match readNumber width bytes with
    | .ok (n, rest) => .ok (some n, rest)
    | .error fault => .error fault
  if additional < 24 then .ok (some additional, bytes)
  else if additional = 24 then wide 1
  else if additional = 25 then wide 2
  else if additional = 26 then wide 4
  else if additional = 27 then wide 8
  else if additional = 31 then .ok (none, bytes)
  else .error .illFormed

namespace Header

/-- The header of a major type with its argument. The last major type holds simple values, and its
wider arguments are the bits of floating point numbers. -/
def ofArgument (major additional : Nat) (argument : Option Nat) : Except Fault Header :=
  match major, argument with
  | 0, some n => .ok (.unsigned n)
  | 1, some n => .ok (.negative n)
  | 2, length => .ok (.bytes length)
  | 3, length => .ok (.text length)
  | 4, length => .ok (.array length)
  | 5, length => .ok (.map length)
  | 6, some n => .ok (.tag n)
  | 7, none => .ok .stop
  | 7, some n =>
    if additional = 25 then .ok (.double (Double.widen .half n))
    else if additional = 26 then .ok (.double (Double.widen .single n))
    else if additional = 27 then .ok (.double ⟨UInt64.ofNat n⟩)
    else .ok (.simple n)
  | _, _ => .error .illFormed

/-- The header at the front of a byte string, and the bytes behind it. -/
def read : Bytes → Except Fault (Header × Bytes)
  | [] => .error .truncated
  | first :: rest =>
    let major := first.toNat / 32
    let additional := first.toNat % 32
    match readArgument additional rest with
    | .error fault => .error fault
    | .ok (argument, rest) =>
      match ofArgument major additional argument with
      | .error fault => .error fault
      | .ok header => .ok (header, rest)

end Header

end Parcel.Cbor
