import Parcel.Boundary.Status
import Parcel.Text.Utf8

/-!
# Memory of a caller

Callers pass pointers with lengths. An item is delivered into the caller's buffer only if it fits;
its true length is reported in any case, so that the call can be repeated with a buffer of that
size.

## Main definitions

* `Memory`: what a pointer with a length refers to
* `Memory.contents?`, `readText?`: bytes and texts that come in
* `Target`, `Delivery`: where an item is to go, and what became of it
* `Target.deliverBytes`, `Target.deliverText`: the delivery of bytes and of text
-/

namespace Parcel

/-- What a pointer with a length refers to. -/
inductive Memory
  /-- A null pointer, with the length that was claimed. -/
  | null (claimed : Nat)
  /-- As many bytes as the length says. -/
  | bytes (contents : Bytes)
deriving DecidableEq, Repr

namespace Memory

/-- The length that goes with the pointer. -/
def length : Memory → Nat
  | .null claimed => claimed
  | .bytes contents => contents.length

/-- The bytes that come in. A null pointer stands for no bytes, and for nothing else. -/
def contents? : Memory → Option Bytes
  | .null 0 => some []
  | .null _ => none
  | .bytes contents => some contents

/-- Whether nothing may be written although a length is claimed. -/
def isUnusable : Memory → Bool
  | .null claimed => 0 < claimed
  | .bytes _ => false

/-- The memory after bytes were written to its front. -/
def write (memory : Memory) (written : Bytes) : Memory :=
  match memory with
  | .null claimed => .null claimed
  | .bytes contents => .bytes (contents.overlay written)

end Memory

/-- The byte that ends a text in memory. -/
def terminator : UInt8 := 0

/-- The text that a pointer to terminated bytes refers to, unless it is null. Bytes that are no text
are replaced. -/
def readText? (pointer : Option Bytes) : Option String :=
  pointer.map fun bytes => Utf8.lossy (bytes.takeWhile (· ≠ terminator))

/-- Where an item is to go. -/
structure Target where
  memory : Memory
  /-- Whether there is a place for the length. -/
  reportsLength : Bool
deriving DecidableEq, Repr

/-- What became of a delivery. -/
structure Delivery where
  status : Status
  /-- The length, if it was reported. -/
  length : Option Nat
  /-- The memory afterwards. -/
  memory : Memory
deriving DecidableEq, Repr

namespace Target

/-- Whether the pointers can be used. -/
def isUsable (target : Target) : Bool :=
  target.reportsLength && !target.memory.isUnusable

/-- Nothing is written, not even a length. -/
def refuse (target : Target) (status : Status) : Delivery :=
  ⟨status, none, target.memory⟩

/-- The delivery of an item of `length` bytes that goes into memory as `written`, if that fits. -/
def deliver (target : Target) (length : Nat) (written : Bytes) : Delivery :=
  if !target.isUsable then target.refuse .invalidArgument
  else if target.memory.length < written.length then
    ⟨.bufferTooSmall, some length, target.memory⟩
  else ⟨.ok, some length, target.memory.write written⟩

/-- The delivery of bytes. -/
def deliverBytes (target : Target) (item : Bytes) : Delivery :=
  target.deliver item.length item

/-- The delivery of a text with a terminator behind it, which the length leaves out. -/
def deliverText (target : Target) (text : String) : Delivery :=
  target.deliver text.utf8ByteSize (Utf8.bytes text ++ [terminator])

end Target

end Parcel
