import Parcel.Exchange

/-!
# Reading items of unknown size

A first read offers a buffer of moderate size. If the item turns out to be longer, a second read
offers a buffer of exactly the reported size; the item has to be there still, and as long as before.

## Main definitions

* `defaultCapacity`, `checkCapacity`: the size of the first buffer
* `readGrowable`: the item that a reader delivers
-/

namespace Parcel

/-- The size of the first buffer unless another one is asked for. -/
def defaultCapacity : Nat := 256

/-- The first buffer has to hold at least one byte. -/
def checkCapacity (capacity : Nat) : Except ConfigError Unit :=
  if capacity = 0 then .error .zeroProbeCapacity else .ok ()

/-- The item that `read` delivers, if there is one. The first buffer holds `capacity` zero bytes,
and at least one; a longer item is read again into the same buffer, grown by zeros to its size. -/
def readGrowable {σ : Type} (capacity : Nat) (read : Nat → Session σ (Option Reading)) :
    Session σ (Option Bytes) := do
  let first := Bytes.zeros (max capacity 1)
  match ← read first.length with
  | none => return none
  | some ⟨length, written⟩ =>
    let buffer := first.overlay written
    if length ≤ buffer.length then
      return some (buffer.take length)
    else
      let grown := buffer.grow length
      match ← read grown.length with
      | none => throw (.malformedEncoding "item disappeared between reads")
      | some ⟨again, written⟩ =>
        if again = length then
          return some (grown.overlay written)
        else
          throw (.malformedEncoding
            ("item length changed from " ++ toString length ++ " to " ++ toString again
              ++ " between reads"))

end Parcel
