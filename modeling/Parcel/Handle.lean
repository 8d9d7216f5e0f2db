import Parcel.Text.Quoted

/-!
# Handles and the kinds of objects

An object on the other side of the boundary is known by a 64-bit number only.

## Main definitions

* `Handle`: the number of an object
* `Kind`: whether an object is plain data or a command
-/

namespace Parcel

/-- The number by which an object is known across the boundary. -/
abbrev Handle := UInt64

/-- A handle as messages show it. -/
def Handle.text (handle : Handle) : String :=
  Quoted.hexadecimal handle.toNat

/-- The two kinds of objects. -/
inductive Kind
  | data
  | command
deriving DecidableEq, Repr

/-- The name of a kind. -/
def Kind.name : Kind → String
  | .data => "ArbData"
  | .command => "ArbCmd"

end Parcel
