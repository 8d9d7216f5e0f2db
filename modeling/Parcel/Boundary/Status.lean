import Parcel.Error

/-!
# Status codes

Across the boundary an error is a number: zero for success, and a negative code for each cause. The
code −128, of calls that die on the inside, has no status here, since no call does.

## Main definitions

* `Status`, `Status.code`: the outcomes of a call and their codes
* `Status.ofError`: the status of an error
-/

namespace Parcel

/-- How a call across the boundary ends. -/
inductive Status
  | ok
  | invalidHandle
  | invalidArgument
  | bufferTooSmall
  | invalidIdentifier
  | invalidBinaryArgument
  | invalidMetadata
  | indexOutOfRange
  | keyNotFound
  | malformedEncoding
  | unsupportedValue
  | allocationFailed
  | handleMismatch
  | internalError
deriving DecidableEq, Repr

namespace Status

/-- The number of a status. -/
def code : Status → Int
  | .ok => 0
  | .invalidHandle => -1
  | .invalidArgument => -2
  | .bufferTooSmall => -3
  | .invalidIdentifier => -4
  | .invalidBinaryArgument => -5
  | .invalidMetadata => -6
  | .indexOutOfRange => -7
  | .keyNotFound => -8
  | .malformedEncoding => -9
  | .unsupportedValue => -10
  | .allocationFailed => -11
  | .handleMismatch => -12
  | .internalError => -20

/-- The status of an error. -/
def ofError : Error → Status
  | .invalidIdentifier _ => .invalidIdentifier
  | .invalidArgument _ => .invalidBinaryArgument
  | .invalidMetadata _ _ => .invalidMetadata
  | .indexOutOfRange _ _ => .indexOutOfRange
  | .keyNotFound _ => .keyNotFound
  | .malformedEncoding _ => .malformedEncoding
  | .unsupportedValue _ => .unsupportedValue
  | .handleNotFound _ => .invalidHandle
  | .handleMismatch _ _ => .handleMismatch
  | .allocationFailed _ => .allocationFailed

/-- Different outcomes have different codes. -/
theorem code_injective {a b : Status} (h : a.code = b.code) : a = b := by
  revert h
  cases a <;> cases b <;> decide

/-- No error counts as success. -/
theorem ofError_ne_ok (error : Error) : ofError error ≠ .ok := by
  cases error <;> simp [ofError]

end Status

end Parcel
