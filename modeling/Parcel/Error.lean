import Parcel.Handle

/-!
# Errors

One case for each cause of failure, with what the caller has to know about it. The wording is in
`Error.message`.

## Main definitions

* `Error`, `Error.message`: failures of the containers, the encoding and the handles
* `ConfigError`, `ConfigError.message`: unusable settings
-/

namespace Parcel

/-- Why an operation failed. -/
inductive Error
  /-- An identifier is empty or holds a character that no identifier may have. -/
  | invalidIdentifier (identifier : String)
  /-- An argument is no byte string. -/
  | invalidArgument (reason : String)
  /-- A value may not be metadata. -/
  | invalidMetadata (value reason : String)
  /-- There is no argument with this index. -/
  | indexOutOfRange (index length : Nat)
  /-- The metadata has no such key. -/
  | keyNotFound (key : String)
  /-- Bytes or text are no encoded mapping. -/
  | malformedEncoding (detail : String)
  /-- An encoded mapping holds what JSON has no value for. -/
  | unsupportedValue (detail : String)
  /-- A handle is not live. -/
  | handleNotFound (handle : Handle)
  /-- A handle holds an object of the other kind. -/
  | handleMismatch (handle : Handle) (expected : Kind)
  /-- No handle can be given out. -/
  | allocationFailed (reason : String)
deriving DecidableEq, Repr

/-- The wording of an error. -/
def Error.message : Error → String
  | .invalidIdentifier identifier => "invalid identifier " ++ Quoted.text identifier
  | .invalidArgument reason => "invalid binary argument: " ++ reason
  | .invalidMetadata value reason => "invalid metadata value " ++ value ++ ": " ++ reason
  | .indexOutOfRange index length =>
    "argument index " ++ toString index ++ " out of range for length " ++ toString length
  | .keyNotFound key => "metadata key " ++ Quoted.text key ++ " not found"
  | .malformedEncoding detail => "malformed encoding: " ++ detail
  | .unsupportedValue detail => "unsupported value type: " ++ detail
  | .handleNotFound handle => "handle " ++ handle.text ++ " not found"
  | .handleMismatch handle expected =>
    "handle " ++ handle.text ++ " does not hold an " ++ expected.name
  | .allocationFailed reason => "handle allocation failed: " ++ reason

/-- Settings that cannot be used. -/
inductive ConfigError
  /-- A first read needs a buffer of at least one byte. -/
  | zeroProbeCapacity
  /-- A store without room for a single object is of no use. -/
  | zeroHandleLimit
deriving DecidableEq, Repr

/-- The wording of a settings error. -/
def ConfigError.message : ConfigError → String
  | .zeroProbeCapacity => "probe_capacity must be at least 1"
  | .zeroHandleLimit => "max_live_handles must be at least 1"

end Parcel
