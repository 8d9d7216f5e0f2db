import Parcel.Cbor.Item
import Parcel.Error

/-!
# Rejected values

Why a data item has no place in metadata, where in the value the offender stands, and how it looks.

## Main definitions

* `Step`, `Path.text`: the way from the root of a value to a part of it
* `Reason`: what is wrong
* `Rejection`: the offender with its place and the reason
* `Rejection.invalidMetadata`, `Rejection.unsupported`: the rejection as an error
-/

namespace Parcel

/-- A step from a container to one of its values. -/
inductive Step
  | index (position : Nat)
  | key (name : String)
deriving DecidableEq, Repr

/-- The steps from the root of a value to a part of it. -/
abbrev Path := List Step

/-- A step as messages show it. -/
def Step.text : Step → String
  | .index i => "[" ++ toString i ++ "]"
  | .key name => "." ++ name

/-- A path as messages show it. -/
def Path.text (path : Path) : String :=
  "$" ++ String.join (path.map Step.text)

/-- The most containers that may lie inside each other in a metadata mapping, itself included. -/
def maxDepth : Nat := 64

/-- Why a data item has no place in metadata. -/
inductive Reason
  | integerRange
  | notFinite
  | byteString
  | taggedValue
  | keyNotText
  | keyRepeated
  | tooDeep
deriving DecidableEq, Repr

/-- The wording of a reason. -/
def Reason.text : Reason → String
  | .integerRange => "integer outside the i64/u64 range"
  | .notFinite => "non-finite float"
  | .byteString => "byte string"
  | .taggedValue => "tagged value"
  | .keyNotText => "non-text map key"
  | .keyRepeated => "duplicate map key"
  | .tooDeep => "nesting deeper than MAX_DEPTH"

/-- A data item that has no place in metadata. -/
structure Rejection where
  /-- Where it stands. -/
  path : Path
  /-- How it looks. -/
  value : String
  /-- What is wrong with it. -/
  reason : Reason
deriving DecidableEq, Repr

namespace Rejection

/-- The rejection of the item at the root. -/
def atRoot (item : Cbor.Item) (reason : Reason) : Rejection :=
  ⟨[], item.describe, reason⟩

/-- The rejection of a container that lies too deep, which is shown by its kind only. -/
def tooDeep (kind : String) : Rejection :=
  ⟨[], kind, .tooDeep⟩

/-- The same rejection as seen from the container around the value. -/
def under (step : Step) (rejection : Rejection) : Rejection :=
  { rejection with path := step :: rejection.path }

/-- The reason and the place. -/
def located (rejection : Rejection) : String :=
  rejection.reason.text ++ " at " ++ Path.text rejection.path

/-- The reason, the place and the value. -/
def message (rejection : Rejection) : String :=
  rejection.located ++ " (" ++ rejection.value ++ ")"

/-- The rejection of a value that was to be inserted. -/
def invalidMetadata (rejection : Rejection) : Error :=
  .invalidMetadata rejection.value rejection.located

/-- The rejection of a value that was decoded. -/
def unsupported (rejection : Rejection) : Error :=
  .unsupportedValue rejection.message

end Rejection

end Parcel
