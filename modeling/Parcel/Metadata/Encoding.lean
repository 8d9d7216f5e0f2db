import Parcel.Cbor.Reader
import Parcel.Cbor.Writer
import Parcel.Json.Parser
import Parcel.Json.Printer
import Parcel.Metadata.Conversion
import Parcel.Metadata.Limits

/-!
# Encoded metadata

A mapping travels as the bytes of one map with text keys, or as the text of one JSON object. What is
written depends on the entries only and not on their order; what is read may be any encoding.

## Main definitions

* `Entries.encode`, `Entries.decode`: bytes
* `Entries.ofText`: JSON text, whose counterpart is `Entries.toText`
* `emptyEncoding`: the bytes of the empty mapping
-/

namespace Parcel

/-- The bytes of the empty mapping. -/
def emptyEncoding : Bytes := [0xa0]

/-- The detail that a message gives of a reader's fault. -/
def Cbor.Fault.detail : Cbor.Fault → String
  | .truncated => "Io"
  | .illFormed => "Syntax"
  | .meaningless => "Semantic"
  | .tooDeep => "nesting deeper than " ++ toString maxDepth ++ " levels"

namespace Entries

/-- The bytes of a mapping. -/
def encode (entries : Entries) : Bytes :=
  entries.encodable.write

/-- The mapping that a map with at most `maxDepth` containers inside each other is. -/
def ofItem (item : Cbor.Item) : Except Error Entries :=
  match item with
  | .map _ =>
    match item.toJson maxDepth with
    | .ok (.object entries) => .ok entries
    | .ok _ => .error (.malformedEncoding "top-level item is not a map")
    | .error rejection => .error rejection.unsupported
  | _ => .error (.malformedEncoding "top-level item is not a map")

/-- The mapping that bytes hold: one item, nothing behind it, and a map of JSON values. -/
def decode (bytes : Bytes) : Except Error Entries :=
  match Cbor.Item.read maxDepth bytes with
  | .error fault => .error (.malformedEncoding fault.detail)
  | .ok (item, []) => ofItem item
  | .ok (_, rest) =>
    .error (.malformedEncoding
      (toString rest.length ++ " trailing bytes after top-level item"))

/-- The mapping that a JSON text holds. -/
def ofText (text : String) : Except Error Entries :=
  match Json.parse? text with
  | none => .error (.malformedEncoding "invalid JSON")
  | some (.object entries) =>
    match check entries with
    | .error error => .error error
    | .ok () => .ok entries
  | some other =>
    .error (.invalidMetadata other.toText "top-level JSON value must be an object")

@[simp] theorem encode_nil : encode [] = emptyEncoding := by
  decide +kernel

end Entries

end Parcel
