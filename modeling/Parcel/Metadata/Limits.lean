import Parcel.Json.Depth
import Parcel.Metadata.Rejection

/-!
# The nesting limit of metadata

A mapping nests at most `maxDepth` containers, itself included, so a value under one of its keys
nests at most one less.

## Main definitions

* `Json.checkEntry`: the limit on a value at a place
* `Json.check`, `Entries.check`: the limit on a single value and on a mapping
-/

namespace Parcel

/-- The sort of a value, as the message about one that nests too deep shows it. -/
def Json.sort : Json → String
  | .array _ => "array"
  | .object _ => "object"
  | _ => "scalar"

/-- A value at the given place is refused if it nests too deep for a metadata value. -/
def Json.checkEntry (path : Path) (v : Json) : Except Error Unit :=
  if v.exceeds (maxDepth - 1) then
    .error (.invalidMetadata v.sort
      (Reason.tooDeep.text ++ " (" ++ toString maxDepth ++ ") at " ++ Path.text path))
  else .ok ()

/-- A value is refused if it nests too deep to be stored under a key. -/
def Json.check (v : Json) : Except Error Unit :=
  v.checkEntry []

/-- A mapping is refused if the value of a key nests too deep; the first such key is reported. -/
def Entries.check : Entries → Except Error Unit
  | [] => .ok ()
  | (key, value) :: rest =>
    match value.checkEntry [.key key] with
    | .error error => .error error
    | .ok () => Entries.check rest

end Parcel
