import Parcel.Json

/-!
# Equality of values

Objects agree regardless of the order of their entries, arrays item by item, integers by value and
doubles as numbers, so that the two zeros agree. An integer never agrees with a double.

## Main definitions

* `Json.same`: the comparison
* `Entries.same`: the comparison of two mappings
-/

namespace Parcel

namespace Json

mutual

/-- Whether two values agree. -/
def same : Json → Json → Bool
  | .null, .null => true
  | .bool a, .bool b => a == b
  | .integer a, .integer b => a == b
  | .double a, .double b => a.same b
  | .text a, .text b => a == b
  | .array a, .array b => sameItems a b
  | .object a, .object b => a.length == b.length && agree a b
  | _, _ => false

/-- Whether the items of two arrays agree one by one. -/
def sameItems : List Json → List Json → Bool
  | [], [] => true
  | a :: as, b :: bs => same a b && sameItems as bs
  | _, _ => false

/-- Whether every entry of the first object has an entry in the second that agrees with it. -/
def agree : List (String × Json) → List (String × Json) → Bool
  | [], _ => true
  | (key, value) :: rest, others =>
    (match Entries.get? others key with
      | some other => same value other
      | none => false) && agree rest others

end

end Json

/-- Whether two mappings hold the same keys with values that agree. -/
def Entries.same (a b : Entries) : Bool :=
  a.length == b.length && Json.agree a b

end Parcel
