/-!
# Ranges of code points

A property of characters is a table of closed ranges in increasing order. A code point is looked for
from the lowest range upwards, and the search ends at the first range that does not lie below it.

## Main definitions

* `CodeRanges`: a table
* `CodeRanges.contains`: the search
-/

namespace Parcel

/-- Closed ranges of code points in increasing order, each given by its first and its last one. -/
abbrev CodeRanges := List (Nat × Nat)

namespace CodeRanges

/-- Whether a code point lies in one of the ranges of a table. -/
def contains : (ranges : CodeRanges) → (code : Nat) → Bool
  | [], _ => false
  | (first, last) :: rest, code => if code ≤ last then first ≤ code else contains rest code

end CodeRanges

end Parcel
