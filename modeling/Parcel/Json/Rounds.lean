import Parcel.Json.Depth

/-!
# The depth check, round by round

The depth check takes the topmost value off a stack, and puts the values inside it on the stack,
each with the number of containers around it. It is finished when a container lies too deep, or when
nothing is left.

## Main definitions

* `Json.Progress`: a finished check with its answer, or the stack that is left
* `Json.round`: what becomes of the topmost value
* `Json.rounds`: some rounds one after the other
-/

namespace Parcel.Json

/-- How far the depth check has come. -/
inductive Progress
  /-- It is finished. -/
  | done (answer : Bool)
  /-- These values are left, the topmost first, each with the number of containers around it. -/
  | left (stack : List (Json × Nat))

/-- The values inside a container on top of the others. The last of them was put there last, so it
comes first. -/
def pushed (values : List Json) (level : Nat) (stack : List (Json × Nat)) : List (Json × Nat) :=
  (values.map fun value => (value, level)).reverse ++ stack

/-- One round: the topmost value is taken off the stack. A container that lies too deep finishes the
check, and what is inside any other container takes its place. -/
def round (limit : Nat) : List (Json × Nat) → Progress
  | [] => .done false
  | (v, around) :: rest =>
    match v with
    | .array items =>
      if limit < around + 1 then .done true else .left (pushed items (around + 1) rest)
    | .object entries =>
      if limit < around + 1 then .done true
      else .left (pushed (Entries.values entries) (around + 1) rest)
    | _ => .left rest

/-- At most `n` rounds one after the other. -/
def rounds (limit : Nat) : Nat → List (Json × Nat) → Progress
  | 0, stack => .left stack
  | n + 1, stack =>
    match round limit stack with
    | .done answer => .done answer
    | .left next => rounds limit n next

end Parcel.Json
