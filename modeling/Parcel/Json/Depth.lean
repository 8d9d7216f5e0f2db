import Parcel.Json

/-!
# Nesting depth

How many arrays and objects of a value lie inside each other, and a walk that finds out whether the
depth exceeds a limit without recursion on the value.

## Main definitions

* `Json.depth`: zero for a scalar, one more than the deepest child otherwise
* `Json.exceeds`: the walk over a stack of values with the depth at which each one stands
-/

namespace Parcel.Json

mutual

/-- The number of containers that lie inside each other, the value itself included. -/
def depth : Json → Nat
  | .array items => depthOfItems items + 1
  | .object entries => depthOfEntries entries + 1
  | _ => 0

/-- The greatest depth among the items of an array. -/
def depthOfItems : List Json → Nat
  | [] => 0
  | item :: rest => max (depth item) (depthOfItems rest)

/-- The greatest depth among the values of an object. -/
def depthOfEntries : List (String × Json) → Nat
  | [] => 0
  | (_, value) :: rest => max (depth value) (depthOfEntries rest)

end

/-- The values directly inside a value. -/
def children : Json → List Json
  | .array items => items
  | .object entries => entries.map Prod.snd
  | _ => []

/-- Whether a value is an array or an object. -/
def isContainer : Json → Bool
  | .array _ => true
  | .object _ => true
  | _ => false

mutual

/-- The number of values in a value, itself included. -/
def size : Json → Nat
  | .array items => sizeOfItems items + 1
  | .object entries => sizeOfEntries entries + 1
  | _ => 1

/-- The number of values in the items of an array. -/
def sizeOfItems : List Json → Nat
  | [] => 0
  | item :: rest => size item + sizeOfItems rest

/-- The number of values in the entries of an object. -/
def sizeOfEntries : List (String × Json) → Nat
  | [] => 0
  | (_, value) :: rest => size value + sizeOfEntries rest

end

/-- The number of values on a stack. -/
def sizeOfStack : List (Json × Nat) → Nat
  | [] => 0
  | (v, _) :: rest => size v + sizeOfStack rest

theorem sizeOfStack_append (front rest : List (Json × Nat)) :
    sizeOfStack (front ++ rest) = sizeOfStack front + sizeOfStack rest := by
  induction front with
  | nil => simp [sizeOfStack]
  | cons entry front ih => simp [sizeOfStack, ih, Nat.add_assoc]

theorem sizeOfStack_items (items : List Json) (level : Nat) :
    sizeOfStack (items.map fun child => (child, level)) = sizeOfItems items := by
  induction items with
  | nil => rfl
  | cons item rest ih => simp [sizeOfStack, sizeOfItems, ih]

theorem sizeOfItems_values (entries : Entries) :
    sizeOfItems (entries.map Prod.snd) = sizeOfEntries entries := by
  induction entries with
  | nil => rfl
  | cons entry rest ih => simp [sizeOfItems, sizeOfEntries, ih]

/-- The children of a value hold one value less than the value itself. -/
theorem sizeOfStack_children (v : Json) (level : Nat) :
    sizeOfStack (v.children.map fun child => (child, level)) + 1 = v.size := by
  rw [sizeOfStack_items]
  cases v with
  | array items => rfl
  | object entries => simp [children, size, sizeOfItems_values]
  | _ => rfl

/-- Whether a value on the stack reaches more than `limit` levels, each value being counted from the
number of containers around it. -/
def walk (limit : Nat) : List (Json × Nat) → Bool
  | [] => false
  | (v, around) :: rest =>
    if v.isContainer && limit < around + 1 then true
    else
      have : sizeOfStack (v.children.map (fun child => (child, around + 1)) ++ rest)
          < sizeOfStack ((v, around) :: rest) := by
        have := sizeOfStack_children v (around + 1)
        rw [sizeOfStack_append, sizeOfStack]
        omega
      walk limit (v.children.map (fun child => (child, around + 1)) ++ rest)
termination_by stack => sizeOfStack stack

/-- Whether more than `limit` containers of the value lie inside each other. -/
def exceeds (v : Json) (limit : Nat) : Bool :=
  walk limit [(v, 0)]

end Parcel.Json
