import Parcel.Double

/-!
# JSON values

The values metadata is made of. Integers and doubles are two kinds of number that are never
confused: an integral double stays a double. The entries of an object keep the order in which their
keys were first inserted.

## Main definitions

* `Json`: a value
* `Json.isIntegerInRange`: which integers values have
* `Entries`: the entries of an object, also used for a metadata mapping
* `Entries.insert`, `Entries.erase`, `Entries.get?`: entries by their key

## Main results

* `Json.inductionOn`: induction over the items of arrays and the values of objects
* `Entries.keys_insert`, `Entries.get?_insert`: what an insertion does to keys and values
-/

namespace Parcel

/-- A JSON value. -/
inductive Json where
  | null
  | bool (value : Bool)
  | integer (value : Int)
  | double (value : Double)
  | text (value : String)
  | array (items : List Json)
  | object (entries : List (String × Json))
deriving Inhabited

/-- Entries of an object in the order in which their keys were first inserted. -/
abbrev Entries := List (String × Json)

/-- Induction with the items of an array and the values of an object as hypotheses. -/
theorem Json.inductionOn {motive : Json → Prop} (v : Json)
    (null : motive .null) (bool : ∀ b, motive (.bool b)) (integer : ∀ n, motive (.integer n))
    (double : ∀ x, motive (.double x)) (text : ∀ s, motive (.text s))
    (array : ∀ items, (∀ item ∈ items, motive item) → motive (.array items))
    (object : ∀ entries : Entries, (∀ entry ∈ entries, motive entry.2) → motive (.object entries)) :
    motive v :=
  @Json.rec motive (fun items => ∀ item ∈ items, motive item)
    (fun entries => ∀ entry ∈ entries, motive entry.2) (fun entry => motive entry.2)
    null bool integer double text array object
    (fun _ h => nomatch h)
    (fun _ _ hfirst hrest => List.forall_mem_cons.2 ⟨hfirst, hrest⟩)
    (fun _ h => nomatch h)
    (fun _ _ hfirst hrest => List.forall_mem_cons.2 ⟨hfirst, hrest⟩)
    (fun _ _ hvalue => hvalue) v

/-- Whether an integer is one that JSON values have: it fits 64 bits, signed or unsigned. -/
def Json.isIntegerInRange (n : Int) : Bool :=
  Int64.minValue.toInt ≤ n && n < UInt64.size

namespace Entries

/-- The keys, in order. -/
def keys (entries : Entries) : List String :=
  entries.map Prod.fst

/-- The values, in the order of their keys. -/
def values (entries : Entries) : List Json :=
  entries.map Prod.snd

/-- The value of a key. -/
def get? (entries : Entries) (key : String) : Option Json :=
  entries.lookup key

/-- Whether a key has a value. -/
def contains (entries : Entries) (key : String) : Bool :=
  (entries.get? key).isSome

/-- Entries with a value for `key`: in the place of the old value if there is one, else at the
end. -/
def insert (entries : Entries) (key : String) (value : Json) : Entries :=
  match entries with
  | [] => [(key, value)]
  | (other, old) :: rest =>
    if other = key then (key, value) :: rest else (other, old) :: insert rest key value

/-- Entries without `key`, the others in their order. -/
def erase (entries : Entries) (key : String) : Entries :=
  entries.filter fun entry => entry.1 ≠ key

/-- The given pairs inserted one after the other. -/
def ofPairs (pairs : List (String × Json)) : Entries :=
  pairs.foldl (fun entries pair => entries.insert pair.1 pair.2) []

@[simp] theorem keys_nil : keys [] = [] := rfl

@[simp] theorem keys_cons (key : String) (value : Json) (rest : Entries) :
    keys ((key, value) :: rest) = key :: keys rest := rfl

/-- A known key keeps its place, and a new one goes to the end. -/
theorem keys_insert (entries : Entries) (key : String) (value : Json) :
    keys (insert entries key value)
      = if key ∈ keys entries then keys entries else keys entries ++ [key] := by
  induction entries with
  | nil => simp [insert, keys]
  | cons entry rest ih =>
    obtain ⟨other, old⟩ := entry
    by_cases h : other = key
    · simp [insert, h]
    · have hne : ¬ key = other := fun heq => h heq.symm
      simp only [insert, h, if_false, keys_cons, ih, List.mem_cons, hne, false_or]
      split <;> simp

/-- The inserted key has the inserted value, and all others keep theirs. -/
theorem get?_insert (entries : Entries) (key other : String) (value : Json) :
    get? (insert entries key value) other
      = if other = key then some value else get? entries other := by
  induction entries with
  | nil =>
    by_cases h : other = key
    · simp [insert, get?, h]
    · have hbeq : (other == key) = false := by simp [h]
      simp [insert, get?, List.lookup_cons, h, hbeq]
  | cons entry rest ih =>
    obtain ⟨first, old⟩ := entry
    simp only [get?] at ih ⊢
    by_cases hkey : first = key
    · subst hkey
      by_cases h : other = first
      · simp [insert, h]
      · have hbeq : (other == first) = false := by simp [h]
        simp [insert, List.lookup_cons, h, hbeq]
    · simp only [insert, hkey, if_false]
      by_cases h : other = first
      · subst h
        simp [hkey]
      · have hbeq : (other == first) = false := by simp [h]
        simp [List.lookup_cons, hbeq, ih]

end Entries

end Parcel
