import Parcel.Cbor.Reader

/-!
# Levels of the reader

The reader takes a level for each array, map or tag around what it reads, so the arrays and maps of
an item that is read with `levels` levels lie at most that deep inside each other. Tags take levels
too, and then fewer are left for containers. A big integer takes none, and has no containers.

## Main definitions

* `Item.nesting`: how many arrays and maps of an item lie inside each other
* `Yields`: a reader all of whose results have a property

## Main results

* `yields_read`: an item is read with no fewer levels than its containers lie deep
-/

namespace Parcel.Cbor

variable {α β : Type}

/-! ## Results of readers -/

/-- **Readers whose results have a property.** -/
def Yields (P : α → Prop) (reader : Reader α) : Prop :=
  ∀ bytes ⦃a rest⦄, reader bytes = .ok (a, rest) → P a

theorem yields_true (reader : Reader α) : Yields (fun _ => True) reader :=
  fun _ _ _ _ => trivial

namespace Yields

variable {P : α → Prop} {Q : β → Prop} {reader : Reader α}

theorem ofResult {result : Except Fault α} (h : ∀ a, result = .ok a → P a) :
    Yields P fun bytes => result.map fun a => (a, bytes) := by
  intro bytes a rest hread
  cases result with
  | error fault => contradiction
  | ok found =>
    cases hread
    exact h _ rfl

theorem map (h : Yields P reader) {f : α → β} (hf : ∀ a, P a → Q (f a)) :
    Yields Q fun bytes => (reader bytes).map fun (a, rest) => (f a, rest) := by
  intro bytes b rest hread
  dsimp only at hread
  cases hfirst : reader bytes with
  | error fault => simp [hfirst, Except.map] at hread
  | ok found =>
    rw [hfirst] at hread
    cases hread
    exact hf _ (h bytes hfirst)

end Yields

section

variable {P : α → Prop} {element : Reader α} {read : List α}

theorem yields_readMany (h : Yields P element) (count : Nat) (hread : ∀ a ∈ read, P a) :
    Yields (fun elements => ∀ a ∈ elements, P a) (readMany element count read) := by
  intro bytes elements rest hbytes
  induction count generalizing read bytes with
  | zero =>
    cases hbytes
    simpa using hread
  | succ count ih =>
    rw [readMany] at hbytes
    split at hbytes
    · contradiction
    · next found between hfound =>
      exact ih (List.forall_mem_cons.2 ⟨h bytes hfound, hread⟩) between hbytes

theorem yields_readUntilStop (h : Yields P element) (fuel : Nat) (hread : ∀ a ∈ read, P a) :
    Yields (fun elements => ∀ a ∈ elements, P a) (readUntilStop element fuel read) := by
  intro bytes elements rest hbytes
  induction fuel generalizing read bytes with
  | zero => contradiction
  | succ fuel ih =>
    cases bytes with
    | nil => contradiction
    | cons first later =>
      rw [readUntilStop] at hbytes
      split at hbytes
      · cases hbytes
        simpa using hread
      · split at hbytes
        · contradiction
        · next found between hfound =>
          exact ih (List.forall_mem_cons.2 ⟨h _ hfound, hread⟩) between hbytes

theorem yields_readElements (h : Yields P element) (length : Option Nat) :
    Yields (fun elements => ∀ a ∈ elements, P a) (readElements element length) := by
  cases length with
  | some count => exact yields_readMany h count (by simp)
  | none =>
    intro bytes elements rest hread
    exact yields_readUntilStop h bytes.length (by simp) bytes hread

theorem yields_readPair (h : Yields P element) :
    Yields (fun pair => P pair.1 ∧ P pair.2) (readPair element) := by
  intro bytes pair rest hbytes
  rw [readPair] at hbytes
  split at hbytes
  · contradiction
  · next key between hkey =>
    split at hbytes
    · contradiction
    · next value behind hvalue =>
      cases hbytes
      exact ⟨h bytes hkey, h between hvalue⟩

end

/-! ## Containers inside each other -/

namespace Item

mutual

/-- **The number of arrays and maps that lie inside each other**, the item itself included. -/
def nesting : Item → Nat
  | .tag _ content => nesting content
  | .array items => nestingOfItems items + 1
  | .map entries => nestingOfEntries entries + 1
  | _ => 0

/-- The greatest nesting among the items of an array. -/
def nestingOfItems : List Item → Nat
  | [] => 0
  | item :: rest => max (nesting item) (nestingOfItems rest)

/-- The greatest nesting among the keys and values of a map. -/
def nestingOfEntries : List (Item × Item) → Nat
  | [] => 0
  | (key, value) :: rest => max (max (nesting key) (nesting value)) (nestingOfEntries rest)

end

variable {levels n : Nat} {item : Item}

theorem nesting_array_le_succ {items : List Item} :
    nesting (.array items) ≤ n + 1 ↔ ∀ item ∈ items, item.nesting ≤ n := by
  rw [nesting, Nat.succ_le_succ_iff]
  induction items with
  | nil => simp [nestingOfItems]
  | cons item rest ih => rw [nestingOfItems, Nat.max_le, ih, List.forall_mem_cons]

theorem nesting_map_le_succ {entries : List (Item × Item)} : nesting (.map entries) ≤ n + 1 ↔
    ∀ entry ∈ entries, entry.1.nesting ≤ n ∧ entry.2.nesting ≤ n := by
  rw [nesting, Nat.succ_le_succ_iff]
  induction entries with
  | nil => simp [nestingOfEntries]
  | cons entry rest ih =>
    rw [nestingOfEntries, Nat.max_le, Nat.max_le, ih, List.forall_mem_cons]

theorem nesting_ofInt (n : Int) : (ofInt n).nesting = 0 := by
  rw [ofInt]
  split
  · rfl
  · split <;> rfl

end Item

open Item

variable {levels : Nat}

/-! ## Items -/

theorem nesting_of_simpleItem {number : Nat} {item : Item} (h : simpleItem number = .ok item) :
    item.nesting = 0 := by
  unfold simpleItem at h
  repeat' split at h
  all_goals cases h <;> rfl

theorem nesting_of_bigInteger {number : Nat} {bytes : Bytes} {item : Item}
    (h : bigInteger number bytes = .ok item) : item.nesting = 0 := by
  unfold bigInteger at h
  dsimp only at h
  split at h
  · rw [← Except.ok.inj h]
    exact nesting_ofInt _
  · split at h
    · rw [← Except.ok.inj h]
      exact nesting_ofInt _
    · contradiction

/-- What stands behind a tag nests no deeper than its content does. -/
theorem yields_readTagged {content : Option (Reader Item)}
    (h : ∀ reader ∈ content, Yields (fun item => item.nesting ≤ levels) reader) (number : Nat) :
    Yields (fun item => item.nesting ≤ levels) (readTagged content number) := by
  intro bytes item rest hread
  unfold readTagged at hread
  split at hread
  · contradiction
  · split at hread
    · -- a big integer has no containers
      split at hread
      · contradiction
      · next found between hfound =>
        have hbig : Yields (fun item => item.nesting ≤ levels) fun bytes =>
            (bigInteger number found).map fun item => (item, bytes) :=
          .ofResult fun item hitem => nesting_of_bigInteger hitem ▸ Nat.zero_le _
        exact hbig between hread
    · split at hread
      · contradiction
      · next reader =>
        split at hread
        · contradiction
        · next found between hfound =>
          have hcontent : found.nesting ≤ levels := h reader rfl bytes hfound
          cases hread
          rwa [nesting]

/-- **Containers of an item that is read lie no deeper than there were levels.** -/
theorem yields_read (levels : Nat) :
    Yields (fun item => item.nesting ≤ levels) (Item.read levels) := by
  -- the contents of containers and tags are read with one level less
  induction levels using Nat.strongRecOn with
  | _ levels ih =>
    intro bytes item rest hread
    unfold Item.read at hread
    split at hread
    · contradiction
    · next header later hheader =>
      cases header with
      | array length =>
        cases levels with
        | zero => contradiction
        | succ levels =>
          have hitems := yields_readElements (ih levels (Nat.lt_succ_self levels)) length
          have harray := hitems.map (f := Item.array) (Q := fun item => item.nesting ≤ levels + 1)
            fun items => nesting_array_le_succ.2
          exact harray later hread
      | map length =>
        cases levels with
        | zero => contradiction
        | succ levels =>
          have hpair := yields_readPair (ih levels (Nat.lt_succ_self levels))
          have hentries := yields_readElements hpair length
          have hmap := hentries.map (f := Item.map) (Q := fun item => item.nesting ≤ levels + 1)
            fun entries => nesting_map_le_succ.2
          exact hmap later hread
      | tag number =>
        cases levels with
        | zero =>
          have htagged : Yields (fun item => item.nesting ≤ 0) (readTagged none number) :=
            yields_readTagged (by simp) number
          exact htagged later hread
        | succ levels =>
          have htagged : Yields (fun item => item.nesting ≤ levels)
              (readTagged (some (Item.read levels)) number) :=
            yields_readTagged (by simpa using ih levels (Nat.lt_succ_self levels)) number
          exact Nat.le_succ_of_le (htagged later hread)
      | simple number =>
        have hsimple : Yields (fun item => item.nesting ≤ levels) fun bytes =>
            (simpleItem number).map fun item => (item, bytes) :=
          .ofResult fun item hitem => nesting_of_simpleItem hitem ▸ Nat.zero_le _
        exact hsimple later hread
      | bytes length =>
        have hbytes := (yields_true (readString byteStrings length)).map
          (f := Item.bytes) (Q := fun item => item.nesting ≤ levels) fun _ _ => Nat.zero_le _
        exact hbytes later hread
      | text length =>
        have htext := (yields_true (readString textStrings length)).map
          (f := Item.text) (Q := fun item => item.nesting ≤ levels) fun _ _ => Nat.zero_le _
        exact htext later hread
      | stop => contradiction
      | _ =>
        cases hread
        exact Nat.zero_le _

end Parcel.Cbor
