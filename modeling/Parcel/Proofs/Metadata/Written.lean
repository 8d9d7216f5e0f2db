import Parcel.Metadata.Encoding
import Parcel.Proofs.Cbor.Header
import Parcel.Proofs.Json.Depth
import Parcel.Proofs.Json.Parts

/-!
# Written values are read back as items

The bytes that are written for a value hold exactly one item, and reading it uses one level for each
container around the innermost one. So the reader gives back the item of the value, or stops because
the levels do not suffice; it never finds anything else wrong.

## Main results

* `readText_bytes`: a text is read back
* `readMany_flatMap`: the elements of a container are read back, or the levels do not suffice
* `read_write`: the item of a value is read back, or the levels do not suffice
-/

namespace Parcel.Cbor

/-! ## Texts -/

theorem length_bytes (s : String) : (Utf8.bytes s).length = s.utf8ByteSize := rfl

theorem readText_bytes (s : String) (rest : Bytes) :
    readText s.utf8ByteSize (Utf8.bytes s ++ rest) = .ok (s, rest) := by
  have htake : (Utf8.bytes s ++ rest).take s.utf8ByteSize = Utf8.bytes s :=
    List.take_left' (length_bytes s)
  have hdrop : (Utf8.bytes s ++ rest).drop s.utf8ByteSize = rest :=
    List.drop_left' (length_bytes s)
  rw [readText, htake, hdrop, length_bytes, if_neg (Nat.lt_irrefl _), Utf8.text?_bytes]

theorem read_textBytes {s : String} (hs : s.utf8ByteSize < Item.argumentBound) (levels : Nat)
    (rest : Bytes) : Item.read levels (textBytes s ++ rest) = .ok (.text s, rest) := by
  have hhead := read_head 3 (.text (some s.utf8ByteSize)) (by decide) hs
    (fun _ _ => rfl) (Utf8.bytes s ++ rest)
  rw [textBytes, List.append_assoc, Item.read.eq_def, hhead]
  simp only [readString, textStrings, readText_bytes]
  rfl

/-! ## Containers -/

variable {α β : Type}

/-- **Elements one behind the other** are all read, or the first that is refused ends the
reading. -/
theorem readMany_flatMap (element : Reader β) (write : α → Bytes) (good : α → Bool) (item : α → β)
    (fault : Fault) (values : List α) (read : List β) (rest : Bytes)
    (h : ∀ v ∈ values, ∀ rest, element (write v ++ rest) =
      if good v then .ok (item v, rest) else .error fault) :
    readMany element values.length read (values.flatMap write ++ rest) =
      if values.all good then .ok (read.reverse ++ values.map item, rest) else .error fault := by
  induction values generalizing read with
  | nil => simp [readMany]
  | cons v values ih =>
    rw [List.forall_mem_cons] at h
    -- what was written for the first element is followed by all the others
    rw [List.length_cons, readMany, List.flatMap_cons, List.append_assoc, h.1]
    cases hv : good v with
    | false => simp [hv]
    | true => simp [hv, ih (item v :: read) h.2]

/-- A key and its value are read back, or the value is refused. -/
theorem readPair_append {element : Reader β} {key value rest : Bytes} {k v : β} {good : Bool}
    {fault : Fault} (hkey : ∀ rest, element (key ++ rest) = .ok (k, rest))
    (hvalue : element (value ++ rest) = if good then .ok (v, rest) else .error fault) :
    readPair element (key ++ value ++ rest) =
      if good then .ok ((k, v), rest) else .error fault := by
  rw [readPair, List.append_assoc, hkey]
  dsimp only
  rw [hvalue]
  cases good <;> rfl

end Parcel.Cbor

namespace Parcel.Json

open Cbor

/-! ## Items -/

theorem toItems_eq_map (items : List Json) : toItems items = items.map toItem := by
  induction items with
  | nil => rfl
  | cons item rest ih => rw [toItems, ih, List.map_cons]

theorem toItemEntries_eq_map (entries : Entries) :
    toItemEntries entries = entries.map fun entry => (.text entry.1, toItem entry.2) := by
  induction entries with
  | nil => rfl
  | cons entry rest ih => rw [toItemEntries, ih, List.map_cons]

theorem writeItems_toItems (items : List Json) :
    Item.writeItems (toItems items) = items.flatMap fun item => item.toItem.write := by
  induction items with
  | nil => rfl
  | cons item rest ih => rw [toItems, Item.writeItems, ih, List.flatMap_cons]

theorem writeEntries_toItemEntries (entries : Entries) :
    Item.writeEntries (toItemEntries entries) =
      entries.flatMap fun entry => textBytes entry.1 ++ entry.2.toItem.write := by
  induction entries with
  | nil => rfl
  | cons entry rest ih =>
    rw [toItemEntries, Item.writeEntries, ih, List.flatMap_cons]
    rfl

theorem read_integerBytes {n : Int} (hn : isIntegerInRange n = true) (levels : Nat)
    (rest : Bytes) : Item.read levels (integerBytes n ++ rest) = .ok (.integer n, rest) := by
  simp only [isIntegerInRange, Bool.and_eq_true, decide_eq_true_eq] at hn
  have hleast : Int64.minValue.toInt = -9223372036854775808 := by decide
  have hsize : (UInt64.size : Int) = 18446744073709551616 := by decide
  rw [hleast, hsize] at hn
  have hbound : Item.argumentBound = 18446744073709551616 := rfl
  rw [integerBytes]
  -- a negative integer is written by how far it lies below minus one
  split
  · rw [Item.read.eq_def, read_head 1 (.negative (-1 - n).natAbs) (by decide) (by omega)
      (fun _ _ => rfl)]
    have hback : -1 - ((-1 - n).natAbs : Int) = n := by omega
    simp only [hback]
  · rw [Item.read.eq_def, read_head 0 (.unsigned n.natAbs) (by decide) (by omega)
      (fun _ _ => rfl)]
    have hback : (n.natAbs : Int) = n := by omega
    simp only [hback]

/-- **A written value is read back as its item**, and nothing behind it is touched. If the levels do
not suffice for its depth, that is the only thing found wrong. -/
theorem read_write {v : Json} (hproper : Proper v) (haddressable : Addressable v) (levels : Nat)
    (rest : Bytes) : Item.read levels (v.toItem.write ++ rest) =
      if v.depth ≤ levels then .ok (v.toItem, rest) else .error .tooDeep := by
  induction v using inductionOn generalizing levels rest with
  | null =>
    have hheader : Header.read (0xf6 :: rest) = .ok (.simple 22, rest) := rfl
    simp only [toItem, Item.write, List.cons_append, List.nil_append]
    rw [Item.read.eq_def, hheader]
    simp [depth, simpleItem, Except.map]
  | bool b =>
    have hheader : Header.read ((Item.bool b).write ++ rest) =
        .ok (.simple (if b then 21 else 20), rest) := by
      cases b <;> rfl
    rw [toItem, Item.read.eq_def, hheader]
    cases b <;> simp [depth, simpleItem, Except.map]
  | integer n =>
    simpa [toItem, Item.write, depth] using
      read_integerBytes (proper_integer.1 hproper) levels rest
  | double x =>
    rw [toItem, Item.write, Item.read.eq_def, read_doubleBytes]
    simp [depth]
  | text s =>
    simpa [toItem, Item.write, depth] using
      read_textBytes (addressable_text.1 haddressable) levels rest
  | array items ih =>
    obtain ⟨hlength, hinside⟩ := addressable_array.1 haddressable
    have hwrite : (toItem (.array items)).write =
        head 4 items.length ++ items.flatMap fun item => item.toItem.write := by
      rw [toItem, Item.write, writeItems_toItems, toItems_eq_map, List.length_map]
    rw [hwrite, List.append_assoc, Item.read.eq_def,
      read_head 4 (.array (some items.length)) (by decide) hlength (fun _ _ => rfl)]
    -- the container takes a level, and its items share the others
    cases levels with
    | zero => rw [if_neg not_depth_array_le_zero]
    | succ levels =>
      have hread := readMany_flatMap (Item.read levels) (fun item : Json => item.toItem.write)
          (fun item => item.depth ≤ levels) toItem .tooDeep items [] rest fun item hmem rest => by
        simpa using ih item hmem (proper_array.1 hproper item hmem) (hinside item hmem) levels rest
      simp only [readElements, hread, List.all_eq_true, decide_eq_true_eq, depth_array_le_succ]
      split
      · simp [Except.map, toItem, toItems_eq_map]
      · rfl
  | object entries ih =>
    obtain ⟨⟨hlength, hkeys⟩, hinside⟩ := addressable_object.1 haddressable
    have hwrite : (toItem (.object entries)).write =
        head 5 entries.length ++
          entries.flatMap fun entry => textBytes entry.1 ++ entry.2.toItem.write := by
      rw [toItem, Item.write, writeEntries_toItemEntries, toItemEntries_eq_map, List.length_map]
    rw [hwrite, List.append_assoc, Item.read.eq_def,
      read_head 5 (.map (some entries.length)) (by decide) hlength (fun _ _ => rfl)]
    cases levels with
    | zero => rw [if_neg not_depth_object_le_zero]
    | succ levels =>
      have hread := readMany_flatMap (readPair (Item.read levels))
          (fun entry : String × Json => textBytes entry.1 ++ entry.2.toItem.write)
          (fun entry => entry.2.depth ≤ levels) (fun entry => (.text entry.1, entry.2.toItem))
          .tooDeep entries [] rest fun entry hmem rest => by
        have hkey := hkeys entry.1 (List.mem_map_of_mem hmem)
        have hvalue := ih entry hmem ((proper_object.1 hproper).2 entry hmem) (hinside entry hmem)
        refine readPair_append (read_textBytes hkey levels) ?_
        simpa using hvalue levels rest
      simp only [readElements, hread, List.all_eq_true, decide_eq_true_eq, depth_object_le_succ]
      split
      · simp [Except.map, toItem, toItemEntries_eq_map]
      · rfl

end Parcel.Json
