import Parcel.Metadata.Encoding
import Parcel.Proofs.Json.Arrangement
import Parcel.Proofs.Metadata.Written

/-!
# The order of encoded keys

Entries are sorted by their keys as texts, before anything is written, while the canonical form of
the encoding orders the keys as they are written, each behind a header of one to nine bytes. The two
orders are the same: the header of a longer text is never shorter, and texts of one length have one
header. So every map of the bytes that are written has its encoded keys in increasing order.

## Main definitions

* `EncodedBefore`: the shorter encoding first, and encodings of one length by their bytes
* `InMapOrder`: bytes of a value whose maps have their encoded keys in that order, at every level

## Main results

* `encodedBefore_textBytes_iff`: one order for keys and for their encodings
* `inMapOrder_encodable`: what is written for a value is in map order
* `encoded_keys_are_in_order`: and so are the bytes of a mapping
-/

namespace Parcel

namespace Cbor

/-! ## Encoded keys -/

/-- **The order of encoded keys**: the shorter encoding comes first, and of two encodings of one
length the one with the lesser bytes. -/
def EncodedBefore (a b : Bytes) : Prop :=
  a.length < b.length ∨ (a.length = b.length ∧ a < b)

theorem EncodedBefore.asymm {a b : Bytes} (h : EncodedBefore a b) : ¬ EncodedBefore b a := by
  rcases h with hlt | ⟨heq, hlt⟩
  · rintro (hgt | ⟨heq, -⟩) <;> omega
  · rintro (hgt | ⟨-, hgt⟩)
    · omega
    · exact List.lt_asymm hlt hgt

/-- A header takes one, two, three, five or nine bytes. -/
theorem length_head (major n : Nat) :
    (head major n).length =
      if n < 24 then 1
      else if n < UInt8.size then 2
      else if n < UInt16.size then 3
      else if n < UInt32.size then 5
      else 9 := by
  simp only [head, apply_ite List.length]
  simp

/-- A greater argument never has a shorter header. -/
theorem length_head_le (major : Nat) {n k : Nat} (h : n ≤ k) :
    (head major n).length ≤ (head major k).length := by
  rw [length_head, length_head]
  repeat' split
  all_goals omega

/-- Keys in order have encodings in order, whatever the widths of their headers are. -/
theorem encodedBefore_of_keyBefore {a b : String} (h : KeyBefore a b) :
    EncodedBefore (textBytes a) (textBytes b) := by
  simp only [EncodedBefore, textBytes, List.length_append, length_bytes]
  rcases h with hlt | ⟨heq, hlt⟩
  · have hhead := length_head_le 3 (Nat.le_of_lt hlt)
    exact .inl (by omega)
  · rw [heq]
    exact .inr ⟨rfl, List.append_left_lt hlt⟩

/-- **One order for keys and for their encodings.** -/
theorem encodedBefore_textBytes_iff {a b : String} :
    EncodedBefore (textBytes a) (textBytes b) ↔ KeyBefore a b := by
  refine ⟨fun h => ?_, encodedBefore_of_keyBefore⟩
  have hne : a ≠ b := by
    rintro rfl
    exact h.asymm h
  -- one of two distinct keys comes first, and it is not the second
  rcases Bool.or_eq_true _ _ ▸ keyOrder_total a b with hab | hba
  · exact keyBefore_of_keyOrder hab hne
  · exact absurd h (encodedBefore_of_keyBefore (keyBefore_of_keyOrder hba hne.symm)).asymm

/-! ## Bytes in map order -/

/-- An entry of an object with the bytes of its key and of its value. -/
structure EncodedEntry where
  key : String
  value : Json
  keyBytes : Bytes
  valueBytes : Bytes

/-- **Bytes in map order**: the bytes of a value with all of its parts, in which the encoded keys of
every map are in increasing order. What the bytes of a header, a key or a scalar stand for is what
is read of them, whatever comes behind. -/
inductive InMapOrder : Json → Bytes → Prop
  | scalar {v : Json} {bytes : Bytes} (hv : v.isContainer = false)
      (hread : ∀ rest, Item.read 0 (bytes ++ rest) = .ok (v.toItem, rest)) : InMapOrder v bytes
  /-- The header of an array announces its items, and their bytes follow. -/
  | array {header : Bytes} (parts : List (Json × Bytes))
      (hheader : ∀ rest, Header.read (header ++ rest) = .ok (.array (some parts.length), rest))
      (inside : ∀ part ∈ parts, InMapOrder part.1 part.2) :
      InMapOrder (.array (parts.map Prod.fst)) (header ++ parts.flatMap Prod.snd)
  /-- The header of a map announces the entries of the object, and they follow in the order of their
  encoded keys, none of them twice. -/
  | object {entries : Entries} {header : Bytes} (parts : List EncodedEntry)
      (hentries : entries.Perm (parts.map fun part => (part.key, part.value)))
      (hheader : ∀ rest, Header.read (header ++ rest) = .ok (.map (some entries.length), rest))
      (hkeys : ∀ part ∈ parts, ∀ rest,
        Item.read 0 (part.keyBytes ++ rest) = .ok (.text part.key, rest))
      (hordered : (parts.map EncodedEntry.keyBytes).Pairwise EncodedBefore)
      (inside : ∀ part ∈ parts, InMapOrder part.value part.valueBytes) :
      InMapOrder (.object entries)
        (header ++ parts.flatMap fun part => part.keyBytes ++ part.valueBytes)

end Cbor

namespace Entries

/-- Sorting looks at the keys only, so the values may be changed before or after it. -/
theorem sorted_canonicalEntries (entries : Entries) :
    sorted (Json.canonicalEntries entries) =
      (sorted entries).map fun entry => (entry.1, entry.2.canonical) := by
  rw [Json.canonicalEntries_eq_map, sorted, sorted, List.map_mergeSort]
  intro a _ b _
  rfl

/-- Sorted entries with unique keys have their encoded keys in increasing order. -/
theorem pairwise_encodedBefore_sorted {entries : Entries} (hnodup : (keys entries).Nodup) :
    ((sorted entries).map fun entry => Cbor.textBytes entry.1).Pairwise Cbor.EncodedBefore := by
  have hencoded := (Json.pairwise_keyBefore_sorted hnodup).map Cbor.textBytes
    fun _ _ => Cbor.encodedBefore_of_keyBefore
  rwa [keys, List.map_map] at hencoded

end Entries

namespace Json

open Cbor

theorem write_encodable_array (items : List Json) :
    (encodable (.array items)).write =
      head 4 items.length ++ items.flatMap fun item => item.encodable.write := by
  rw [encodable, canonical, canonicalItems_eq_map, toItem, Item.write, writeItems_toItems,
    toItems_eq_map, List.length_map, List.length_map, List.flatMap_map]
  rfl

theorem write_encodable_object (entries : Entries) :
    (encodable (.object entries)).write =
      head 5 entries.length ++
        (Entries.sorted entries).flatMap fun entry =>
          textBytes entry.1 ++ entry.2.encodable.write := by
  have hlength : (Entries.sorted entries).length = entries.length := List.length_mergeSort _
  rw [encodable, canonical, Entries.sorted_canonicalEntries, toItem, Item.write,
    writeEntries_toItemEntries, toItemEntries_eq_map, List.length_map, List.length_map, hlength,
    List.flatMap_map]
  rfl

/-- **What is written for a value is in map order**, at every level. -/
theorem inMapOrder_encodable {v : Json} (hproper : Proper v) (haddressable : Addressable v) :
    InMapOrder v v.encodable.write := by
  induction v using inductionOn with
  | array items ih =>
    obtain ⟨hlength, hinside⟩ := addressable_array.1 haddressable
    have h := InMapOrder.array (items.map fun item => (item, item.encodable.write))
      (fun rest => by
        rw [List.length_map]
        exact read_head 4 _ (by decide) hlength (fun _ _ => rfl) rest)
      (List.forall_mem_map.2 fun item hmem =>
        ih item hmem (proper_array.1 hproper item hmem) (hinside item hmem))
    simpa [write_encodable_array, Function.comp_def, List.flatMap_map] using h
  | object entries ih =>
    obtain ⟨hnodup, hproper⟩ := proper_object.1 hproper
    obtain ⟨⟨hlength, hkeys⟩, hinside⟩ := addressable_object.1 haddressable
    -- the entries are encoded one by one, in the order of the sorted keys
    let encoded (entry : String × Json) : EncodedEntry :=
      ⟨entry.1, entry.2, textBytes entry.1, entry.2.encodable.write⟩
    have hmem {entry : String × Json} (h : entry ∈ Entries.sorted entries) : entry ∈ entries :=
      List.mem_mergeSort.1 h
    have h := @InMapOrder.object entries _ ((Entries.sorted entries).map encoded)
      (by simpa [encoded, Function.comp_def, Entries.sorted] using
        (List.mergeSort_perm entries _).symm)
      (fun rest => read_head 5 _ (by decide) hlength (fun _ _ => rfl) rest)
      (List.forall_mem_map.2 fun entry h =>
        read_textBytes (hkeys entry.1 (List.mem_map_of_mem (hmem h))) 0)
      (by
        simpa [encoded, Function.comp_def] using Entries.pairwise_encodedBefore_sorted hnodup)
      (List.forall_mem_map.2 fun entry h =>
        ih entry (hmem h) (hproper entry (hmem h)) (hinside entry (hmem h)))
    rwa [List.flatMap_map, ← write_encodable_object] at h
  | _ =>
    refine .scalar rfl fun rest => ?_
    simpa [encodable, canonical, depth] using read_write hproper haddressable 0 rest

end Json

namespace Entries

open Json Cbor

/-- **Encoded keys are in order.** In the bytes of a mapping with unique keys, integers of 64 bits
and finite doubles, the header of every map announces the entries of the object that it stands for,
and the encoded keys of these entries follow in increasing order, the shorter encoding first and
encodings of one length by their bytes, at every level. This is the order of the keys as texts,
whatever the widths of their headers are. It needs no limit on the nesting. Lengths fit 64 bits, as
in memory. -/
theorem encoded_keys_are_in_order {m : Entries} (hproper : Proper (.object m))
    (haddressable : Addressable (.object m)) :
    InMapOrder (.object m) (encode m) ∧
      ∀ a b : String, EncodedBefore (textBytes a) (textBytes b) ↔ KeyBefore a b :=
  ⟨inMapOrder_encodable hproper haddressable, fun _ _ => encodedBefore_textBytes_iff⟩

/-- Keys of 23 and 24 bytes, the longer of which has a wider header and lesser bytes, and an object
inside an array. -/
theorem encoded_keys_are_in_order_widths :
    let short := "zzzzzzzzzzzzzzzzzzzzzzz"
    let long := "aaaaaaaaaaaaaaaaaaaaaaaa"
    let inner : Entries := [("\u00e9", .integer 2), ("b", .integer 1)]
    let m : Entries := [(long, .integer 0), (short, .array [.object inner])]
    Proper (.object m) ∧ Addressable (.object m) ∧ InMapOrder (.object m) (encode m) ∧
      EncodedBefore (textBytes short) (textBytes long) := by
  intro short long inner m
  have hproper : Proper (.object m) := by decide
  have haddressable : Addressable (.object m) := by decide
  have hlength : short.utf8ByteSize < long.utf8ByteSize := by decide
  obtain ⟨hordered, hkeys⟩ := encoded_keys_are_in_order hproper haddressable
  exact ⟨hproper, haddressable, hordered, (hkeys short long).2 (.inl hlength)⟩

end Entries

end Parcel
