import Parcel.Metadata.Encoding
import Parcel.Proofs.Json.Arrangement
import Parcel.Proofs.Metadata.Conversion
import Parcel.Proofs.Metadata.Written

/-!
# The round trip of a mapping

A mapping that keeps the nesting limit is read back from its bytes, its entries in canonical order
at every level; one that does not keep it is refused because of its nesting, and for nothing else.
The limit of the reader, that of the conversion and that of the check are the same.

## Main results

* `check_of_decode`, `proper_of_decode`: what decoding makes sure of
* `decode_encode`: the round trip of a mapping that keeps the nesting limit
* `round_trip`: both sides of the limit
-/

namespace Parcel.Entries

open Json

variable {m : Entries} {bytes : Bytes}

/-- A mapping is decoded from one item, with nothing behind it, that converts to the mapping. -/
theorem exists_of_decode (h : decode bytes = .ok m) :
    ∃ item : Cbor.Item, Cbor.Item.read maxDepth bytes = .ok (item, []) ∧
      item.toJson maxDepth = .ok (.object m) := by
  rw [decode] at h
  split at h
  · contradiction
  · next item hread =>
    rw [ofItem.eq_def] at h
    split at h
    · split at h
      · next entries hentries =>
        cases h
        exact ⟨_, hread, hentries⟩
      · contradiction
      · contradiction
    · contradiction
  · contradiction

/-- **What is decoded is proper.** -/
theorem proper_of_decode (h : decode bytes = .ok m) : Proper (.object m) := by
  obtain ⟨item, -, hitem⟩ := exists_of_decode h
  exact Cbor.Item.proper_of_toJson hitem

/-- **What is decoded keeps the nesting limit.** -/
theorem check_of_decode (h : decode bytes = .ok m) : check m = .ok () := by
  obtain ⟨item, -, hitem⟩ := exists_of_decode h
  exact check_eq_ok_iff.2 (Cbor.Item.depth_le_of_toJson hitem)

theorem object_canonical (m : Entries) : (Json.object m).canonical = .object m.canonical := rfl

/-- Decoding what was encoded depends on the nesting only. -/
theorem decode_encode_eq (hproper : Proper (.object m)) (haddressable : Addressable (.object m)) :
    decode (encode m) =
      if (Json.object m).depth ≤ maxDepth then .ok m.canonical
      else .error (.malformedEncoding "nesting deeper than 64 levels") := by
  -- the canonical form is what is written, and it is as deep as the mapping
  have hreordered := reordered_canonical (.object m)
  have hcanonical := hreordered.proper hproper
  have hread := read_write hcanonical (hreordered.addressable haddressable) maxDepth []
  rw [List.append_nil, ← hreordered.depth_eq] at hread
  have hencode : encode m = (Json.object m).canonical.toItem.write := rfl
  rw [decode, hencode, hread]
  by_cases hdepth : (Json.object m).depth ≤ maxDepth
  · have hjson := toJson_toItem hcanonical (hreordered.depth_eq ▸ hdepth)
    rw [object_canonical, toItem] at hjson ⊢
    simp only [if_pos hdepth, ofItem, hjson]
  · rw [if_neg hdepth, if_neg hdepth]
    rfl

/-- **The round trip** of a mapping that keeps the nesting limit puts its entries in canonical
order. -/
theorem decode_encode (hproper : Proper (.object m)) (haddressable : Addressable (.object m))
    (hcheck : check m = .ok ()) : decode (encode m) = .ok m.canonical := by
  rw [decode_encode_eq hproper haddressable, if_pos (check_eq_ok_iff.1 hcheck)]

/-- **The round trip of a mapping at the nesting limit.** A mapping with unique keys, integers of 64
bits and finite doubles is read back from its bytes exactly when it passes the check. What is read
is the mapping with the entries of every object in canonical order and all else unchanged; if
nothing is read, the nesting is the reason. Lengths fit 64 bits, as in memory. -/
theorem round_trip (hproper : Proper (.object m)) (haddressable : Addressable (.object m)) :
    ((∃ read, decode (encode m) = .ok read) ↔ check m = .ok ()) ∧
      (check m = .ok () → ∃ read, decode (encode m) = .ok read ∧
        Reordered (.object m) (.object read) ∧ Ordered (.object read)) ∧
      (check m ≠ .ok () →
        decode (encode m) = .error (.malformedEncoding "nesting deeper than 64 levels")) := by
  refine ⟨⟨?_, ?_⟩, ?_, ?_⟩
  · rintro ⟨read, hread⟩
    rw [decode_encode_eq hproper haddressable] at hread
    split at hread
    · next hdepth => exact check_eq_ok_iff.2 hdepth
    · contradiction
  · intro hcheck
    exact ⟨_, decode_encode hproper haddressable hcheck⟩
  · intro hcheck
    exact ⟨m.canonical, decode_encode hproper haddressable hcheck, reordered_canonical _,
      ordered_canonical hproper⟩
  · intro hcheck
    have hdeep : ¬ (Json.object m).depth ≤ maxDepth := fun hdepth =>
      hcheck (check_eq_ok_iff.2 hdepth)
    rw [decode_encode_eq hproper haddressable, if_neg hdeep]

/-- The greatest integer and the negative zero, under keys of different lengths. -/
theorem round_trip_extremes :
    let m : Entries := [("greatest", .integer 18446744073709551615),
      ("zero", .double ⟨0x8000000000000000⟩)]
    Proper (.object m) ∧ Addressable (.object m) ∧ check m = .ok () ∧
      ∃ read, decode (encode m) = .ok read ∧ Reordered (.object m) (.object read) ∧
        Ordered (.object read) := by
  intro m
  have hproper : Proper (.object m) := by decide
  have haddressable : Addressable (.object m) := by decide
  have hcheck : check m = .ok () := by decide
  exact ⟨hproper, haddressable, hcheck, (round_trip hproper haddressable).2.1 hcheck⟩

end Parcel.Entries
