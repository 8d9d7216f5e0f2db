import Parcel.Proofs.Json.Equality
import Parcel.Proofs.Metadata.Canonical

/-!
# Equal mappings and their bytes

Mappings with the same bytes are equal. Equal mappings have the same bytes unless they differ in the
sign of a zero: the two zeros are equal as numbers, and each is written with its own bits.

## Main results

* `equal_mappings_share_bytes`: which equal mappings have the same bytes
* `equal_mappings_with_other_bytes`: two equal mappings with different bytes
-/

namespace Parcel.Entries

open Json

variable {a b : Entries}

theorem same_object : Json.same (.object a) (.object b) = Entries.same a b := by
  rw [Json.same, Entries.same]

/-- **Equal mappings have the same bytes, but for the signs of zeros.** Mappings with the same bytes
are equal, and equal mappings have the same bytes if only one of the two zeros occurs in them, at
any level. Keys are unique, integers have 64 bits, doubles are finite, and lengths fit 64 bits. -/
theorem equal_mappings_share_bytes (ha : Proper (.object a)) (hb : Proper (.object b))
    (hafits : Addressable (.object a)) (hbfits : Addressable (.object b)) :
    (encode a = encode b → Entries.same a b = true) ∧
      ∀ z, OneZero z (.object a) → OneZero z (.object b) → Entries.same a b = true →
        encode a = encode b := by
  rw [encode_eq_encode_iff ha hb hafits hbfits, ← same_object]
  constructor
  · intro h
    exact h.same ha
  · intro z haz hbz h
    exact (same_iff_reordered ha haz hbz).1 h

/-- Two mappings that hold the negative zero, also in an array, in different orders. -/
theorem equal_mappings_share_bytes_negative :
    let z : Double := ⟨0x8000000000000000⟩
    let a : Entries := [("zero", .double z), ("list", .array [.double z, .double ⟨1⟩])]
    let b : Entries := a.reverse
    Proper (.object a) ∧ Proper (.object b) ∧ Addressable (.object a) ∧ Addressable (.object b) ∧
      OneZero z (.object a) ∧ OneZero z (.object b) ∧ Entries.same a b = true ∧
      encode a = encode b := by
  intro z a b
  have hreordered : Reordered (.object a) (.object b) := reordered_of_perm a.reverse_perm.symm
  have ha : Proper (.object a) := by decide
  have hafits : Addressable (.object a) := by decide
  have haz : OneZero z (.object a) := by decide
  have hbz : OneZero z (.object b) := by
    simpa [b, oneZero_object] using haz
  have hb := hreordered.proper ha
  have hbfits := hreordered.addressable hafits
  have hsame : Entries.same a b = true := same_object ▸ hreordered.same ha
  have hbytes := equal_mappings_share_bytes ha hb hafits hbfits
  exact ⟨ha, hb, hafits, hbfits, haz, hbz, hsame, hbytes.2 z haz hbz hsame⟩

/-- **The zeros are equal, and their bytes differ.** -/
theorem equal_mappings_with_other_bytes :
    let a : Entries := [("z", .double ⟨0⟩)]
    let b : Entries := [("z", .double ⟨0x8000000000000000⟩)]
    Proper (.object a) ∧ Proper (.object b) ∧ check a = .ok () ∧ check b = .ok () ∧
      Entries.same a b = true ∧ encode a ≠ encode b ∧
      encode a = [0xa1, 0x61, 0x7a, 0xf9, 0x00, 0x00] ∧
      encode b = [0xa1, 0x61, 0x7a, 0xf9, 0x80, 0x00] := by
  intro a b
  have ha : encode a = [0xa1, 0x61, 0x7a, 0xf9, 0x00, 0x00] := by decide +kernel
  have hb : encode b = [0xa1, 0x61, 0x7a, 0xf9, 0x80, 0x00] := by decide +kernel
  exact ⟨by decide, by decide, by decide, by decide, by decide +kernel, by simp [ha, hb], ha, hb⟩

end Parcel.Entries
