import Parcel.Proofs.Json.Canonical
import Parcel.Proofs.Metadata.RoundTrip

/-!
# One encoding for all orders of entries

What is written for a value can be read back at some number of levels, however deep the value nests,
so different values have different bytes. A mapping is written in its canonical form, which forgets
the order of entries and nothing else. So two mappings have the same bytes exactly when they differ
in the order of entries only.

## Main results

* `Json.write_toItem_injective`: different values have different bytes
* `encode_eq_encode_iff`: what two mappings with the same bytes have in common
* `encoding_is_canonical`: the encoding is canonical, and stable under decoding
-/

namespace Parcel

namespace Json

variable {a b : Json}

/-- **Different values have different bytes.** -/
theorem write_toItem_injective (ha : Proper a) (hb : Proper b) (hafits : Addressable a)
    (hbfits : Addressable b) (h : a.toItem.write = b.toItem.write) : a = b := by
  -- these levels suffice to read both values and to convert them back
  let levels := max a.depth b.depth
  have hadepth : a.depth ≤ levels := Nat.le_max_left _ _
  have hbdepth : b.depth ≤ levels := Nat.le_max_right _ _
  have haread := read_write ha hafits levels []
  have hbread := read_write hb hbfits levels []
  rw [if_pos hadepth] at haread
  rw [if_pos hbdepth, ← h, haread, Except.ok.injEq, Prod.mk.injEq] at hbread
  have hajson := toJson_toItem ha hadepth
  rw [hbread.1, toJson_toItem hb hbdepth, Except.ok.injEq] at hajson
  exact hajson.symm

end Json

namespace Entries

open Json

variable {a b : Entries}

/-- **Mappings with the same bytes** differ in the order of entries only. -/
theorem encode_eq_encode_iff (ha : Proper (.object a)) (hb : Proper (.object b))
    (hafits : Addressable (.object a)) (hbfits : Addressable (.object b)) :
    encode a = encode b ↔ Reordered (.object a) (.object b) := by
  -- what is written is the canonical form, which is as proper and addressable as the mapping
  have hacanonical := reordered_canonical (.object a)
  have hbcanonical := reordered_canonical (.object b)
  rw [← canonical_eq_iff ha]
  constructor
  · intro h
    exact write_toItem_injective (hacanonical.proper ha) (hbcanonical.proper hb)
      (hacanonical.addressable hafits) (hbcanonical.addressable hbfits) h
  · intro h
    exact congrArg (fun v : Json => v.toItem.write) h

/-- **The encoding is canonical.** Two mappings with unique keys, integers of 64 bits and finite
doubles have the same bytes exactly when they differ in the order of entries only, at any levels;
this needs no limit on their nesting. So a mapping that is built from the same entries in another
order, at any levels, has the same bytes, and a mapping that passes the check has the same bytes
after it was read back from them. Lengths fit 64 bits, as in memory. -/
theorem encoding_is_canonical (ha : Proper (.object a)) (hb : Proper (.object b))
    (hafits : Addressable (.object a)) (hbfits : Addressable (.object b)) :
    (encode a = encode b ↔ Reordered (.object a) (.object b)) ∧
      (∀ pairs : Entries, Reordered (.object a) (.object pairs) →
        encode (ofPairs pairs) = encode a) ∧
      (check a = .ok () → ∃ read, decode (encode a) = .ok read ∧ encode read = encode a) := by
  have hstable : ∀ other : Entries, Reordered (.object a) (.object other) →
      encode other = encode a := by
    intro other h
    rw [encode_eq_encode_iff (h.proper ha) ha (h.addressable hafits) hafits]
    exact h.symm
  refine ⟨encode_eq_encode_iff ha hb hafits hbfits, ?_, ?_⟩
  · intro pairs h
    rw [ofPairs_of_nodup (proper_object.1 (h.proper ha)).1]
    exact hstable pairs h
  · intro hcheck
    exact ⟨a.canonical, decode_encode ha hafits hcheck,
      hstable a.canonical (reordered_canonical (.object a))⟩

/-- Two mappings whose entries come in different orders, also inside an array. -/
theorem encoding_is_canonical_nested :
    let first : Entries := [("x", .integer 1), ("y", .double ⟨0x3ff0000000000000⟩)]
    let a : Entries := [("size", .integer 2), ("list", .array [.object first])]
    let b : Entries := [("list", .array [.object first.reverse]), ("size", .integer 2)]
    Proper (.object a) ∧ Proper (.object b) ∧ Addressable (.object a) ∧ Addressable (.object b) ∧
      check a = .ok () ∧ encode a = encode b ∧ encode (ofPairs b) = encode a ∧
      ∃ read, decode (encode a) = .ok read ∧ encode read = encode a := by
  intro first a b
  have hlist : Reordered (.array [.object first]) (.array [.object first.reverse]) :=
    reordered_array (.cons (reordered_of_perm first.reverse_perm.symm) .nil)
  have hreordered : Reordered (.object a) (.object b) := by
    refine reordered_object ?_ b.reverse_perm
    exact .cons ⟨rfl, .refl _⟩ (.cons ⟨rfl, hlist⟩ .nil)
  have ha : Proper (.object a) := by decide
  have hafits : Addressable (.object a) := by decide
  have hcheck : check a = .ok () := by decide
  have hb := hreordered.proper ha
  have hbfits := hreordered.addressable hafits
  obtain ⟨hiff, hbuilt, hread⟩ := encoding_is_canonical ha hb hafits hbfits
  exact ⟨ha, hb, hafits, hbfits, hcheck, hiff.2 hreordered, hbuilt b hreordered,
    hread hcheck⟩

end Entries

end Parcel
