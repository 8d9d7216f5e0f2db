import Parcel.Proofs.Cbor.Stable
import Parcel.Proofs.Metadata.RoundTrip

/-!
# Accepted bytes are no prefix of each other

Bytes that hold a mapping hold it as a whole: cut short they are malformed, and so they are with
anything behind them. This goes for every encoding that is read, not only for the one that is
written, since the reader of items is stable: what it took for a complete item remains one in front
of other bytes, and then leaves those over.

## Main results

* `exists_read_of_decode`: accepted bytes are one item, and nothing behind it
* `accepted_bytes_are_prefix_free`: both sides of the end
-/

namespace Parcel.Entries

variable {b : Bytes} {m : Entries}

/-- **Accepted bytes** are read as one item that leaves nothing over. -/
theorem exists_read_of_decode (h : decode b = .ok m) :
    ∃ item, Cbor.Item.read maxDepth b = .ok (item, []) :=
  have ⟨item, hread, _⟩ := exists_of_decode h
  ⟨item, hread⟩

/-- An item with bytes behind it is no mapping. -/
theorem decode_of_read {item : Cbor.Item} {rest : Bytes}
    (hread : Cbor.Item.read maxDepth b = .ok (item, rest)) (hrest : rest ≠ []) :
    decode b = .error (.malformedEncoding
      (toString rest.length ++ " trailing bytes after top-level item")) := by
  obtain ⟨first, later, rfl⟩ := List.exists_cons_of_ne_nil hrest
  rw [decode, hread]

/-- **Accepted bytes are prefix-free.** The front of bytes that hold a mapping is malformed unless
it is all of them, also if it is empty, and the fault is one that the reader of items finds. The
bytes with anything behind them are malformed too, and as many bytes are reported as come behind. -/
theorem accepted_bytes_are_prefix_free (hb : decode b = .ok m) :
    (∀ front, front <+: b → front ≠ b →
      ∃ fault : Cbor.Fault, decode front = .error (.malformedEncoding fault.detail)) ∧
    ∀ behind ≠ [], decode (b ++ behind) = .error (.malformedEncoding
      (toString behind.length ++ " trailing bytes after top-level item")) := by
  obtain ⟨item, hread⟩ := exists_read_of_decode hb
  constructor
  · rintro front ⟨missing, rfl⟩ hne
    have hmissing : missing ≠ [] := by
      rintro rfl
      exact hne (List.append_nil front).symm
    cases hfront : Cbor.Item.read maxDepth front with
    | error fault => exact ⟨fault, by rw [decode, hfront]⟩
    | ok found =>
      -- an item read from the front would be the one read from all, and would leave bytes over
      obtain ⟨other, rest⟩ := found
      have hall := Cbor.stable_read maxDepth front missing hfront
      rw [hread, Except.ok.injEq, Prod.mk.injEq] at hall
      exact absurd (List.append_eq_nil_iff.1 hall.2.symm).2 hmissing
  · intro behind hbehind
    exact decode_of_read (Cbor.stable_read maxDepth b behind hread) hbehind

/-- A map of open length whose key comes in segments and whose value has a wide header. -/
theorem accepted_bytes_are_prefix_free_open :
    let b : Bytes := [0xbf, 0x7f, 0x61, 0x61, 0x60, 0xff, 0x18, 0x01, 0xff]
    decode b = .ok [("a", .integer 1)] ∧
      (∃ fault : Cbor.Fault, decode (b.take 8) = .error (.malformedEncoding fault.detail)) ∧
      decode (b ++ [0xff]) =
        .error (.malformedEncoding "1 trailing bytes after top-level item") := by
  intro b
  have hb : decode b = .ok [("a", .integer 1)] := by rfl
  obtain ⟨hfront, hbehind⟩ := accepted_bytes_are_prefix_free hb
  exact ⟨hb, hfront _ (b.take_prefix 8) (by decide), hbehind [0xff] (by decide)⟩

end Parcel.Entries
