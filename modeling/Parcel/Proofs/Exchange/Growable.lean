import Parcel.Exchange.Growable
import Parcel.Proofs.Exchange.Session

/-!
# Items of unknown size are read in full

A reader that reports the true length of a fixed item, and copies the item when all of it fits,
delivers the item whatever the size of the first buffer is.

## Main results

* `readGrowable_of_item`: a fixed item is read in full
* `readGrowable_of_none`: and one that is not there is not made up
-/

namespace Parcel

variable {σ : Type} {state : σ} {capacity : Nat} {read : Nat → Session σ (Option Reading)}

/-! ## Buffers -/

namespace Bytes

variable {buffer written : Bytes}

/-- What fits the buffer stands at its front. -/
theorem take_overlay (h : written.length ≤ buffer.length) :
    (overlay buffer written).take written.length = written := by
  rw [overlay, List.take_of_length_le h, List.take_left]

/-- What fills the buffer is all that is left in it. -/
theorem overlay_of_length_eq (h : written.length = buffer.length) :
    overlay buffer written = written := by
  rw [overlay, List.take_of_length_le (Nat.le_of_eq h), h, List.drop_length, List.append_nil]

theorem length_grow {size : Nat} (h : buffer.length ≤ size) : (grow buffer size).length = size := by
  rw [grow, List.length_append, length_zeros]
  omega

end Bytes

/-! ## Readings -/

/-- **A fixed item is read in full**, in one go or in two, from a reader that may note how often it
is called: the second reading is made where the first one ended. -/
theorem readGrowable_of_readings {item : Bytes} {between after : σ}
    (hfirst : (read (max capacity 1)).outcome state =
      (.ok (some (Reading.ofItem item (max capacity 1))), between))
    (hsecond : max capacity 1 < item.length → (read item.length).outcome between =
      (.ok (some (Reading.ofItem item item.length)), after)) :
    (readGrowable capacity read).outcome state =
      (.ok (some item), if max capacity 1 < item.length then after else between) := by
  rw [← Bytes.length_zeros (max capacity 1)] at hfirst
  rw [readGrowable, Session.outcome_bind_of_ok hfirst]
  simp only [Reading.ofItem, Bytes.length_overlay, Bytes.length_zeros]
  split
  · next hfits =>
    have htake : ((Bytes.zeros (max capacity 1)).overlay item).take item.length = item :=
      Bytes.take_overlay (by rwa [Bytes.length_zeros])
    rw [htake, if_neg (Nat.not_lt.2 hfits)]
    rfl
  · next hlong =>
    -- nothing was copied, and the buffer grows to exactly the reported length
    have hgrown : ((Bytes.zeros (max capacity 1)).overlay []).length ≤ item.length := by
      rw [Bytes.length_overlay, Bytes.length_zeros]
      omega
    rw [Bytes.length_grow hgrown, Session.outcome_bind_of_ok (hsecond (Nat.lt_of_not_le hlong))]
    simp only [Reading.ofItem, Nat.le_refl, if_true, Session.outcome_pure]
    rw [Bytes.overlay_of_length_eq (Bytes.length_grow hgrown).symm, if_pos (Nat.lt_of_not_le hlong)]

/-- A reader that is as it was after every call reads the item and leaves nothing behind. -/
theorem readGrowable_of_item {item : Bytes}
    (h : ∀ size, (read size).outcome state = (.ok (some (Reading.ofItem item size)), state)) :
    (readGrowable capacity read).outcome state = (.ok (some item), state) := by
  rw [readGrowable_of_readings (h _) fun _ => h _, ite_self]

/-- An item that is not there is not read. -/
theorem readGrowable_of_none (h : ∀ size, (read size).outcome state = (.ok none, state)) :
    (readGrowable capacity read).outcome state = (.ok none, state) := by
  rw [readGrowable, Session.outcome_bind_of_ok (h _)]
  rfl

end Parcel
