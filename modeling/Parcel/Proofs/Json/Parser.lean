import Parcel.Json.Parser
import Parcel.Proofs.Double.Finite
import Parcel.Proofs.Json.Parts

/-!
# What JSON text is read as

A written number becomes an integer in range or a finite double: what is scaled up is checked for
overflow, and what is scaled down only becomes smaller. Repeated keys are merged while they are
read. So every value that a text holds is proper.

## Main results

* `Numeral.isFinite_of_scaled?`: scaling never gives an infinity
* `Numeral.proper_of_value?`: a written number is a proper value
* `Json.proper_of_parse?`: so is what a whole text holds
-/

namespace Parcel

namespace Numeral

open Double

/-! ## Numbers -/

theorem gatherWhole_lt {significand : Nat} (h : significand < significandBound)
    (digits : List Char) : (gatherWhole significand digits).1 < significandBound := by
  induction digits generalizing significand with
  | nil => exact h
  | cons c rest ih =>
    simp only [gatherWhole]
    split
    · next hnext => exact ih hnext
    · exact h

theorem gatherFraction_lt {significand taken : Nat} (h : significand < significandBound)
    (digits : List Char) : (gatherFraction significand taken digits).1 < significandBound := by
  induction digits generalizing significand taken with
  | nil => exact h
  | cons c rest ih =>
    simp only [gatherFraction]
    split
    · next hnext => exact ih hnext
    · exact h

/-- The powers of ten that a step scales by are above one, the zeroth aside. -/
theorem powerOfTen_ratio : ∀ n ≤ greatestPower, 0 < n →
    (powerOfTen n).ratio.2 < (powerOfTen n).ratio.1 := by
  decide +kernel

theorem atMost_scaledDown {k n : Nat} {x : Double} (hk : k ≤ 1022) (hx : AtMost k x) (hn : 0 < n) :
    AtMost k (scaledDown x n) := by
  induction x, n using scaledDown.induct with
  | case1 x n hle =>
    rw [scaledDown, if_pos hle]
    exact hx.divMagnitude hk (powerOfTen_ratio n hle hn)
  | case2 x n hgreat hzero =>
    rw [scaledDown, if_neg hgreat, if_pos hzero]
    exact hx
  | case3 x n hgreat hnonzero ih =>
    rw [scaledDown, if_neg hgreat, if_neg hnonzero]
    exact ih (hx.divMagnitude hk (powerOfTen_ratio _ (Nat.le_refl _) (by decide))) (by omega)

/-- **Scaling** never gives an infinity. -/
theorem isFinite_of_scaled? {significand : Nat} {exponent : Int} {x : Double}
    (hsignificand : significand < significandBound)
    (h : scaled? significand exponent = some x) : x.isFinite = true := by
  have hbound : AtMost 64 (Double.ofNat significand) := atMost_ofNat (by decide) hsignificand
  simp only [scaled?] at h
  split at h
  · next hneg =>
    -- scaled down: the significand fits 64 bits, and division keeps below that
    rw [← Option.some.inj h]
    exact (atMost_scaledDown (by decide) hbound (by omega)).isFinite (by decide)
  · split at h
    · -- scaled up: the product is checked
      rw [Option.ite_none_right_eq_some] at h
      rw [← Option.some.inj h.2]
      exact h.1
    · rw [Option.ite_none_right_eq_some] at h
      rw [← Option.some.inj h.2]
      exact hbound.isFinite (by decide)

theorem isFinite_of_double? {n : Numeral} {x : Double} (h : n.double? = some x) :
    x.isFinite = true := by
  have hwhole : (gatherWhole 0 n.whole).1 < significandBound := gatherWhole_lt (by decide) n.whole
  have hsignificand :
      (gatherFraction (gatherWhole 0 n.whole).1 0 n.fraction).1 < significandBound :=
    gatherFraction_lt hwhole n.fraction
  simp only [double?, Option.bind_eq_bind, Option.bind_eq_some_iff, Option.pure_def,
    Option.some.injEq] at h
  obtain ⟨magnitude, hscaled, rfl⟩ := h
  have hfinite := isFinite_of_scaled? hsignificand hscaled
  split
  · rwa [isFinite_neg]
  · exact hfinite

/-- **A written number** is an integer in range or a finite double. -/
theorem proper_of_value? {n : Numeral} {v : Json} (h : n.value? = some v) : v.Proper := by
  unfold value? at h
  extract_lets magnitude integer at h
  split at h
  · next hinteger =>
    rw [← Option.some.inj h]
    exact Json.proper_integer.2 hinteger.2.2
  · obtain ⟨x, hx, rfl⟩ := Option.map_eq_some_iff.1 h
    exact Json.proper_double.2 (isFinite_of_double? hx)

end Numeral

namespace Json

/-! ## Values -/

variable {readItem? : List Char → Option (Json × List Char)} {fuel : Nat} {cs rest : List Char}

theorem proper_of_readItems? {read items : List Json}
    (hitem : ∀ cs v rest, readItem? cs = some (v, rest) → Proper v)
    (hread : ∀ item ∈ read, Proper item)
    (h : readItems? readItem? fuel read cs = some (items, rest)) :
    ∀ item ∈ items, Proper item := by
  induction fuel generalizing read cs with
  | zero => contradiction
  | succ fuel ih =>
    rw [readItems?] at h
    split at h
    · contradiction
    · next item cs hfirst =>
      have hmore := List.forall_mem_cons.2 ⟨hitem _ _ _ hfirst, hread⟩
      split at h
      · exact ih hmore h
      · cases h
        exact fun item hmem => hmore item (List.mem_reverse.1 hmem)
      · contradiction

theorem proper_of_readEntry? {entry : String × Json}
    (hitem : ∀ cs v rest, readItem? cs = some (v, rest) → Proper v)
    (h : readEntry? readItem? cs = some (entry, rest)) : Proper entry.2 := by
  unfold readEntry? at h
  split at h
  · split at h
    · contradiction
    · split at h
      · split at h
        · contradiction
        · next hvalue =>
          cases h
          exact hitem _ _ _ hvalue
      · contradiction
  · contradiction

theorem proper_of_readEntries? {read entries : Entries}
    (hitem : ∀ cs v rest, readItem? cs = some (v, rest) → Proper v)
    (hread : Proper (.object read))
    (h : readEntries? readItem? fuel read cs = some (entries, rest)) :
    Proper (.object entries) := by
  induction fuel generalizing read cs with
  | zero => contradiction
  | succ fuel ih =>
    rw [readEntries?] at h
    split at h
    · contradiction
    · next key value _ hentry =>
      -- a repeated key replaces the value that was read first
      have hvalue : Proper value := proper_of_readEntry? hitem hentry
      have hmore : Proper (.object (Entries.insert read key value)) := proper_insert hread hvalue
      split at h
      · exact ih hmore h
      · cases h
        exact hmore
      · contradiction

theorem proper_of_readLiteral? {literal : List Char} {value v : Json} (hvalue : Proper value)
    (h : readLiteral? literal value cs = some (v, rest)) : Proper v := by
  rw [readLiteral?, Option.ite_none_right_eq_some, Option.some.injEq] at h
  cases h.2
  exact hvalue

/-- **The value at the front of a text** is proper, whatever stands behind it. -/
theorem proper_of_readValue? {levels : Nat} {v : Json}
    (h : readValue? levels cs = some (v, rest)) : Proper v := by
  -- the items of a container are read with one level less
  induction levels using Nat.strongRecOn generalizing cs v rest with
  | ind levels ih =>
    rw [readValue?.eq_def] at h
    split at h
    · contradiction
    · obtain ⟨found, -, heq⟩ := Option.map_eq_some_iff.1 h
      cases heq
      exact proper_text _
    · cases levels with
      | zero => contradiction
      | succ levels =>
        dsimp only at h
        split at h
        · cases h
          exact proper_array.2 (by simp)
        · obtain ⟨found, hitems, heq⟩ := Option.map_eq_some_iff.1 h
          cases heq
          exact proper_array.2 (proper_of_readItems? (fun _ _ _ => ih levels (Nat.lt_succ_self _))
            (by simp) hitems)
    · cases levels with
      | zero => contradiction
      | succ levels =>
        dsimp only at h
        split at h
        · cases h
          exact proper_object_nil
        · obtain ⟨found, hentries, heq⟩ := Option.map_eq_some_iff.1 h
          cases heq
          exact proper_of_readEntries? (fun _ _ _ => ih levels (Nat.lt_succ_self _))
            proper_object_nil hentries
    · exact proper_of_readLiteral? proper_null h
    · exact proper_of_readLiteral? (proper_bool true) h
    · exact proper_of_readLiteral? (proper_bool false) h
    · split at h
      · contradiction
      · obtain ⟨value, hvalue, heq⟩ := Option.map_eq_some_iff.1 h
        cases heq
        exact Numeral.proper_of_value? hvalue

/-- **The value that a text holds** is proper. -/
theorem proper_of_parse? {s : String} {v : Json} (h : parse? s = some v) : Proper v := by
  rw [parse?] at h
  split at h
  · contradiction
  · next hread =>
    rw [Option.ite_none_right_eq_some, Option.some.injEq] at h
    exact h.2 ▸ proper_of_readValue? hread

end Json

end Parcel
