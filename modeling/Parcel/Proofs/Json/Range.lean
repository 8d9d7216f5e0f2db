import Parcel.Proofs.Json.Decimal
import Parcel.Proofs.Json.Scaling

/-!
# Numbers that are too large

A number in a text is refused only if it is too large for a double, or so close below the greatest
one that the rounded steps of reading it lead out of the range. Digits that do not fit the
significand are left out, so what is scaled is never more than the number that was written. If it is
smaller than the greatest doubles, it is rounded to one that has room for the error of the steps.

## Main definitions

* `Numeral.magnitude`: the number that was written, without its sign
* `Double.comfortable`: the limit below which every number is read

## Main results

* `Numeral.gathered_le`: the significand with the place of its last digit is no more than the number
* `Numeral.exists_value?_eq`: every number below the limit is read
-/

namespace Parcel

namespace Double

/-- **The greatest double but two.** From here on the error of reading a number can lead out of the
range of doubles. -/
def comfortable : ℚ := (2 ^ 53 - 3) * 2 ^ 971

theorem magnitudeOf_comfortable : magnitudeOf (infinityBits - 3) = comfortable := by
  have h := @magnitudeOf_eq 2045 (2 ^ 53 - 3) (by norm_num) (.inr (by norm_num))
  have hbits : infinityBits - 3 = 2045 * 2 ^ 52 + (2 ^ 53 - 3) := rfl
  rw [hbits, h, comfortable]
  norm_num

end Double

namespace Numeral

open Double

variable {ds : List Char} {init taken significand : ℕ} {exponent : ℤ}

/-! ## Digits that are left out -/

/-- **Some of the first digits are gathered.** The first one that is left out would not have fit. -/
theorem exists_gatherWhole_eq (hinit : init < significandBound) (ds : List Char) :
    ∃ kept out, ds = kept ++ out ∧
      gatherWhole init ds = (Nat.ofDigitChars 10 kept init, out.length) ∧
      Nat.ofDigitChars 10 kept init < significandBound ∧
      ∀ d ∈ out.head?, significandBound ≤ 10 * Nat.ofDigitChars 10 kept init + digitValue d := by
  induction ds generalizing init with
  | nil => exact ⟨[], [], rfl, rfl, hinit, nofun⟩
  | cons c ds ih =>
    -- the first digit that does not fit ends the gathering
    by_cases hfits : 10 * init + digitValue c < significandBound
    · obtain ⟨kept, out, rfl, hgather, hbound, hnext⟩ := ih hfits
      refine ⟨c :: kept, out, rfl, ?_, hbound, hnext⟩
      rw [gatherWhole, if_pos hfits]
      exact hgather
    · refine ⟨[], c :: ds, rfl, ?_, hinit, ?_⟩
      · rw [gatherWhole, if_neg hfits]
        rfl
      · rintro _ ⟨⟩
        exact Nat.le_of_not_lt hfits

theorem exists_gatherFraction_eq (hinit : init < significandBound) (taken : ℕ) (ds : List Char) :
    ∃ kept out, ds = kept ++ out ∧
      gatherFraction init taken ds = (Nat.ofDigitChars 10 kept init, taken + kept.length) ∧
      Nat.ofDigitChars 10 kept init < significandBound := by
  induction ds generalizing init taken with
  | nil => exact ⟨[], [], rfl, rfl, hinit⟩
  | cons c ds ih =>
    by_cases hfits : 10 * init + digitValue c < significandBound
    · obtain ⟨kept, out, rfl, hgather, hbound⟩ := ih hfits (taken + 1)
      refine ⟨c :: kept, out, rfl, ?_, hbound⟩
      rw [gatherFraction, if_pos hfits, hgather, List.length_cons, Nat.add_assoc, Nat.add_comm 1]
      rfl
    · refine ⟨[], c :: ds, rfl, ?_, hinit⟩
      rw [gatherFraction, if_neg hfits]
      rfl

/-- **A digit may fit where a greater one did not**, but only one. -/
theorem gatherFraction_of_full {d : Char} (hfull : significandBound ≤ 10 * init + digitValue d)
    (hd : digitValue d ≤ 9) (ds : List Char) :
    gatherFraction init 0 ds = (init, 0) ∨
      ∃ c ∈ ds.head?, gatherFraction init 0 ds = (10 * init + digitValue c, 1) ∧
        digitValue c < digitValue d := by
  cases ds with
  | nil => exact .inl rfl
  | cons c ds =>
    rw [gatherFraction]
    -- a smaller digit may still fit, but nothing fits behind it
    by_cases hfits : 10 * init + digitValue c < significandBound
    · refine .inr ⟨c, rfl, ?_, by omega⟩
      rw [if_pos hfits]
      cases ds with
      | nil => rfl
      | cons c' ds =>
        have : 10 < significandBound := by decide
        rw [gatherFraction, if_neg (by omega)]
    · rw [if_neg hfits]
      exact .inl rfl

theorem digitValue_le_nine {c : Char} (hc : c.isDigit = true) : digitValue c ≤ 9 := by
  have h := (Char.isDigit_iff_toNat.1 hc).2
  exact Nat.sub_le_of_le_add (Nat.le_trans h (by decide))

theorem digitsValue_concat (ds : List Char) (d : Char) :
    digitsValue (ds ++ [d]) = 10 * digitsValue ds + digitValue d := by
  rw [digitsValue, List.foldl_append]
  rfl

/-- The digits of a longer number are worth at least what its first digits are. -/
theorem digitsValue_mul_pow_le (ds rest : List Char) :
    digitsValue ds * 10 ^ rest.length ≤ digitsValue (ds ++ rest) := by
  rw [digitsValue_append]
  exact Nat.le_add_right _ _

/-- **What is gathered is no more than the number**: the significand has the place of its last
digit, and the number that of the last digit of its fraction. -/
theorem gathered_le {whole fraction : List Char} {first dropped : ℕ}
    (hdigit : ∀ c ∈ whole, c.isDigit = true) (hwhole : gatherWhole 0 whole = (first, dropped))
    (hfraction : gatherFraction first 0 fraction = (significand, taken)) :
    significand < significandBound ∧
      significand * 10 ^ (dropped + fraction.length) ≤
        digitsValue (whole ++ fraction) * 10 ^ taken := by
  obtain ⟨kept, out, rfl, hgather, hfirst, hnext⟩ :=
    exists_gatherWhole_eq (show 0 < significandBound by decide) whole
  obtain ⟨kept', out', hsplit, hgather', hbound⟩ := exists_gatherFraction_eq hfirst 0 fraction
  rw [hgather, Prod.mk.injEq] at hwhole
  obtain ⟨rfl, rfl⟩ := hwhole
  rw [hgather', Prod.mk.injEq] at hfraction
  refine ⟨hfraction.1 ▸ hbound, ?_⟩
  cases out with
  | nil =>
    -- all digits of the whole part are gathered
    obtain ⟨rfl, rfl⟩ := hfraction
    have hsame : Nat.ofDigitChars 10 kept' (Nat.ofDigitChars 10 kept 0) =
        digitsValue (kept ++ kept') := by
      rw [digitsValue_eq_ofDigitChars, Nat.ofDigitChars_append]
    have hle := digitsValue_mul_pow_le (kept ++ kept') out'
    rw [hsame, hsplit, List.append_nil, ← List.append_assoc, List.length_nil, Nat.zero_add,
      Nat.zero_add, List.length_append, Nat.add_comm, pow_add, ← Nat.mul_assoc]
    exact Nat.mul_le_mul_right _ hle
  | cons d out =>
    have hdigits := digitsValue_mul_pow_le (kept ++ [d]) (out ++ fraction)
    rw [digitsValue_concat, List.length_append, List.append_assoc, List.singleton_append,
      ← List.cons_append, ← List.append_assoc] at hdigits
    rw [← digitsValue_eq_ofDigitChars] at hgather' hfraction hnext
    have hd : digitValue d ≤ 9 := digitValue_le_nine (hdigit d (by simp))
    have hmore : ∀ n ≤ 10 * digitsValue kept + digitValue d,
        n * 10 ^ (out.length + fraction.length) ≤ digitsValue (kept ++ d :: out ++ fraction) :=
      fun n hn => (Nat.mul_le_mul_right _ hn).trans hdigits
    rw [List.length_cons, Nat.add_right_comm, pow_succ]
    rcases gatherFraction_of_full (hnext d rfl) hd fraction with hnone | ⟨c, -, hone, hlt⟩
    · rw [hgather', Prod.mk.injEq] at hnone
      rw [← hfraction.1, ← hfraction.2, hnone.1, hnone.2, pow_zero, mul_one, mul_comm _ 10,
        ← mul_assoc, mul_comm _ 10]
      exact hmore _ (Nat.le_add_right _ _)
    · rw [hgather', Prod.mk.injEq] at hone
      rw [← hfraction.1, ← hfraction.2, hone.1, hone.2, pow_one, ← mul_assoc]
      exact Nat.mul_le_mul_right 10 (hmore _ (Nat.add_le_add_left hlt.le _))

/-! ## Numbers in the range -/

/-- **The number that was written**, without its sign. -/
def magnitude (n : Numeral) : ℚ :=
  digitsValue (n.whole ++ n.fraction) * 10 ^ (n.exponent - n.fraction.length)

theorem midpoint_zero_lt_one : midpoint 0 < 1 := by
  have hunit : unitOf 0 ≤ 1 := zpow_le_one_of_nonpos₀ (by norm_num) (by decide)
  rw [midpoint_eq, magnitudeOf_zero]
  linarith

/-- Zero is read, whatever power of ten comes with it. -/
theorem exists_scaled?_zero (exponent : ℤ) : ∃ x, scaled? 0 exponent = some x := by
  have hzero : (ofNat 0).isZero = true := by decide
  rw [scaled?]
  dsimp only
  split_ifs with hneg hone hfinite
  · exact ⟨_, rfl⟩
  · exact ⟨_, rfl⟩
  · refine absurd (isFinite_of_lt ?_) hfinite
    -- the product is zero, so it is rounded to zero
    have hpower : exponent.natAbs ≤ 308 := by
      have : greatestPower = 308 := rfl
      omega
    have hvalue : (ofNat 0).value = 0 := by
      have hbits : (ofNat 0).bits.toNat = 0 := by decide
      rw [value, hbits, magnitudeOf_zero]
    have hproduct := nearestTo_mulMagnitude (x := ofNat 0) (by decide) (bits_powerOfTen_lt hpower)
    rw [hvalue, zero_mul, ← magnitudeOf_zero] at hproduct
    have hle := hproduct.le (magnitudeOf_lt_midpoint 0)
    have := infinityBits_eq
    omega
  · exact ⟨_, rfl⟩

/-- **A significand times a power of ten** is read if the product is below the limit. -/
theorem exists_scaled?_of_lt (hbound : significand < significandBound)
    (hlt : (significand * 10 ^ exponent : ℚ) < comfortable) :
    ∃ x, scaled? significand exponent = some x := by
  rcases Nat.eq_zero_or_pos significand with rfl | hpos
  · exact exists_scaled?_zero exponent
  by_cases hneg : exponent < 0
  · rw [scaled?]
    exact ⟨_, if_pos hneg⟩
  · obtain ⟨n, rfl⟩ : ∃ n : ℕ, exponent = n := ⟨exponent.toNat, by omega⟩
    rw [zpow_natCast] at hlt
    obtain ⟨b, hb⟩ : ∃ b, NearestTo b (significand * 10 ^ n) := by
      have h := @nearest_spec (significand * 10 ^ n) 1 Nat.one_pos
      rw [Nat.cast_one, div_one] at h
      exact ⟨_, by exact_mod_cast h⟩
    have := infinityBits_eq
    -- so far below the greatest double there is room for the errors of the scaling
    have hroom : b ≤ infinityBits - 3 := by
      refine hb.le (hlt.trans ?_)
      rw [← magnitudeOf_comfortable]
      exact magnitudeOf_lt_midpoint _
    have hb₀ : 0 < b := by
      refine hb.ge (by omega) (midpoint_zero_lt_one.trans_le ?_)
      exact_mod_cast Nat.mul_pos hpos (Nat.pow_pos (by norm_num))
    have hb' : NearestTo b (significand * 10 ^ (n : ℤ)) := by
      rwa [zpow_natCast]
    obtain ⟨x, hx, -⟩ := exists_scaled?_eq hpos hbound hb₀ (by omega) hb'
    exact ⟨x, hx⟩

/-- **Every number below the limit is read.** -/
theorem exists_value?_eq {n : Numeral} (hdigit : ∀ c ∈ n.whole, c.isDigit = true)
    (hlt : n.magnitude < comfortable) : ∃ v, n.value? = some v := by
  obtain ⟨first, dropped, hwhole⟩ : ∃ first dropped, gatherWhole 0 n.whole = (first, dropped) :=
    ⟨_, _, rfl⟩
  obtain ⟨significand, taken, hfraction⟩ :
      ∃ significand taken, gatherFraction first 0 n.fraction = (significand, taken) := ⟨_, _, rfl⟩
  obtain ⟨hbound, hle⟩ := gathered_le hdigit hwhole hfraction
  -- digits that are dropped make the number less, never more
  have hmagnitude : (significand * 10 ^ (dropped - taken + n.exponent) : ℚ) ≤ n.magnitude := by
    have hten : (10 : ℚ) ≠ 0 := by norm_num
    have hle' : (significand * 10 ^ (dropped + n.fraction.length) : ℚ) ≤
        digitsValue (n.whole ++ n.fraction) * 10 ^ taken := by
      exact_mod_cast hle
    calc (significand * 10 ^ (dropped - taken + n.exponent) : ℚ)
        = significand * 10 ^ (dropped + n.fraction.length) *
            10 ^ (n.exponent - n.fraction.length - taken) := by
          rw [mul_assoc, ← zpow_natCast, ← zpow_add₀ hten]
          congr 2
          push_cast
          ring
      _ ≤ digitsValue (n.whole ++ n.fraction) * 10 ^ taken *
            10 ^ (n.exponent - n.fraction.length - taken) := by
          gcongr
      _ = n.magnitude := by
          rw [mul_assoc, ← zpow_natCast, ← zpow_add₀ hten, magnitude]
          congr 2
          ring
  obtain ⟨x, hx⟩ := exists_scaled?_of_lt hbound (hmagnitude.trans_lt hlt)
  have hdouble : n.double? = some (if n.negative then x.neg else x) := by
    simp [double?, hwhole, hfraction, hx]
  unfold value?
  extract_lets whole integer
  split
  · exact ⟨_, rfl⟩
  · exact ⟨_, congrArg _ hdouble⟩

/-- The limit is not the greatest double: this number is less and yet refused. Its significand and
the power of ten are both rounded up to doubles, and the product of these is too large. -/
example : 17976931348623157081 * 10 ^ 289 < (2 ^ 53 - 1) * 2 ^ 971 ∧
    (⟨false, "17976931348623157081".toList, [], 289, false⟩ : Numeral).value? = none := by
  decide +kernel

end Numeral

end Parcel
