import Parcel.Proofs.Double.Error

/-!
# Rounded arithmetic

Products, quotients and natural numbers are rounded once from their exact values, so the error
bounds of one rounding hold for each of them. A natural number of 53 binary digits, zeros behind
them aside, is not rounded at all. Powers of ten are finite up to the 308th.

## Main definitions

* `Double.value`: what a finite double without a sign stands for
* `Double.greatest`: the greatest finite magnitude

## Main results

* `Double.ratio_div`: numerator and denominator of a double
* `Double.nearestTo_mulMagnitude`, `Double.nearestTo_divMagnitude`, `Double.nearestTo_ofNat`
* `Double.relative_ofNat`: the error of a natural number
* `Double.value_ofNat`: natural numbers that are not rounded
* `Double.pow_ten_le_greatest`: finite powers of ten
-/

namespace Parcel.Double

/-- **What a finite double without a sign stands for.** -/
def value (x : Double) : ℚ := magnitudeOf x.bits.toNat

variable {x y : Double} {n r s : ℕ} {q : ℚ}

theorem infinityBits_lt : infinityBits < 1 <<< 63 := by decide

/-- The fields of a finite double without a sign are those of its bits as a number. -/
theorem fields_of_lt (hx : x.bits.toNat < infinityBits) :
    x.significand = multipleOf x.bits.toNat ∧
      x.exponent = (doublings x.bits.toNat : ℤ) - 1074 := by
  have hbits : x.bits.toNat < 2047 * 2 ^ 52 := hx
  have hfield : BinaryFormat.double.exponentField x.bits.toNat = x.bits.toNat / 2 ^ 52 := by
    simp only [BinaryFormat.exponentField, BinaryFormat.double, Nat.shiftRight_eq_div_pow,
      Nat.shiftLeft_eq]
    omega
  -- without a sign both fields are quotients and remainders of the bits, and the rest is arithmetic
  constructor
  · rw [significand, BinaryFormat.significand, hfield]
    simp only [BinaryFormat.fractionField, BinaryFormat.double, Nat.shiftLeft_eq, multipleOf,
      doublings]
    split <;> omega
  · rw [exponent, BinaryFormat.exponent, leastExponent_double, hfield]
    simp only [doublings]
    omega

/-- **Numerator and denominator** of a finite double. -/
theorem ratio_div (hx : x.bits.toNat < infinityBits) : (x.ratio.1 : ℚ) / x.ratio.2 = x.value := by
  obtain ⟨hsignificand, hexponent⟩ := fields_of_lt hx
  rw [ratio, scaledQuotient_div, hsignificand, hexponent, Nat.cast_one, div_one]
  rfl

theorem value_nonneg (x : Double) : 0 ≤ x.value :=
  magnitudeOf_nonneg _

theorem ratio_num_pos (hx : x.bits.toNat < infinityBits) (hpos : 0 < x.value) : 0 < x.ratio.1 := by
  refine Nat.pos_of_ne_zero fun hzero => hpos.ne' ?_
  rw [← ratio_div hx, hzero, Nat.cast_zero, zero_div]

/-! ## Rounded results -/

/-- A rounded quotient is a double without a sign. -/
theorem nearestTo_ofMagnitude {num den : ℕ} (hden : 0 < den) :
    NearestTo (ofMagnitude false (BinaryFormat.double.nearest num den)).bits.toNat (num / den) := by
  have hspec := @nearest_spec num den hden
  rwa [toNat_bits_ofMagnitude (hspec.le_infinity.trans_lt infinityBits_lt)]

theorem nearestTo_ofNat (n : ℕ) : NearestTo (ofNat n).bits.toNat n := by
  have h := @nearestTo_ofMagnitude n 1 Nat.one_pos
  rwa [Nat.cast_one, div_one] at h

theorem nearestTo_mulMagnitude (hx : x.bits.toNat < infinityBits)
    (hy : y.bits.toNat < infinityBits) :
    NearestTo (x.mulMagnitude y).bits.toNat (x.value * y.value) := by
  have h := @nearestTo_ofMagnitude (x.ratio.1 * y.ratio.1) _
    (Nat.mul_pos (ratio_den_pos x) (ratio_den_pos y))
  rwa [Nat.cast_mul, Nat.cast_mul, ← div_mul_div_comm, ratio_div hx, ratio_div hy] at h

theorem nearestTo_divMagnitude (hx : x.bits.toNat < infinityBits)
    (hy : y.bits.toNat < infinityBits) (hpos : 0 < y.value) :
    NearestTo (x.divMagnitude y).bits.toNat (x.value / y.value) := by
  have h := @nearestTo_ofMagnitude (x.ratio.1 * y.ratio.2) _
    (Nat.mul_pos (ratio_den_pos x) (ratio_num_pos hy hpos))
  rwa [Nat.cast_mul, Nat.cast_mul, ← div_div_div_eq, ratio_div hx, ratio_div hy] at h

/-! ## Natural numbers -/

/-- **The greatest finite magnitude.** -/
def greatest : ℚ := (2 ^ 53 - 1) * 2 ^ 971

theorem magnitudeOf_greatest : magnitudeOf (infinityBits - 1) = greatest := by
  have h := @magnitudeOf_eq 2045 (2 ^ 53 - 1) (by norm_num) (.inr (by norm_num))
  have hbits : infinityBits - 1 = 2045 * 2 ^ 52 + (2 ^ 53 - 1) := rfl
  rw [hbits, h, greatest]
  norm_num

theorem lt_infinityBits_iff : n < infinityBits ↔ magnitudeOf n ≤ greatest := by
  have := infinityBits_eq
  rw [← magnitudeOf_greatest, magnitudeOf_le_magnitudeOf]
  omega

/-- What is at most the greatest finite magnitude is rounded to a finite one. -/
theorem NearestTo.lt_infinityBits (h : NearestTo n q) (hq : q ≤ greatest) : n < infinityBits := by
  have hle := h.le ((magnitudeOf_greatest ▸ hq).trans_lt (magnitudeOf_lt_midpoint _))
  have := infinityBits_eq
  omega

theorem bits_ofNat_lt (hn : n ≤ greatest) : (ofNat n).bits.toNat < infinityBits :=
  (nearestTo_ofNat n).lt_infinityBits hn

/-- **The error of a natural number.** -/
theorem relative_ofNat (hpos : 0 < n) (hn : n ≤ greatest) :
    LeUpTo 1 n (ofNat n).value ∧ LeUpTo 1 (ofNat n).value n := by
  refine (nearestTo_ofNat n).relative (bits_ofNat_lt hn) ?_
  have hone : (1 : ℚ) ≤ n := by exact_mod_cast hpos
  exact (zpow_le_one_of_nonpos₀ (by norm_num) (by norm_num)).trans hone

theorem value_ofNat_pos (hpos : 0 < n) (hn : n ≤ greatest) : 0 < (ofNat n).value := by
  have hlow := (relative_ofNat hpos hn).1
  have hpos' : (0 : ℚ) < n := by exact_mod_cast hpos
  rw [LeUpTo, pow_one, pow_one] at hlow
  linarith

/-- **A natural number of 53 binary digits**, zeros behind them aside, is not rounded. -/
theorem value_ofNat (hr : r ≤ 2 ^ 53) (hn : (r * 2 ^ s : ℕ) ≤ greatest) :
    (ofNat (r * 2 ^ s)).value = (r * 2 ^ s : ℕ) := by
  obtain ⟨c, hc⟩ := exists_magnitudeOf_eq hr (s + 1074)
  have hsame : magnitudeOf c = (r * 2 ^ s : ℕ) := by
    rw [hc, Nat.cast_add, Nat.cast_ofNat, add_sub_cancel_right, zpow_natCast]
    push_cast
    rfl
  have hspec := nearestTo_ofNat (r * 2 ^ s)
  rw [← hsame] at hspec hn ⊢
  exact hspec.magnitudeOf_eq (lt_infinityBits_iff.2 hn)

/-! ## Powers of ten -/

/-- **The powers of ten up to the 308th** are finite. -/
theorem pow_ten_le_greatest (hn : n ≤ 308) : (10 : ℚ) ^ n ≤ greatest :=
  calc (10 : ℚ) ^ n ≤ 10 ^ 308 := pow_le_pow_right₀ (by norm_num) hn
    _ = 10 ^ 77 * (10 ^ 77) ^ 3 := by rw [← pow_mul, ← pow_add]
    _ ≤ ((2 ^ 53 - 1) * 2 ^ 203) * (2 ^ 256) ^ 3 := by gcongr <;> norm_num
    _ = greatest := by rw [greatest, ← pow_mul, mul_assoc, ← pow_add]

theorem cast_pow_ten (n : ℕ) : ((Nat.pow 10 n : ℕ) : ℚ) = 10 ^ n := by
  rw [Nat.pow_eq, Nat.cast_pow, Nat.cast_ofNat]

end Parcel.Double
