import Parcel.Double

/-!
# Rounding and finiteness

The exponent that rounding starts from is that of the greatest power of two below the quotient, so a
quotient below a power of two is rounded to that power at most. Division by a number above one
therefore never leads out of the finite doubles, however often it is repeated.

## Main definitions

* `Double.AtMost`: a positive double that is at most a power of two

## Main results

* `floorLog2_spec`: the power of two that rounding starts from
* `nearest_le`: the bound on a rounded quotient
* `AtMost.divMagnitude`: division by a number above one keeps a bound
-/

namespace Parcel

variable {num den : Nat}

/-! ## Shifts -/

theorem shiftLeft_pos {n : Nat} (hn : 0 < n) (a : Nat) : 0 < n <<< a := by
  rw [Nat.shiftLeft_eq]
  exact Nat.mul_pos hn (Nat.two_pow_pos _)

theorem shiftLeft_lt_shiftLeft {m n : Nat} (a : Nat) : m <<< a < n <<< a ↔ m < n := by
  rw [Nat.shiftLeft_eq, Nat.shiftLeft_eq, Nat.mul_lt_mul_right (Nat.two_pow_pos a)]

theorem shiftLeft_le_shiftLeft {m n : Nat} (a : Nat) : m <<< a ≤ n <<< a ↔ m ≤ n := by
  rw [Nat.shiftLeft_eq, Nat.shiftLeft_eq, Nat.mul_le_mul_right_iff (Nat.two_pow_pos a)]

theorem shiftLeft_mono (n : Nat) {a b : Nat} (hab : a ≤ b) : n <<< a ≤ n <<< b := by
  rw [Nat.shiftLeft_eq, Nat.shiftLeft_eq]
  exact Nat.mul_le_mul_left _ (Nat.pow_le_pow_right (by decide) hab)

/-- Shifts by one after the other can change places. -/
theorem shiftLeft_comm (n a b : Nat) : (n <<< a) <<< b = (n <<< b) <<< a := by
  rw [← Nat.shiftLeft_add, ← Nat.shiftLeft_add, Nat.add_comm]

/-! ## Quotients scaled by powers of two -/

/-- A scaled quotient is the quotient times the power of two. -/
theorem scaledQuotient_cross (num den a b : Nat) :
    (scaledQuotient num den (b - a)).1 * (den <<< a) =
      (scaledQuotient num den (b - a)).2 * (num <<< b) := by
  -- the number that is shifted depends on the sign, the cross product does not
  simp only [scaledQuotient, Nat.shiftLeft_eq]
  split
  · next hle =>
    obtain ⟨d, rfl⟩ := Nat.exists_eq_add_of_le (show a ≤ b by omega)
    have hshift : (((a + d : Nat) : Int) - a).toNat = d := by omega
    dsimp only
    rw [hshift, Nat.pow_add]
    ac_rfl
  · next hlt =>
    obtain ⟨d, rfl⟩ := Nat.exists_eq_add_of_le (show b ≤ a by omega)
    have hshift : (-((b : Int) - (b + d : Nat))).toNat = d := by omega
    dsimp only
    rw [hshift, Nat.pow_add]
    ac_rfl

theorem scaledQuotient_den_pos (num : Nat) (hden : 0 < den) (shift : Int) :
    0 < (scaledQuotient num den shift).2 := by
  rw [scaledQuotient]
  split
  · exact hden
  · exact shiftLeft_pos hden _

theorem shiftLeft_mul_shiftLeft (d n a c : Nat) : d <<< c * n <<< a = d * n <<< (a + c) := by
  rw [Nat.shiftLeft_eq, Nat.shiftLeft_eq, Nat.shiftLeft_eq, Nat.pow_add]
  ac_rfl

theorem scaledQuotient_lt_iff (num : Nat) (hden : 0 < den) (a b c : Nat) :
    (scaledQuotient num den (b - a)).1 < (scaledQuotient num den (b - a)).2 <<< c ↔
      num <<< b < den <<< (a + c) := by
  have hcross := scaledQuotient_cross num den a b
  have hpos := scaledQuotient_den_pos num hden (b - a)
  rw [← Nat.mul_lt_mul_right (shiftLeft_pos hden a), hcross, shiftLeft_mul_shiftLeft,
    Nat.mul_lt_mul_left hpos]

theorem scaledQuotient_le_iff (num : Nat) (hden : 0 < den) (a b c : Nat) :
    (scaledQuotient num den (b - a)).1 ≤ (scaledQuotient num den (b - a)).2 <<< c ↔
      num <<< b ≤ den <<< (a + c) := by
  have hcross := scaledQuotient_cross num den a b
  have hpos := scaledQuotient_den_pos num hden (b - a)
  rw [← Nat.mul_le_mul_right_iff (shiftLeft_pos hden a), hcross, shiftLeft_mul_shiftLeft,
    Nat.mul_le_mul_left_iff hpos]

/-! ## Rounding -/

theorem roundedQuotient_le {n d c : Nat} (h : n < d <<< c) : roundedQuotient n d ≤ 1 <<< c := by
  have hlt : n / d < 1 <<< c := Nat.div_lt_of_lt_mul (by
    rwa [Nat.shiftLeft_eq, Nat.one_mul, ← Nat.shiftLeft_eq])
  simp only [roundedQuotient]
  split
  · omega
  · split <;> omega

/-- The greatest power of two in a number, and the next one. -/
theorem log2_spec {n : Nat} (hn : 0 < n) : 1 <<< n.log2 ≤ n ∧ n < 1 <<< (n.log2 + 1) := by
  rw [Nat.shiftLeft_eq, Nat.shiftLeft_eq, Nat.one_mul, Nat.one_mul]
  exact ⟨Nat.log2_self_le (Nat.ne_of_gt hn), Nat.lt_log2_self⟩

/-- **The power of two that rounding starts from** is at most the quotient, and twice of it is
more. -/
theorem floorLog2_spec (hnum : 0 < num) (hden : 0 < den) :
    ∃ a b : Nat, floorLog2 num den = a - b ∧ den <<< a ≤ num <<< b ∧
      num <<< b < den <<< (a + 1) := by
  obtain ⟨hnumLow, hnumHigh⟩ := log2_spec hnum
  obtain ⟨hdenLow, hdenHigh⟩ := log2_spec hden
  have hguess : -((num.log2 : Int) - den.log2) = den.log2 - num.log2 := by omega
  have hscaled := scaledQuotient_lt_iff num hden num.log2 den.log2 0
  rw [Nat.shiftLeft_zero, Nat.add_zero, ← Nat.not_le] at hscaled
  -- the difference of the logarithms is the exponent, or one more than that
  simp only [floorLog2, hguess]
  by_cases hle : (scaledQuotient num den (den.log2 - num.log2)).2 ≤
      (scaledQuotient num den (den.log2 - num.log2)).1
  · refine ⟨num.log2, den.log2, if_pos hle, ?_, ?_⟩
    · exact Nat.not_lt.1 fun hlt => hscaled.2 hlt hle
    · calc num <<< den.log2
          < (1 <<< (num.log2 + 1)) <<< den.log2 := (shiftLeft_lt_shiftLeft _).2 hnumHigh
        _ = (1 <<< den.log2) <<< (num.log2 + 1) := shiftLeft_comm ..
        _ ≤ den <<< (num.log2 + 1) := (shiftLeft_le_shiftLeft _).2 hdenLow
  · refine ⟨num.log2, den.log2 + 1, by rw [if_neg hle]; omega, ?_, ?_⟩
    · calc den <<< num.log2
          ≤ (1 <<< (den.log2 + 1)) <<< num.log2 :=
            (shiftLeft_le_shiftLeft _).2 (Nat.le_of_lt hdenHigh)
        _ = (1 <<< num.log2) <<< (den.log2 + 1) := shiftLeft_comm ..
        _ ≤ num <<< (den.log2 + 1) := (shiftLeft_le_shiftLeft _).2 hnumLow
    · rw [Nat.shiftLeft_add num, Nat.shiftLeft_add den, shiftLeft_lt_shiftLeft]
      exact hscaled.1 hle

/-- A bound on a quotient bounds the quotient at a lesser scale. -/
theorem shiftLeft_lt_of_le {a b e : Nat} (hle : a + e ≤ b) (h : num <<< b < den <<< (a + 1))
    (c : Nat) : num <<< (e + c) < den <<< (c + 1) := by
  rw [← shiftLeft_lt_shiftLeft a]
  calc (num <<< (e + c)) <<< a
      = (num <<< (a + e)) <<< c := by
        rw [← Nat.shiftLeft_add, ← Nat.shiftLeft_add, show e + c + a = a + e + c by omega]
    _ ≤ (num <<< b) <<< c := (shiftLeft_le_shiftLeft _).2 (shiftLeft_mono num hle)
    _ < (den <<< (a + 1)) <<< c := (shiftLeft_lt_shiftLeft _).2 h
    _ = (den <<< (c + 1)) <<< a := by
      rw [← Nat.shiftLeft_add, ← Nat.shiftLeft_add, show a + 1 + c = c + 1 + a by omega]

theorem leastExponent_double : BinaryFormat.double.leastExponent = -1074 := rfl

/-- **A quotient below a power of two** is rounded to that power at most. -/
theorem nearest_le {k : Nat} (hden : 0 < den) (hlt : num < den <<< k) :
    BinaryFormat.double.nearest num den ≤ (k + 1023) <<< 52 := by
  rw [BinaryFormat.nearest]
  split
  · exact Nat.zero_le _
  · next hnum =>
    obtain ⟨a, b, hfloor, hlow, hhigh⟩ := floorLog2_spec (Nat.pos_of_ne_zero hnum) hden
    have hfraction : (BinaryFormat.double.fractionBits : Int) = 52 := rfl
    simp only [hfloor, hfraction, leastExponent_double]
    -- the power of two that rounding starts from lies below the bound
    have hbelow : a < k + b := by
      refine Nat.not_le.1 fun hle => ?_
      have hsmall : num <<< b < den <<< (k + b) := by
        rw [Nat.shiftLeft_add]
        exact (shiftLeft_lt_shiftLeft b).2 hlt
      exact Nat.not_le.2 hsmall (Nat.le_trans (shiftLeft_mono den hle) hlow)
    refine Nat.le_trans (Nat.min_le_left _ _) ?_
    by_cases hnormal : (-1074 : Int) ≤ a - b - 52
    · -- the unit in the last place follows the exponent
      have hunit : max ((a : Int) - b - 52) (-1074) = a - b - 52 := by omega
      have hshift : -((a : Int) - b - 52) = (b + 52 : Nat) - a := by omega
      have hrounded : (scaledQuotient num den ((b + 52 : Nat) - a)).1 <
          (scaledQuotient num den ((b + 52 : Nat) - a)).2 <<< 53 := by
        rw [scaledQuotient_lt_iff num hden, show a + 53 = a + 1 + 52 by omega, Nat.shiftLeft_add,
          Nat.shiftLeft_add den]
        exact (shiftLeft_lt_shiftLeft 52).2 hhigh
      have hquotient := roundedQuotient_le hrounded
      rw [hunit, hshift]
      simp only [Nat.shiftLeft_eq, BinaryFormat.double] at *
      omega
    · -- the unit in the last place is the least one, and fewer bits are left
      have hunit : max ((a : Int) - b - 52) (-1074) = -1074 := by omega
      have hshift : -(-1074 : Int) = (1074 : Nat) - (0 : Nat) := by omega
      have hrounded : (scaledQuotient num den ((1074 : Nat) - (0 : Nat))).1 <
          (scaledQuotient num den ((1074 : Nat) - (0 : Nat))).2 <<< 53 := by
        rw [scaledQuotient_lt_iff num hden]
        exact shiftLeft_lt_of_le (show a + 1022 ≤ b by omega) hhigh 52
      have hquotient := roundedQuotient_le hrounded
      rw [hunit, hshift]
      simp only [Nat.shiftLeft_eq, BinaryFormat.double] at hquotient ⊢
      omega

namespace Double

/-! ## Bounded doubles -/

/-- A positive double that is at most the given power of two. -/
def AtMost (k : Nat) (x : Double) : Prop :=
  x.bits.toNat ≤ (k + 1023) <<< 52

variable {k : Nat} {x y : Double}

theorem toNat_bits_ofMagnitude {magnitude : Nat} (h : magnitude < 1 <<< 63) :
    (ofMagnitude false magnitude).bits.toNat = magnitude := by
  have hsize : magnitude < UInt64.size := Nat.lt_trans h (by decide)
  simp only [ofMagnitude, Bool.false_eq_true, if_false, UInt64.toNat_ofNat']
  exact Nat.mod_eq_of_lt hsize

theorem atMost_ofMagnitude {num den : Nat} (hk : k ≤ 1022) (hden : 0 < den)
    (hlt : num < den <<< k) :
    AtMost k (ofMagnitude false (BinaryFormat.double.nearest num den)) := by
  have hle := nearest_le hden hlt
  rw [AtMost, toNat_bits_ofMagnitude]
  · exact hle
  · simp only [Nat.shiftLeft_eq] at *
    omega

/-- **Bounded doubles are finite.** -/
theorem AtMost.isFinite (hk : k ≤ 1022) (hx : AtMost k x) : x.isFinite = true := by
  simp only [AtMost, Nat.shiftLeft_eq] at hx
  simp only [Double.isFinite, BinaryFormat.exponentField, BinaryFormat.topField,
    BinaryFormat.double, Nat.shiftRight_eq_div_pow, Nat.shiftLeft_eq, decide_eq_true_eq]
  omega

theorem ratio_den_pos (x : Double) : 0 < x.ratio.2 :=
  scaledQuotient_den_pos _ Nat.one_pos _

theorem shiftLeft_le_of_le {n s i j : Nat} (hn : n ≤ 1 <<< s) (hle : s + i ≤ j) :
    n <<< i ≤ 1 <<< j :=
  calc n <<< i ≤ (1 <<< s) <<< i := (shiftLeft_le_shiftLeft i).2 hn
    _ = 1 <<< (s + i) := (Nat.shiftLeft_add ..).symm
    _ ≤ 1 <<< j := shiftLeft_mono 1 hle

/-- The magnitude of a bounded double keeps the bound. -/
theorem AtMost.ratio_le (hk : k ≤ 1022) (hx : AtMost k x) : x.ratio.1 ≤ x.ratio.2 <<< k := by
  have hexponent : x.exponent =
      ((BinaryFormat.double.exponentField x.bits.toNat - 1 : Nat) : Int) - (1074 : Nat) := by
    rw [exponent, BinaryFormat.exponent, leastExponent_double]
    omega
  rw [ratio, hexponent, scaledQuotient_le_iff _ Nat.one_pos]
  -- a greatest exponent field leaves no room for a fraction
  have hparts :
      x.significand ≤ 1 <<< 52 ∧ BinaryFormat.double.exponentField x.bits.toNat ≤ k + 1023 ∨
        x.significand ≤ 1 <<< 53 ∧ BinaryFormat.double.exponentField x.bits.toNat ≤ k + 1022 := by
    simp only [AtMost, Nat.shiftLeft_eq] at hx
    simp only [significand, BinaryFormat.significand, BinaryFormat.exponentField,
      BinaryFormat.fractionField, BinaryFormat.double, Nat.shiftRight_eq_div_pow, Nat.shiftLeft_eq]
    split <;> omega
  rcases hparts with ⟨hsignificand, hfield⟩ | ⟨hsignificand, hfield⟩
  · exact shiftLeft_le_of_le hsignificand (by omega)
  · exact shiftLeft_le_of_le hsignificand (by omega)

/-- **Division by a number above one** keeps a bound. -/
theorem AtMost.divMagnitude (hk : k ≤ 1022) (hx : AtMost k x) (hy : y.ratio.2 < y.ratio.1) :
    AtMost k (x.divMagnitude y) := by
  -- the exact quotient lies below the bound, so the rounded one does
  have hden := Nat.mul_pos (ratio_den_pos x) (Nat.zero_lt_of_lt hy)
  refine atMost_ofMagnitude hk hden ?_
  have hratio := hx.ratio_le hk
  have hpos := shiftLeft_pos (ratio_den_pos x) k
  show x.ratio.1 * y.ratio.2 < (x.ratio.2 * y.ratio.1) <<< k
  calc x.ratio.1 * y.ratio.2
      ≤ x.ratio.2 <<< k * y.ratio.2 := Nat.mul_le_mul_right _ hratio
    _ < x.ratio.2 <<< k * y.ratio.1 := Nat.mul_lt_mul_of_pos_left hy hpos
    _ = (x.ratio.2 * y.ratio.1) <<< k := by
      rw [Nat.shiftLeft_eq, Nat.shiftLeft_eq]
      exact Nat.mul_right_comm ..

theorem atMost_ofNat {n : Nat} (hk : k ≤ 1022) (hn : n < 1 <<< k) : AtMost k (ofNat n) :=
  atMost_ofMagnitude hk Nat.one_pos hn

theorem isFinite_neg (x : Double) : x.neg.isFinite = x.isFinite := by
  have hlt := x.bits.toNat_lt
  have hsign : x.bits.toNat % (1 <<< 63) < 1 <<< 63 := Nat.mod_lt _ (by decide)
  simp only [neg, isFinite, ofMagnitude, BinaryFormat.exponentField, BinaryFormat.signBit,
    BinaryFormat.double, BinaryFormat.topField, Nat.shiftRight_eq_div_pow, Nat.shiftLeft_eq,
    UInt64.toNat_ofNat', decide_eq_decide] at *
  split <;> omega

end Double

end Parcel
