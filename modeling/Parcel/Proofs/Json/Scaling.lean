import Parcel.Json.Numeral
import Parcel.Proofs.Double.Arithmetic

/-!
# Scaled significands

A number is read as its significand, rounded, times or over a rounded power of ten, rounded again.
The result is the double nearest to the exact product only if none of the three steps before the
last rounding loses anything. In general it is one of the next few doubles: with one step at most
the second next, and with two, for numbers so small that the power of ten must be split, at most the
third next.

The first of the two powers is not less than the power of ten that it stands for, so it adds nothing
to what a result is too large. A quotient with fewer digits than the significand is off by less than
the least gap.

## Main definitions

* `Numeral.ReadNear`: what a significand times a power of ten is read as

## Main results

* `Numeral.value_powerOfTen`: powers of ten that are not rounded
* `Numeral.near_divMagnitude`, `Numeral.near_mulMagnitude`: one step
* `Numeral.near_scaledDown`: two steps
* `Numeral.exists_scaled?_eq`: the double that a significand times a power of ten is read as
-/

namespace Parcel.Numeral

open Double

variable {x : Double} {b m n significand : ℕ} {exponent : ℤ} {v z : ℚ}

/-- A significand of 64 bits is finite as a double. -/
theorem le_greatest_of_lt (h : significand < 2 ^ 64) : (significand : ℚ) ≤ greatest := by
  have hlt : (significand : ℚ) ≤ 10 ^ 20 := by
    exact_mod_cast h.le.trans (by norm_num)
  exact hlt.trans (pow_ten_le_greatest (by norm_num))

theorem isFinite_of_lt (hx : x.bits.toNat < infinityBits) : x.isFinite = true := by
  have hbits : x.bits.toNat < 2047 * 2 ^ 52 := hx
  simp only [Double.isFinite, BinaryFormat.exponentField, BinaryFormat.topField,
    BinaryFormat.double, Nat.shiftRight_eq_div_pow, Nat.shiftLeft_eq, decide_eq_true_eq]
  omega

/-- Two roundings in either direction lead to the second next magnitude at most. -/
theorem near_of_leUpTo_two (h : NearestTo n z) (hb : NearestTo b v) (hfinite : b < infinityBits)
    (hv : 0 < v) (hlow : LeUpTo 2 v z) (hhigh : LeUpTo 2 z v) : Near 2 n b :=
  ⟨h.le_add hb hfinite hv (.inr rfl) hhigh, h.sub_le hb hv.le (.inr (.inl rfl)) hlow⟩

/-! ## Powers of ten -/

theorem bits_powerOfTen_lt (hn : n ≤ 308) : (powerOfTen n).bits.toNat < infinityBits :=
  bits_ofNat_lt ((cast_pow_ten n).trans_le (pow_ten_le_greatest hn))

/-- **The error of a power of ten.** -/
theorem relative_powerOfTen (hn : n ≤ 308) :
    LeUpTo 1 (10 ^ n) (powerOfTen n).value ∧ LeUpTo 1 (powerOfTen n).value (10 ^ n) := by
  have h := relative_ofNat (Nat.pow_pos (n := n) (show 0 < 10 by norm_num))
    ((cast_pow_ten n).trans_le (pow_ten_le_greatest hn))
  rwa [Nat.cast_pow, Nat.cast_ofNat] at h

theorem value_powerOfTen_pos (hn : n ≤ 308) : 0 < (powerOfTen n).value :=
  value_ofNat_pos (Nat.pow_pos (show 0 < 10 by norm_num))
    ((cast_pow_ten n).trans_le (pow_ten_le_greatest hn))

/-- **The powers of ten that are not rounded.** -/
theorem value_powerOfTen (hn : n ≤ 22) : (powerOfTen n).value = 10 ^ n := by
  have hfive : 5 ^ n ≤ 2 ^ 53 := (Nat.pow_le_pow_right (by norm_num) hn).trans (by norm_num)
  have hten : 5 ^ n * 2 ^ n = 10 ^ n := (Nat.mul_pow 5 2 n).symm
  have hfinite : ((5 ^ n * 2 ^ n : ℕ) : ℚ) ≤ greatest := by
    rw [hten, Nat.cast_pow, Nat.cast_ofNat]
    exact pow_ten_le_greatest (hn.trans (by norm_num))
  have h := value_ofNat hfive hfinite
  rw [hten, Nat.cast_pow, Nat.cast_ofNat] at h
  exact h

/-! ## One step -/

section OneStep

variable (hpos : 0 < significand) (hbound : significand < 2 ^ 64) (hn : n ≤ 308)
  (hfinite : b < infinityBits)
include hpos hbound hn hfinite

/-- **A significand over a power of ten.** -/
theorem near_divMagnitude (hb : NearestTo b (significand / 10 ^ n)) :
    Near 2 ((ofNat significand).divMagnitude (powerOfTen n)).bits.toNat b := by
  have hpos' : (0 : ℚ) < significand := by exact_mod_cast hpos
  have hgreatest := le_greatest_of_lt hbound
  have hspec := nearestTo_divMagnitude (bits_ofNat_lt hgreatest) (bits_powerOfTen_lt hn)
    (value_powerOfTen_pos hn)
  obtain ⟨hlow, hhigh⟩ := relative_ofNat hpos hgreatest
  obtain ⟨hlow', hhigh'⟩ := relative_powerOfTen hn
  have hten : (0 : ℚ) < 10 ^ n := by positivity
  have hlow₂ := hlow.div hpos'.le hten (value_powerOfTen_pos hn) hhigh'
  have hhigh₂ := hhigh.div (value_nonneg _) (value_powerOfTen_pos hn) hten hlow'
  exact near_of_leUpTo_two hspec hb hfinite (div_pos hpos' hten) hlow₂ hhigh₂

/-- **A significand times a power of ten.** -/
theorem near_mulMagnitude (hb : NearestTo b (significand * 10 ^ n)) :
    Near 2 ((ofNat significand).mulMagnitude (powerOfTen n)).bits.toNat b := by
  have hpos' : (0 : ℚ) < significand := by exact_mod_cast hpos
  have hgreatest := le_greatest_of_lt hbound
  have hspec := nearestTo_mulMagnitude (bits_ofNat_lt hgreatest) (bits_powerOfTen_lt hn)
  obtain ⟨hlow, hhigh⟩ := relative_ofNat hpos hgreatest
  obtain ⟨hlow', hhigh'⟩ := relative_powerOfTen hn
  have hten : (0 : ℚ) < 10 ^ n := by positivity
  have hlow₂ := hlow.mul hpos'.le hten.le hlow'
  have hhigh₂ := hhigh.mul (value_nonneg _) (value_nonneg _) hhigh'
  exact near_of_leUpTo_two hspec hb hfinite (mul_pos hpos' hten) hlow₂ hhigh₂

end OneStep

/-! ## Two steps -/

/-- The first of two powers is not less than what it stands for. -/
theorem pow_le_value_powerOfTen : (10 : ℚ) ^ greatestPower ≤ (powerOfTen greatestPower).value := by
  have hratio : Nat.pow 10 greatestPower * (powerOfTen greatestPower).ratio.2 ≤
      (powerOfTen greatestPower).ratio.1 := by
    decide +kernel
  have hratio' : ((Nat.pow 10 greatestPower : ℕ) : ℚ) * (powerOfTen greatestPower).ratio.2 ≤
      (powerOfTen greatestPower).ratio.1 := by
    exact_mod_cast hratio
  have hden : (0 : ℚ) < (powerOfTen greatestPower).ratio.2 := by
    exact_mod_cast ratio_den_pos (powerOfTen greatestPower)
  rw [← cast_pow_ten, ← ratio_div (bits_powerOfTen_lt (n := greatestPower) le_rfl),
    le_div_iff₀ hden]
  exact hratio'

/-- The first quotient of two. -/
theorem leUpTo_first {q : ℚ} (hpos : 0 < significand) (hbound : significand < 2 ^ 64)
    (hq : q = (ofNat significand).value / (powerOfTen greatestPower).value) :
    LeUpTo 2 (significand / 10 ^ greatestPower) q ∧
      LeUpTo 1 q (significand / 10 ^ greatestPower) := by
  have hpos' : (0 : ℚ) < significand := by exact_mod_cast hpos
  have hten : (0 : ℚ) < 10 ^ greatestPower := by positivity
  have hpower := value_powerOfTen_pos (n := greatestPower) le_rfl
  obtain ⟨hlow, hhigh⟩ := relative_ofNat hpos (le_greatest_of_lt hbound)
  have hlow₂ := hlow.div hpos'.le hten hpower (relative_powerOfTen le_rfl).2
  have hhigh₁ := hhigh.div (value_nonneg _) hpower hten (LeUpTo.of_le pow_le_value_powerOfTen)
  exact hq ▸ ⟨hlow₂, hhigh₁⟩

/-- **The error of a small quotient**: what is divided was rounded where it had fewer digits, so it
is off by half of the least gap, and the division by ten or more makes that small. -/
theorem abs_sub_lt {ten power first rounded : ℚ} (hten : 10 ≤ ten)
    (hsmall : v ≤ 2 ^ 49 * unitOf 0) (hpower : 0 < power) (hrounded : 0 ≤ rounded)
    (hfirst : LeUpTo 2 (v * ten) first ∧ LeUpTo 1 first (v * ten))
    (herror : first * 2 ^ 53 ≤ rounded * (2 ^ 53 + 1) + unitOf 0 * 2 ^ 52 ∧
      rounded * 2 ^ 53 ≤ first * (2 ^ 53 + 1) + unitOf 0 * 2 ^ 52)
    (hrelative : LeUpTo 1 ten power ∧ LeUpTo 1 power ten) :
    |rounded / power - v| < unitOf 0 := by
  obtain ⟨z, hz⟩ : ∃ z, z = rounded / power := ⟨_, rfl⟩
  have hproduct : rounded = z * power := by rw [hz, div_mul_cancel₀ _ hpower.ne']
  have hz₀ : 0 ≤ z := hz ▸ div_nonneg hrounded hpower.le
  simp only [LeUpTo, pow_one] at hfirst hrelative
  -- all of it in terms of the products with the exact power
  have hlow := mul_le_mul_of_nonneg_left hrelative.1 hz₀
  have hhigh := mul_le_mul_of_nonneg_left hrelative.2 hz₀
  have hgap := mul_le_mul_of_nonneg_left hten (unitOf_pos 0).le
  have hsmall' := mul_le_mul_of_nonneg_right hsmall (show 0 ≤ ten by linarith)
  have hpos : 0 < unitOf 0 * ten := mul_pos (unitOf_pos 0) (by linarith)
  rw [hproduct] at herror
  have hbelow : z * ten < (v + unitOf 0) * ten := by linarith
  have habove : (v - unitOf 0) * ten < z * ten := by linarith
  rw [← hz, abs_lt]
  constructor
  · linarith [lt_of_mul_lt_mul_right habove (by linarith)]
  · linarith [lt_of_mul_lt_mul_right hbelow (by linarith)]

/-- The greatest power of one step, by a power of two. -/
theorem two_pow_le_pow_ten : (2 : ℚ) ^ 1023 ≤ 10 ^ greatestPower :=
  calc (2 : ℚ) ^ 1023 = (2 ^ 93) ^ 11 := by rw [← pow_mul]
    _ ≤ (10 ^ 28) ^ 11 := by gcongr; norm_num
    _ = 10 ^ greatestPower := by rw [← pow_mul]; rfl

/-- A significand over the first of two powers, in terms of the least gap. -/
theorem first_lt (hbound : significand < 2 ^ 64) :
    (significand : ℚ) / 10 ^ greatestPower < 2 ^ 115 * unitOf 0 := by
  have hbound' : (significand : ℚ) < 2 ^ 64 := by exact_mod_cast hbound
  have hten := two_pow_le_pow_ten
  have hunit : unitOf 0 * 2 ^ 1023 = 2⁻¹ ^ 51 := by
    rw [unitOf, ← zpow_natCast, ← zpow_add₀ (by norm_num), inv_pow, ← zpow_natCast, ← zpow_neg]
    rfl
  rw [div_lt_iff₀ (by positivity)]
  calc (significand : ℚ) < 2 ^ 64 := hbound'
    _ = 2 ^ 115 * (unitOf 0 * 2 ^ 1023) := by rw [hunit]; norm_num
    _ ≤ 2 ^ 115 * (unitOf 0 * 10 ^ greatestPower) := by
      have := unitOf_pos 0
      gcongr
    _ = 2 ^ 115 * unitOf 0 * 10 ^ greatestPower := by ring

theorem isZero_eq_false (hx : 0 < x.value) (hfinite : x.bits.toNat < infinityBits) :
    x.isZero = false := by
  have hpos : x.bits.toNat ≠ 0 := by
    intro hzero
    rw [value, hzero, magnitudeOf_zero] at hx
    exact hx.false
  have hlt := hfinite.trans infinityBits_lt
  have hmod : x.bits.toNat % BinaryFormat.double.signBit = x.bits.toNat := Nat.mod_eq_of_lt hlt
  simp [Double.isZero, hmod, hpos]

theorem scaledDown_of_le (hn : n ≤ greatestPower) :
    scaledDown x n = x.divMagnitude (powerOfTen n) := by
  rw [scaledDown, if_pos hn]

theorem scaledDown_add (hx : x.isZero = false) (hpos : 0 < n) (hn : n ≤ greatestPower) :
    scaledDown x (greatestPower + n) =
      (x.divMagnitude (powerOfTen greatestPower)).divMagnitude (powerOfTen n) := by
  rw [scaledDown, if_neg (by omega), hx, if_neg (by decide), Nat.add_sub_cancel_left,
    scaledDown_of_le hn]

/-- The second of two powers is small, unless the quotient is rounded to zero. -/
theorem lt_of_nearestTo (hbound : significand < 2 ^ 64) (hb₀ : 0 < b)
    (hb : NearestTo b (significand / 10 ^ greatestPower / 10 ^ n)) : n < 35 := by
  have hlow : unitOf 0 / 2 ≤ significand / 10 ^ greatestPower / 10 ^ n := by
    obtain ⟨c, rfl⟩ : ∃ c, b = c + 1 := ⟨b - 1, by omega⟩
    have hle := (midpoint_le_midpoint (Nat.zero_le c)).trans (hb.low c rfl)
    rwa [midpoint_eq, magnitudeOf_zero, zero_add] at hle
  rw [le_div_iff₀ (by positivity)] at hlow
  have hlt := hlow.trans_lt (first_lt hbound)
  by_contra hle
  have hmono : (10 : ℚ) ^ 35 ≤ 10 ^ n := pow_le_pow_right₀ (by norm_num) (by omega)
  have hproduct := mul_le_mul_of_nonneg_left hmono (unitOf_pos 0).le
  have := unitOf_pos 0
  linarith

/-- What gives a quotient that is not small is normal. -/
theorem normal_le_of_large {ten first : ℚ} (hten : 10 ≤ ten) (hlarge : 2 ^ 49 * unitOf 0 < v)
    (hfirst : LeUpTo 2 (v * ten) first) : (2 : ℚ) ^ (-1022 : ℤ) ≤ first := by
  have hunit : (2 : ℚ) ^ (-1022 : ℤ) = 2 ^ 52 * unitOf 0 := by
    rw [unitOf, ← zpow_natCast, ← zpow_add₀ (by norm_num)]
    rfl
  have hleast := unitOf_pos 0
  have hproduct : 2 ^ 49 * unitOf 0 * 10 ≤ v * ten :=
    mul_le_mul hlarge.le hten (by norm_num) (by linarith)
  rw [LeUpTo] at hfirst
  rw [hunit]
  linarith

/-- A quotient that is not small has a power of ten that is not rounded. -/
theorem le_of_large (hlarge : 2 ^ 49 * unitOf 0 < v) (hlt : v * 10 ^ n < 2 ^ 115 * unitOf 0) :
    n ≤ 22 := by
  by_contra hle
  have hleast := unitOf_pos 0
  have hmono : (10 : ℚ) ^ 20 ≤ 10 ^ n := pow_le_pow_right₀ (by norm_num) (by omega)
  have hproduct : 2 ^ 49 * unitOf 0 * 10 ^ 20 ≤ v * 10 ^ n :=
    mul_le_mul hlarge.le hmono (by norm_num) (by linarith)
  linarith

/-- **The second quotient of two.** Either it is so small that it is off by less than the least gap,
or its power of ten is not rounded. -/
theorem near_second {first : Double} {q : ℚ} (hbound : significand < 2 ^ 64) (hn : 0 < n)
    (hn' : n ≤ greatestPower) (hfinite : b < infinityBits) (hpos : 0 < significand)
    (hb : NearestTo b (significand / 10 ^ greatestPower / 10 ^ n))
    (hfirst : first.bits.toNat < infinityBits) (hspec : NearestTo first.bits.toNat q)
    (hq : LeUpTo 2 (significand / 10 ^ greatestPower) q ∧
      LeUpTo 1 q (significand / 10 ^ greatestPower)) :
    (first.divMagnitude (powerOfTen n)).bits.toNat ≤ b + 2 ∧
      b ≤ (first.divMagnitude (powerOfTen n)).bits.toNat + 3 := by
  have hpower := value_powerOfTen_pos hn'
  have hten : (10 : ℚ) ≤ 10 ^ n := le_self_pow₀ (by norm_num) (by omega)
  have hten₀ : (0 : ℚ) < 10 ^ n := by positivity
  have hpos' : (0 : ℚ) < significand := by exact_mod_cast hpos
  have hlt := first_lt hbound
  have hquotient := nearestTo_divMagnitude hfirst (bits_powerOfTen_lt hn') hpower
  obtain ⟨v, hv⟩ : ∃ v : ℚ, v = significand / 10 ^ greatestPower / 10 ^ n := ⟨_, rfl⟩
  have hproduct : (significand : ℚ) / 10 ^ greatestPower = v * 10 ^ n := by
    rw [hv, div_mul_cancel₀ _ hten₀.ne']
  have hv₀ : 0 < v := hv ▸ by positivity
  rw [← hv] at hb
  rw [hproduct] at hq hlt
  have hq₀ : 0 ≤ q := by
    have := hq.1
    rw [LeUpTo] at this
    nlinarith
  -- small quotients have an absolute error, all others a relative one
  rcases le_or_gt v (2 ^ 49 * unitOf 0) with hsmall | hlarge
  · have hnear := hquotient.near_of_abs_lt hb hfinite
      (abs_sub_lt hten hsmall hpower (value_nonneg first) hq (hspec.absolute hfirst hq₀)
        (relative_powerOfTen hn'))
    exact ⟨hnear.1.trans (by omega), hnear.2.trans (by omega)⟩
  · -- the first quotient is normal, and the second power is exact
    have hnormal := normal_le_of_large hten hlarge hq.1
    have hexact := value_powerOfTen (le_of_large hlarge hlt)
    obtain ⟨hlow, hhigh⟩ := hspec.relative hfirst hnormal
    have hlow₃ := (hq.1.trans hlow).div (by positivity) hten₀ hten₀ (LeUpTo.of_le le_rfl)
    have hhigh₂ := (hhigh.trans hq.2).div (value_nonneg first) hten₀ hten₀ (LeUpTo.of_le le_rfl)
    rw [mul_div_cancel_right₀ _ hten₀.ne'] at hlow₃ hhigh₂
    rw [hexact] at hquotient
    exact ⟨hquotient.le_add hb hfinite hv₀ (.inr rfl) hhigh₂,
      hquotient.sub_le hb hv₀.le (.inr (.inr rfl)) hlow₃⟩

/-- **A significand over a power of ten that is split.** -/
theorem near_scaledDown (hpos : 0 < significand) (hbound : significand < 2 ^ 64)
    (hn : greatestPower < n) (hb₀ : 0 < b) (hfinite : b < infinityBits)
    (hb : NearestTo b (significand / 10 ^ n)) :
    (scaledDown (ofNat significand) n).bits.toNat ≤ b + 2 ∧
      b ≤ (scaledDown (ofNat significand) n).bits.toNat + 3 := by
  obtain ⟨n, rfl⟩ := Nat.exists_eq_add_of_lt hn
  rw [Nat.add_assoc, pow_add, ← div_div] at hb
  have hn' : n + 1 ≤ greatestPower := by
    have := lt_of_nearestTo hbound hb₀ hb
    have : greatestPower = 308 := rfl
    omega
  have hgreatest := le_greatest_of_lt hbound
  have hx := bits_ofNat_lt hgreatest
  rw [Nat.add_assoc, scaledDown_add (isZero_eq_false (value_ofNat_pos hpos hgreatest) hx)
    (Nat.succ_pos n) hn']
  have hfirst := leUpTo_first hpos hbound rfl
  have hspec := nearestTo_divMagnitude hx (bits_powerOfTen_lt (n := greatestPower) le_rfl)
    (value_powerOfTen_pos le_rfl)
  refine near_second hbound (Nat.succ_pos n) hn' hfinite hpos hb (hspec.lt_infinityBits ?_) hspec
    hfirst
  -- the first quotient is far from infinity
  have hle : (significand : ℚ) / 10 ^ greatestPower ≤ 2 ^ 64 := by
    have hbound' : (significand : ℚ) ≤ 2 ^ 64 := by exact_mod_cast hbound.le
    exact (div_le_self (Nat.cast_nonneg _) (one_le_pow₀ (by norm_num))).trans hbound'
  have hhigh := hfirst.2
  rw [LeUpTo] at hhigh
  refine le_trans ?_ (pow_ten_le_greatest (n := 20) (by norm_num))
  linarith

/-! ## The double that is read -/

/-- **What a significand times a power of ten is read as**, where `b` are the bits that it is
rounded to. -/
structure ReadNear (b significand : ℕ) (exponent : ℤ) (x : Double) : Prop where
  /-- It is finite and has no sign. -/
  finite : x.bits.toNat < infinityBits
  /-- It is the third next double at most. -/
  near : Near 3 x.bits.toNat b
  /-- With one step it is the second next at most. -/
  near_of_le : -308 ≤ exponent → Near 2 x.bits.toNat b
  /-- Where nothing is lost before the last rounding it is the right one. -/
  eq_of_exact : (ofNat significand).value = significand → exponent.natAbs ≤ 22 → x.bits.toNat = b

/-- One step at most, with a result that is rounded once. -/
theorem ReadNear.of_near {n : ℕ} (hb : NearestTo b (significand * 10 ^ exponent))
    (hfinite : b + 2 < infinityBits) (hn : exponent.natAbs = n) (hnear : Near 2 x.bits.toNat b)
    (hexact : (ofNat significand).value = significand → (powerOfTen n).value = 10 ^ n →
      NearestTo x.bits.toNat (significand * 10 ^ exponent)) :
    ReadNear b significand exponent x where
  finite := hnear.1.trans_lt hfinite
  near := ⟨hnear.1.trans (by omega), hnear.2.trans (by omega)⟩
  near_of_le _ := hnear
  eq_of_exact hsignificand hsmall :=
    (hexact hsignificand (value_powerOfTen (hn ▸ hsmall))).unique hb (by omega)

/-- A finite magnitude is less than the least power of ten that does not fit one step. -/
theorem le_greatestPower (hpos : 0 < significand) (hfinite : b + 2 < infinityBits)
    (hb : NearestTo b (significand * 10 ^ exponent)) : exponent ≤ greatestPower := by
  have hlt : (significand * 10 ^ exponent : ℚ) < 10 ^ greatestPower * 10 :=
    calc (significand * 10 ^ exponent : ℚ) ≤ midpoint b := hb.high (by omega)
      _ < magnitudeOf (b + 1) := midpoint_lt_magnitudeOf b
      _ ≤ greatest := lt_infinityBits_iff.1 (by omega)
      _ = (2 ^ 53 - 1) / 2 ^ 52 * 2 ^ 1023 := by
        rw [greatest, show (1023 : ℕ) = 52 + 971 from rfl, pow_add, ← mul_assoc,
          div_mul_cancel₀ _ (by norm_num)]
      _ ≤ (2 ^ 53 - 1) / 2 ^ 52 * 10 ^ greatestPower := by
        have := two_pow_le_pow_ten
        gcongr
      _ < 10 ^ greatestPower * 10 := by
        have : (0 : ℚ) < 10 ^ greatestPower := by positivity
        linarith
  -- a greater power is too large for every significand but zero
  by_contra hle
  have hone : (1 : ℚ) ≤ significand := by exact_mod_cast hpos
  have hmono : (10 : ℚ) ^ greatestPower * 10 ≤ 10 ^ exponent := by
    rw [← zpow_natCast, ← zpow_add_one₀ (by norm_num)]
    exact zpow_le_zpow_right₀ (by norm_num) (by omega)
  have hpower : (0 : ℚ) < 10 ^ exponent := by positivity
  nlinarith

/-- **A significand times a power of ten is read** as one of the doubles next to the one that it is
rounded to, for every significand of 64 bits. -/
theorem exists_scaled?_eq (hpos : 0 < significand) (hbound : significand < 2 ^ 64) (hb₀ : 0 < b)
    (hfinite : b + 2 < infinityBits) (hb : NearestTo b (significand * 10 ^ exponent)) :
    ∃ x, scaled? significand exponent = some x ∧ ReadNear b significand exponent x := by
  have hx := bits_ofNat_lt (le_greatest_of_lt hbound)
  have hle := le_greatestPower hpos hfinite hb
  obtain ⟨n, hn⟩ : ∃ n, exponent.natAbs = n := ⟨_, rfl⟩
  have hgreatest : greatestPower = 308 := rfl
  rw [scaled?, hn]
  by_cases hneg : exponent < 0
  · obtain rfl : exponent = -(n : ℤ) := by omega
    have hdown := hb
    rw [zpow_neg, zpow_natCast, ← div_eq_mul_inv] at hdown
    rw [if_pos hneg]
    refine ⟨_, rfl, ?_⟩
    -- powers beyond the table are split, and the division is made in two steps
    rcases Nat.lt_or_ge greatestPower n with hsplit | hone
    · obtain ⟨hhigh, hlow⟩ := near_scaledDown hpos hbound hsplit hb₀ (by omega) hdown
      exact ⟨by omega, ⟨by omega, hlow⟩, fun h => absurd h (by omega),
        fun _ h => absurd h (by omega)⟩
    · rw [scaledDown_of_le hone]
      refine .of_near hb hfinite hn (near_divMagnitude hpos hbound hone (by omega) hdown)
        fun hsignificand hpower => ?_
      have hspec := nearestTo_divMagnitude hx (bits_powerOfTen_lt hone) (value_powerOfTen_pos hone)
      rwa [hsignificand, hpower, div_eq_mul_inv, ← zpow_natCast, ← zpow_neg] at hspec
  · obtain rfl : exponent = (n : ℤ) := by omega
    have hup := hb
    rw [zpow_natCast] at hup
    have hone : n ≤ greatestPower := by omega
    have hnear := near_mulMagnitude hpos hbound hone (by omega) hup
    have hisFinite := isFinite_of_lt (hnear.1.trans_lt hfinite)
    rw [if_neg hneg, if_pos hle]
    refine ⟨_, if_pos hisFinite, .of_near hb hfinite hn hnear fun hsignificand hpower => ?_⟩
    have hspec := nearestTo_mulMagnitude hx (bits_powerOfTen_lt hone)
    rwa [hsignificand, hpower, ← zpow_natCast] at hspec

end Parcel.Numeral
