import Parcel.Proofs.Double.Rounding

/-!
# Rounding errors

One rounding changes a number by less than one part in two to the 53, unless the number is so small
that it has fewer digits. A number that is off by a few such parts is rounded to one of the next few
magnitudes: the gap between two magnitudes is never less than one part in two to the 53, and where
it becomes half as wide the number is half as large.

## Main definitions

* `Double.LeUpTo`: at most a number, up to a few roundings
* `Double.Near`: magnitudes with only a few others between them, by their bits

## Main results

* `Double.NearestTo.relative`: the error of one rounding
* `Double.NearestTo.absolute`: the error of one rounding, small numbers included
* `Double.NearestTo.le_add`, `Double.NearestTo.sub_le`: how far a number that is off is rounded
* `Double.NearestTo.near_of_abs_lt`: a number that is off by less than the least gap
* `Double.NearestTo.magnitudeOf_eq`: numbers that are magnitudes are kept
-/

namespace Parcel.Double

variable {b c i j k n : ℕ} {p q u v w z : ℚ}

/-! ## A few roundings -/

/-- **At most `z` up to `j` roundings**, each of which counts for one part in two to the 53. -/
def LeUpTo (j : ℕ) (v z : ℚ) : Prop :=
  v * (2 ^ 53) ^ j ≤ z * (2 ^ 53 + 1) ^ j

namespace LeUpTo

theorem of_le (h : v ≤ z) : LeUpTo 0 v z := by simpa [LeUpTo] using h

theorem trans (h : LeUpTo i u v) (h' : LeUpTo j v w) : LeUpTo (i + j) u w := by
  rw [LeUpTo, pow_add, pow_add]
  calc u * ((2 ^ 53) ^ i * (2 ^ 53) ^ j) = u * (2 ^ 53) ^ i * (2 ^ 53) ^ j := by ring
    _ ≤ v * (2 ^ 53 + 1) ^ i * (2 ^ 53) ^ j :=
      mul_le_mul_of_nonneg_right h (by positivity)
    _ = v * (2 ^ 53) ^ j * (2 ^ 53 + 1) ^ i := by ring
    _ ≤ w * (2 ^ 53 + 1) ^ j * (2 ^ 53 + 1) ^ i :=
      mul_le_mul_of_nonneg_right h' (by positivity)
    _ = w * ((2 ^ 53 + 1) ^ i * (2 ^ 53 + 1) ^ j) := by ring

/-- The errors of the factors add up. -/
theorem mul (hu : 0 ≤ u) (hw : 0 ≤ w) (h : LeUpTo i u v) (h' : LeUpTo j w z) :
    LeUpTo (i + j) (u * w) (v * z) := by
  rw [LeUpTo, pow_add, pow_add]
  have hv : 0 ≤ v * (2 ^ 53 + 1) ^ i := le_trans (by positivity) h
  calc u * w * ((2 ^ 53) ^ i * (2 ^ 53) ^ j) = u * (2 ^ 53) ^ i * (w * (2 ^ 53) ^ j) := by ring
    _ ≤ v * (2 ^ 53 + 1) ^ i * (z * (2 ^ 53 + 1) ^ j) := mul_le_mul h h' (by positivity) hv
    _ = v * z * ((2 ^ 53 + 1) ^ i * (2 ^ 53 + 1) ^ j) := by ring

/-- The inverses of two numbers compare the other way round. -/
theorem inv (hv : 0 < v) (hz : 0 < z) (h : LeUpTo j v z) : LeUpTo j z⁻¹ v⁻¹ := by
  rw [LeUpTo, inv_mul_eq_div, inv_mul_eq_div, div_le_div_iff₀ hz hv]
  rw [LeUpTo] at h
  linarith

/-- The errors of numerator and denominator add up. -/
theorem div (hu : 0 ≤ u) (hw : 0 < w) (hz : 0 < z) (h : LeUpTo i u v) (h' : LeUpTo j z w) :
    LeUpTo (i + j) (u / w) (v / z) := by
  rw [div_eq_mul_inv, div_eq_mul_inv]
  exact mul hu (inv_nonneg.2 hw.le) h (inv hz hw h')

end LeUpTo

/-- **Magnitudes with fewer than `k` others between them**, by their bits. -/
def Near (k m n : ℕ) : Prop := m ≤ n + k ∧ n ≤ m + k

/-! ## One rounding -/

theorem magnitudeOf_eq_mul (c : ℕ) : magnitudeOf c = multipleOf c * unitOf c := rfl

/-- A magnitude that uses up the significand is at least so large. -/
theorem le_magnitudeOf (hc : 2 ^ 52 ≤ c) : 2 ^ 52 * unitOf c ≤ magnitudeOf c := by
  have hle : 2 ^ 52 ≤ multipleOf c := by simp only [multipleOf, doublings]; omega
  have hle' : (2 : ℚ) ^ 52 ≤ multipleOf c := by exact_mod_cast hle
  exact mul_le_mul_of_nonneg_right hle' (unitOf_pos c).le

theorem magnitudeOf_add_one_le (c : ℕ) : magnitudeOf c + unitOf c ≤ 2 ^ 53 * unitOf c := by
  have hlt : (multipleOf c : ℚ) + 1 ≤ 2 ^ 53 := by exact_mod_cast multipleOf_lt c
  have := mul_le_mul_of_nonneg_right hlt (unitOf_pos c).le
  rw [magnitudeOf_eq_mul]
  linarith

/-- The least magnitude that uses up the significand. -/
theorem magnitudeOf_leastNormal : magnitudeOf (2 ^ 52) = 2 ^ (-1022 : ℤ) := by
  have h := @magnitudeOf_eq 0 (2 ^ 52) (by norm_num) (.inl rfl)
  rw [Nat.zero_mul, Nat.zero_add, Nat.cast_pow, Nat.cast_ofNat, ← zpow_natCast,
    ← zpow_add₀ (by norm_num)] at h
  exact h

/-- **The error of one rounding** is less than one part in two to the 53. -/
theorem NearestTo.relative (h : NearestTo n q) (hn : n < infinityBits)
    (hq : (2 : ℚ) ^ (-1022 : ℤ) ≤ q) :
    LeUpTo 1 q (magnitudeOf n) ∧ LeUpTo 1 (magnitudeOf n) q := by
  rw [← magnitudeOf_leastNormal] at hq
  rw [LeUpTo, LeUpTo, pow_one, pow_one]
  -- what is not below the least normal magnitude is not rounded below it
  have hnormal : 2 ^ 52 ≤ n := by
    obtain ⟨c, hc⟩ : ∃ c, 2 ^ 52 = c + 1 := ⟨2 ^ 52 - 1, by norm_num⟩
    have hfinite : c < infinityBits := by
      have := infinityBits_eq
      omega
    rw [hc] at hq ⊢
    exact h.ge hfinite ((midpoint_lt_magnitudeOf c).trans_le hq)
  constructor
  · -- the midpoint above lies half a gap away
    have hhigh := h.high hn
    have hle := le_magnitudeOf hnormal
    rw [midpoint_eq] at hhigh
    linarith
  · -- the least normal magnitude is no more than the number; for the others the midpoint below lies
    -- half a gap away
    rcases Nat.eq_or_lt_of_le hnormal with rfl | hlt
    · have hpos : 0 < magnitudeOf (2 ^ 52) := by
        rw [magnitudeOf_leastNormal]
        positivity
      linarith
    · obtain ⟨c, rfl⟩ : ∃ c, n = c + 1 := ⟨n - 1, by omega⟩
      have hlow := h.low c rfl
      have hle := le_magnitudeOf (show 2 ^ 52 ≤ c by omega)
      rw [midpoint_eq] at hlow
      rw [magnitudeOf_succ]
      linarith [unitOf_pos c]

/-- A gap is the least one, or one part in two to the 52 at most. -/
theorem unitOf_le (c : ℕ) : unitOf c * 2 ^ 52 ≤ unitOf 0 * 2 ^ 52 + magnitudeOf c := by
  have hleast := unitOf_pos 0
  rcases Nat.lt_or_ge c (2 ^ 52) with hlt | hge
  · have hsame : unitOf c = unitOf 0 := by
      have : doublings c = doublings 0 := by simp only [doublings]; omega
      rw [unitOf, unitOf, this]
    rw [hsame]
    linarith [magnitudeOf_nonneg c]
  · have hle := le_magnitudeOf hge
    linarith

/-- **The error of one rounding**, small numbers included, which are off by half of the least
gap. -/
theorem NearestTo.absolute (h : NearestTo n q) (hn : n < infinityBits) (hq : 0 ≤ q) :
    q * 2 ^ 53 ≤ magnitudeOf n * (2 ^ 53 + 1) + unitOf 0 * 2 ^ 52 ∧
      magnitudeOf n * 2 ^ 53 ≤ q * (2 ^ 53 + 1) + unitOf 0 * 2 ^ 52 := by
  constructor
  · have hhigh := h.high hn
    have hgap := unitOf_le n
    rw [midpoint_eq] at hhigh
    linarith
  · have hleast := unitOf_pos 0
    -- zero has no midpoint below; for any other magnitude it lies half a gap away
    rcases Nat.eq_zero_or_pos n with rfl | hpos
    · rw [magnitudeOf_zero]
      linarith
    · obtain ⟨c, rfl⟩ : ∃ c, n = c + 1 := ⟨n - 1, by omega⟩
      have hlow := h.low c rfl
      have hgap := unitOf_le c
      have := unitOf_pos c
      rw [midpoint_eq] at hlow
      rw [magnitudeOf_succ]
      linarith

/-! ## Numbers that are off -/

/-- Gaps do not become narrower further up. -/
theorem magnitudeOf_add_le (c k : ℕ) : magnitudeOf c + k * unitOf c ≤ magnitudeOf (c + k) := by
  induction k with
  | zero => simp
  | succ k ih =>
    have hunit := unitOf_mono (show c ≤ c + k by omega)
    rw [← Nat.add_assoc, magnitudeOf_succ]
    push_cast
    linarith

/-- **A number that is too large** by up to two roundings is rounded to the magnitude that many
above, at most. -/
theorem NearestTo.le_add (h : NearestTo n z) (hb : NearestTo b v) (hfinite : b < infinityBits)
    (hpos : 0 < v) (hk : k = 1 ∨ k = 2) (hz : LeUpTo k z v) : n ≤ b + k := by
  have hunit := unitOf_mono (show b ≤ b + k by omega)
  have habove := magnitudeOf_add_le b k
  have htop := magnitudeOf_add_one_le b
  have hv := hb.high hfinite
  rw [midpoint_eq] at hv
  refine h.le ?_
  rw [midpoint_eq]
  -- the number lies in the lower half of its gap, which leaves room for the second order of the
  -- error
  rw [LeUpTo] at hz
  rcases hk with rfl | rfl <;> · norm_num at hz habove ⊢; linarith

/-- Where the gap doubles between two magnitudes, it doubles once. -/
theorem unitOf_add (hk : k ≤ 2 ^ 52) :
    unitOf c = unitOf (c + k) ∨
      unitOf (c + k) = 2 * unitOf c ∧ multipleOf (c + k) < 2 ^ 52 + k := by
  by_cases hsame : doublings c = doublings (c + k)
  · exact .inl (by rw [unitOf, unitOf, hsame])
  · have hnext : doublings (c + k) = doublings c + 1 ∧ multipleOf (c + k) < 2 ^ 52 + k := by
      simp only [multipleOf, doublings] at *
      omega
    refine .inr ⟨?_, hnext.2⟩
    rw [unitOf, unitOf, hnext.1, ← zpow_one_add₀ (by norm_num)]
    congr 1
    push_cast
    ring

/-- **A number that is too small** by up to three roundings is rounded to the magnitude that many
below, at least. -/
theorem NearestTo.sub_le (h : NearestTo n z) (hb : NearestTo b v) (hv : 0 ≤ v)
    (hk : k = 1 ∨ k = 2 ∨ k = 3) (hz : LeUpTo k v z) : b ≤ n + k := by
  have hz : v * (2 ^ 53 - k) ≤ z * 2 ^ 53 := by
    rw [LeUpTo] at hz
    rcases hk with rfl | rfl | rfl <;> · norm_num at hz ⊢; linarith
  by_contra hlt
  obtain ⟨c, rfl⟩ : ∃ c, b = c + k + 1 := ⟨b - k - 1, by omega⟩
  have hinfinity := hb.le_infinity
  have hmidpoint := hb.low (c + k) rfl
  have hbelow := magnitudeOf_add_le c k
  have hgap := unitOf_pos (c + k)
  have hk₀ : (0 : ℚ) < k := by exact_mod_cast show 0 < k by omega
  have hk₃ : (k : ℚ) ≤ 3 := by exact_mod_cast show k ≤ 3 by omega
  rw [midpoint_eq] at hmidpoint
  have hscaled := mul_le_mul_of_nonneg_right hmidpoint (show (0 : ℚ) ≤ 2 ^ 53 - k by linarith)
  -- the deficit is less than `k` gaps, or `k` of the gaps below where they are half as wide
  have hlow : midpoint c < z := by
    rw [midpoint_eq]
    rcases unitOf_add (c := c) (show k ≤ 2 ^ 52 by omega) with hsame | ⟨hdouble, hmultiple⟩
    · have htop := mul_le_mul_of_nonneg_right (magnitudeOf_add_one_le (c + k)) hk₀.le
      have hexcess := mul_pos hk₀ hgap
      rw [hsame] at hbelow ⊢
      linarith
    · have hmultiple' : (multipleOf (c + k) : ℚ) ≤ 2 ^ 52 + 3 := by
        have : (multipleOf (c + k) : ℚ) ≤ 2 ^ 52 + k := by exact_mod_cast hmultiple.le
        linarith
      have htop : magnitudeOf (c + k) ≤ (2 ^ 52 + 3) * (2 * unitOf c) :=
        hdouble ▸ mul_le_mul_of_nonneg_right hmultiple' hgap.le
      have htop' := mul_le_mul_of_nonneg_right htop hk₀.le
      have hgaps := mul_le_mul_of_nonneg_right hk₃ (unitOf_pos c).le
      have := unitOf_pos c
      rw [hdouble] at hscaled
      linarith
  have := h.ge (by omega) hlow
  omega

/-- The least gap lies between any two midpoints. -/
theorem midpoint_add_le (c : ℕ) : midpoint c + unitOf 0 ≤ midpoint (c + 1) := by
  have hleast := unitOf_mono (Nat.zero_le c)
  have hnext := unitOf_mono (Nat.le_succ c)
  rw [midpoint_eq, midpoint_eq, magnitudeOf_succ]
  linarith

/-- **A number that is off by less than the least gap** is rounded to a neighbour, if not to the
same magnitude. -/
theorem NearestTo.near_of_abs_lt (h : NearestTo n z) (hb : NearestTo b v)
    (hfinite : b < infinityBits) (hz : |z - v| < unitOf 0) : Near 1 n b := by
  obtain ⟨hbelow, habove⟩ := abs_lt.1 hz
  constructor
  · exact h.le (by linarith [midpoint_add_le b, hb.high hfinite])
  · by_contra hlt
    obtain ⟨c, rfl⟩ : ∃ c, b = c + 1 + 1 := ⟨b - 2, by omega⟩
    have := h.ge (c := c) (by omega) (by linarith [midpoint_add_le c, hb.low (c + 1) rfl])
    omega

/-! ## Numbers that are magnitudes -/

/-- A number with few binary digits is a magnitude. -/
theorem exists_magnitudeOf_eq {r : ℕ} (hr : r ≤ 2 ^ 53) (s : ℕ) :
    ∃ c, magnitudeOf c = r * 2 ^ ((s : ℤ) - 1074) := by
  induction s generalizing r with
  | zero => exact ⟨_, magnitudeOf_eq hr (.inl rfl)⟩
  | succ s ih =>
    by_cases hfull : 2 ^ 52 ≤ r
    · exact ⟨_, magnitudeOf_eq hr (.inr hfull)⟩
    · obtain ⟨c, hc⟩ := @ih (2 * r) (by omega)
      have hsplit : ((s + 1 : ℕ) : ℤ) - 1074 = ((s : ℤ) - 1074) + 1 := by push_cast; ring
      refine ⟨c, hc.trans ?_⟩
      rw [hsplit, zpow_add_one₀ (by norm_num)]
      push_cast
      ring

/-- **A number that is a magnitude** is rounded to itself. -/
theorem NearestTo.magnitudeOf_eq (h : NearestTo n (magnitudeOf c)) (hc : c < infinityBits) :
    magnitudeOf n = magnitudeOf c := by
  rw [h.eq hc (fun d hd => .inl (hd ▸ midpoint_lt_magnitudeOf d))
    (.inl (magnitudeOf_lt_midpoint c))]

end Parcel.Double
