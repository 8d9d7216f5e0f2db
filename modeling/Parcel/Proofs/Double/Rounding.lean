import Mathlib.Algebra.Order.Field.Power
import Mathlib.Tactic.FieldSimp
import Mathlib.Tactic.Linarith
import Mathlib.Tactic.NormNum
import Mathlib.Tactic.Positivity
import Mathlib.Tactic.Ring
import Parcel.Proofs.Double.Finite

/-!
# What rounding does

Consecutive magnitudes have consecutive bits, and the gap between two of them doubles whenever the
significand is used up. So a magnitude is known by its bits as a number, and a quotient is rounded
to it exactly if it lies between the midpoints to its two neighbours; a midpoint itself goes to the
neighbour with even bits.

## Main definitions

* `Double.magnitudeOf`: the magnitude with the given bits
* `Double.unitOf`: the gap above it
* `Double.midpoint`: halfway between it and the next one
* `Double.NearestTo`: the magnitude that a number is rounded to, by its bits

## Main results

* `Double.nearest_spec`: rounding gives the nearest magnitude
* `Double.NearestTo.le`, `Double.NearestTo.ge`: bounds on what a number is rounded to
* `Double.NearestTo.eq`: numbers between the midpoints
* `Double.NearestTo.unique`: a number is rounded to one magnitude
-/

namespace Parcel.Double

/-! ## Magnitudes by their bits -/

/-- How often the gap between magnitudes has doubled up to the one with these bits. -/
def doublings (c : ℕ) : ℕ := c / 2 ^ 52 - 1

/-- The multiple of the gap that the magnitude with these bits is. -/
def multipleOf (c : ℕ) : ℕ := c - doublings c * 2 ^ 52

/-- **The gap** between the magnitude with these bits and the next one. -/
def unitOf (c : ℕ) : ℚ := 2 ^ ((doublings c : ℤ) - 1074)

/-- **The magnitude** with the given bits. Infinity counts as the next magnitude behind the greatest
finite one. -/
def magnitudeOf (c : ℕ) : ℚ := multipleOf c * unitOf c

/-- **The midpoint** between the magnitude with these bits and the next one. -/
def midpoint (c : ℕ) : ℚ := (magnitudeOf c + magnitudeOf (c + 1)) / 2

variable {b c d : ℕ} {q : ℚ}

theorem unitOf_pos (c : ℕ) : 0 < unitOf c := zpow_pos (by norm_num) _

theorem magnitudeOf_nonneg (c : ℕ) : 0 ≤ magnitudeOf c :=
  mul_nonneg (Nat.cast_nonneg _) (unitOf_pos c).le

@[simp] theorem magnitudeOf_zero : magnitudeOf 0 = 0 := by simp [magnitudeOf, multipleOf]

/-- A multiple that is used up is one at which the gap has doubled once more. -/
theorem magnitudeOf_eq {s r : ℕ} (hr : r ≤ 2 ^ 53) (hs : s = 0 ∨ 2 ^ 52 ≤ r) :
    magnitudeOf (s * 2 ^ 52 + r) = r * 2 ^ ((s : ℤ) - 1074) := by
  by_cases hfull : r = 2 ^ 53
  · have hdoublings : doublings (s * 2 ^ 52 + r) = s + 1 := by simp only [doublings]; omega
    have hmultiple : multipleOf (s * 2 ^ 52 + r) = 2 ^ 52 := by
      simp only [multipleOf, hdoublings]; omega
    have hsplit : ((s + 1 : ℕ) : ℤ) - 1074 = ((s : ℤ) - 1074) + 1 := by push_cast; ring
    rw [magnitudeOf, unitOf, hmultiple, hdoublings, hfull, hsplit, zpow_add_one₀ (by norm_num)]
    push_cast
    ring
  · have hdoublings : doublings (s * 2 ^ 52 + r) = s := by simp only [doublings]; omega
    have hmultiple : multipleOf (s * 2 ^ 52 + r) = r := by
      simp only [multipleOf, hdoublings]; omega
    rw [magnitudeOf, unitOf, hmultiple, hdoublings]

theorem eq_add_multipleOf (c : ℕ) : c = doublings c * 2 ^ 52 + multipleOf c := by
  simp only [doublings, multipleOf]; omega

theorem multipleOf_lt (c : ℕ) : multipleOf c < 2 ^ 53 := by
  simp only [doublings, multipleOf]; omega

theorem le_multipleOf (c : ℕ) : doublings c = 0 ∨ 2 ^ 52 ≤ multipleOf c := by
  simp only [doublings, multipleOf]; omega

theorem magnitudeOf_succ (c : ℕ) : magnitudeOf (c + 1) = magnitudeOf c + unitOf c := by
  have hlt := multipleOf_lt c
  have hle := le_multipleOf c
  have hsucc : c + 1 = doublings c * 2 ^ 52 + (multipleOf c + 1) := by
    have := eq_add_multipleOf c
    omega
  rw [hsucc, magnitudeOf_eq (by omega) (hle.imp_right fun h => by omega), magnitudeOf, unitOf]
  push_cast
  ring

theorem doublings_mono (h : c ≤ d) : doublings c ≤ doublings d := by
  simp only [doublings]; omega

theorem unitOf_mono (h : c ≤ d) : unitOf c ≤ unitOf d := by
  have := doublings_mono h
  exact zpow_le_zpow_right₀ (by norm_num) (by omega)

theorem strictMono_magnitudeOf : StrictMono magnitudeOf :=
  strictMono_nat_of_lt_succ fun c => by
    rw [magnitudeOf_succ]
    linarith [unitOf_pos c]

theorem magnitudeOf_le_magnitudeOf : magnitudeOf c ≤ magnitudeOf d ↔ c ≤ d :=
  strictMono_magnitudeOf.le_iff_le

theorem midpoint_eq (c : ℕ) : midpoint c = magnitudeOf c + unitOf c / 2 := by
  rw [midpoint, magnitudeOf_succ]
  ring

theorem magnitudeOf_lt_midpoint (c : ℕ) : magnitudeOf c < midpoint c := by
  rw [midpoint_eq]
  linarith [unitOf_pos c]

theorem midpoint_lt_magnitudeOf (c : ℕ) : midpoint c < magnitudeOf (c + 1) := by
  rw [midpoint_eq, magnitudeOf_succ]
  linarith [unitOf_pos c]

theorem midpoint_lt_midpoint (h : c < d) : midpoint c < midpoint d :=
  (midpoint_lt_magnitudeOf c).trans_le
    ((magnitudeOf_le_magnitudeOf.2 h).trans (magnitudeOf_lt_midpoint d).le)

theorem midpoint_le_midpoint (h : c ≤ d) : midpoint c ≤ midpoint d := by
  rcases Nat.lt_or_eq_of_le h with h | rfl
  · exact (midpoint_lt_midpoint h).le
  · exact le_rfl

/-! ## The nearest magnitude -/

/-- The bits of infinity. -/
abbrev infinityBits : ℕ := BinaryFormat.double.infinityBits

theorem infinityBits_eq : infinityBits = 2047 * 2 ^ 52 := rfl

/-- **The magnitude that a number is rounded to**, by its bits: the number lies between the
midpoints to both neighbours, and is a midpoint only if the bits are even. There is no neighbour
below zero, and none above infinity. -/
structure NearestTo (n : ℕ) (q : ℚ) : Prop where
  le_infinity : n ≤ infinityBits
  low : ∀ c, n = c + 1 → midpoint c ≤ q
  high : n < infinityBits → q ≤ midpoint n
  even_of_low : ∀ c, n = c + 1 → midpoint c = q → n % 2 = 0
  even_of_high : n < infinityBits → q = midpoint n → n % 2 = 0

namespace NearestTo

variable {n : ℕ}

/-- A number below a midpoint is rounded to what is below the midpoint. -/
theorem le (h : NearestTo n q) (hq : q < midpoint c) : n ≤ c := by
  by_contra hlt
  obtain ⟨d, rfl⟩ : ∃ d, n = d + 1 := ⟨n - 1, by omega⟩
  have := h.low d rfl
  have := midpoint_le_midpoint (show c ≤ d by omega)
  linarith

/-- A number above a midpoint is rounded to what is above the midpoint. -/
theorem ge (h : NearestTo n q) (hc : c < infinityBits) (hq : midpoint c < q) : c + 1 ≤ n := by
  by_contra hlt
  have := h.high (by omega)
  have := midpoint_le_midpoint (show n ≤ c by omega)
  linarith

/-- **Numbers between the midpoints** of a finite magnitude are rounded to it, and the midpoints
themselves if its bits are even. -/
theorem eq (h : NearestTo n q) (hc : c < infinityBits)
    (hlow : ∀ d, c = d + 1 → midpoint d < q ∨ midpoint d = q ∧ c % 2 = 0)
    (hhigh : q < midpoint c ∨ q = midpoint c ∧ c % 2 = 0) : n = c := by
  apply le_antisymm
  · by_contra hlt
    -- a greater magnitude is nearest from the midpoint above `c` on at the earliest
    obtain ⟨d, rfl⟩ : ∃ d, n = d + 1 := ⟨n - 1, by omega⟩
    have hd := h.low d rfl
    have hcd := midpoint_le_midpoint (show c ≤ d by omega)
    rcases hhigh with hq | ⟨hq, heven⟩
    · linarith
    · -- the number is the midpoint between two magnitudes with even bits
      have hsame : midpoint d = q := by linarith
      have hdc : d = c := by
        by_contra hne
        have := midpoint_lt_midpoint (show c < d by omega)
        linarith
      have := h.even_of_low d rfl hsame
      omega
  · by_contra hlt
    -- a smaller one is nearest up to the midpoint below `c` at most
    obtain ⟨d, rfl⟩ : ∃ d, c = d + 1 := ⟨c - 1, by omega⟩
    have hn := h.high (by omega)
    have hnd := midpoint_le_midpoint (show n ≤ d by omega)
    rcases hlow d rfl with hq | ⟨hq, heven⟩
    · linarith
    · have hsame : q = midpoint n := by linarith
      have hdn : n = d := by
        by_contra hne
        have := midpoint_lt_midpoint (show n < d by omega)
        linarith
      have := h.even_of_high (by omega) hsame
      omega

/-- **A number is rounded to one magnitude.** -/
theorem unique (h : NearestTo n q) (h' : NearestTo c q) (hc : c < infinityBits) : n = c :=
  h.eq hc
    (fun d hd => (h'.low d hd).lt_or_eq.imp_right fun heq => ⟨heq, h'.even_of_low d hd heq⟩)
    ((h'.high hc).lt_or_eq.imp_right fun heq => ⟨heq, h'.even_of_high hc heq⟩)

end NearestTo

/-! ## Rounding -/

variable {num den : ℕ}

/-- A scaled quotient is the quotient times the power of two. -/
theorem scaledQuotient_div (num den : ℕ) (shift : ℤ) :
    ((scaledQuotient num den shift).1 : ℚ) / (scaledQuotient num den shift).2 =
      num / den * 2 ^ shift := by
  rw [scaledQuotient]
  -- a shift to the left goes to the numerator, one to the right to the denominator
  split
  · next hle =>
    obtain ⟨k, rfl⟩ := Int.eq_ofNat_of_zero_le hle
    rw [Int.toNat_natCast, zpow_natCast, Nat.shiftLeft_eq]
    push_cast
    ring
  · next hlt =>
    obtain ⟨k, hk⟩ := Int.eq_ofNat_of_zero_le (show 0 ≤ -shift by omega)
    rw [hk, show shift = -(k : ℤ) by omega, Int.toNat_natCast, zpow_neg, zpow_natCast,
      Nat.shiftLeft_eq]
    push_cast
    rw [← div_div]
    rfl

/-- **The power of two that rounding starts from**, as a bound on the quotient. -/
theorem floorLog2_bounds (hnum : 0 < num) (hden : 0 < den) :
    (2 : ℚ) ^ floorLog2 num den ≤ num / den ∧ (num / den : ℚ) < 2 ^ (floorLog2 num den + 1) := by
  obtain ⟨a, b, hfloor, hlow, hhigh⟩ := floorLog2_spec hnum hden
  rw [Nat.shiftLeft_eq, Nat.shiftLeft_eq] at hlow hhigh
  have hden' : (0 : ℚ) < den := by exact_mod_cast hden
  have hlow' : (den : ℚ) * 2 ^ a ≤ num * 2 ^ b := by exact_mod_cast hlow
  have hhigh' : (num : ℚ) * 2 ^ b < den * 2 ^ (a + 1) := by exact_mod_cast hhigh
  rw [hfloor, zpow_add_one₀ (by norm_num), zpow_sub₀ (by norm_num), zpow_natCast, zpow_natCast]
  constructor
  · rw [div_le_div_iff₀ (by positivity) hden']
    linarith
  · rw [div_mul_eq_mul_div, div_lt_div_iff₀ hden' (by positivity), ← pow_succ]
    linarith

/-- A rounded quotient is within a half of the quotient, and even if it is off by a half. -/
theorem roundedQuotient_spec {n d : ℕ} (hd : 0 < d) :
    (roundedQuotient n d : ℚ) - 1 / 2 ≤ n / d ∧ (n / d : ℚ) ≤ roundedQuotient n d + 1 / 2 ∧
      ((roundedQuotient n d : ℚ) - 1 / 2 = n / d → roundedQuotient n d % 2 = 0) ∧
      ((n / d : ℚ) = roundedQuotient n d + 1 / 2 → roundedQuotient n d % 2 = 0) := by
  -- without division: the product is off by half of the divisor at most, and by just half only if
  -- it is even
  have hnat : 2 * (roundedQuotient n d * d) ≤ 2 * n + d ∧
      2 * n ≤ 2 * (roundedQuotient n d * d) + d ∧
      (2 * (roundedQuotient n d * d) = 2 * n + d → roundedQuotient n d % 2 = 0) ∧
      (2 * n = 2 * (roundedQuotient n d * d) + d → roundedQuotient n d % 2 = 0) := by
    have hdiv := Nat.div_add_mod n d
    have hmod := Nat.mod_lt n hd
    have hsucc : (n / d + 1) * d = d * (n / d) + d := by ring
    have hsame : n / d * d = d * (n / d) := Nat.mul_comm _ _
    simp only [roundedQuotient]
    split
    · rw [hsame]; omega
    · split
      · rcases Nat.mod_two_eq_zero_or_one (n / d) with heven | hodd
        · rw [heven, Nat.add_zero, hsame]; omega
        · rw [hodd, hsucc]; omega
      · rw [hsucc]; omega
  obtain ⟨hhigh, hlow, hhighTie, hlowTie⟩ := hnat
  have hd' : (0 : ℚ) < d := by exact_mod_cast hd
  have hquotient : (n / d : ℚ) * d = n := div_mul_cancel₀ _ hd'.ne'
  have hhigh' : 2 * ((roundedQuotient n d : ℚ) * d) ≤ 2 * n + d := by exact_mod_cast hhigh
  have hlow' : 2 * (n : ℚ) ≤ 2 * (roundedQuotient n d * d) + d := by exact_mod_cast hlow
  refine ⟨?_, ?_, fun heq => hhighTie ?_, fun heq => hlowTie ?_⟩
  · rw [le_div_iff₀ hd']
    linarith
  · rw [div_le_iff₀ hd']
    linarith
  · rw [← heq] at hquotient
    have : 2 * ((roundedQuotient n d : ℚ) * d) = 2 * n + d := by linarith
    exact_mod_cast this
  · rw [heq] at hquotient
    have : 2 * (n : ℚ) = 2 * (roundedQuotient n d * d) + d := by linarith
    exact_mod_cast this

/-- The unit that a quotient is rounded to, and the multiple of it: the unit is the least one, or
the quotient uses up the significand. -/
theorem exists_nearest_eq (hnum : 0 < num) (hden : 0 < den) : ∃ s r : ℕ,
    BinaryFormat.double.nearest num den = min (s * 2 ^ 52 + r) infinityBits ∧
      ((r : ℚ) - 1 / 2) * 2 ^ ((s : ℤ) - 1074) ≤ num / den ∧
      (num / den : ℚ) ≤ (r + 1 / 2) * 2 ^ ((s : ℤ) - 1074) ∧
      (((r : ℚ) - 1 / 2) * 2 ^ ((s : ℤ) - 1074) = num / den → r % 2 = 0) ∧
      ((num / den : ℚ) = (r + 1 / 2) * 2 ^ ((s : ℤ) - 1074) → r % 2 = 0) ∧
      (s = 0 ∨ (2 ^ 52 : ℚ) * 2 ^ ((s : ℤ) - 1074) ≤ num / den) ∧
      (num / den : ℚ) < 2 ^ 53 * 2 ^ ((s : ℤ) - 1074) := by
  obtain ⟨hfloorLow, hfloorHigh⟩ := floorLog2_bounds hnum hden
  -- the unit in the last place, as an exponent
  obtain ⟨unit, hunit⟩ : ∃ unit : ℤ, unit = max (floorLog2 num den - 52) (-1074) := ⟨_, rfl⟩
  obtain ⟨s, hs⟩ : ∃ s : ℕ, unit = (s : ℤ) - 1074 := ⟨(unit + 1074).toNat, by omega⟩
  have hpos : (0 : ℚ) < 2 ^ ((s : ℤ) - 1074) := zpow_pos (by norm_num) _
  have hscaled := scaledQuotient_div num den (-unit)
  have hdivisor := scaledQuotient_den_pos num hden (-unit)
  obtain ⟨hlow, hhigh, hlowTie, hhighTie⟩ :=
    @roundedQuotient_spec (scaledQuotient num den (-unit)).1 _ hdivisor
  rw [hscaled, hs, zpow_neg, ← div_eq_mul_inv] at hlow hhigh hlowTie hhighTie
  refine ⟨s, roundedQuotient (scaledQuotient num den (-unit)).1 (scaledQuotient num den (-unit)).2,
    ?_, ?_, ?_, ?_, ?_, ?_, ?_⟩
  · have hsteps : (unit - -1074).toNat = s := by omega
    have hfraction : (BinaryFormat.double.fractionBits : ℤ) = 52 := rfl
    rw [BinaryFormat.nearest, if_neg (Nat.ne_of_gt hnum)]
    simp only [leastExponent_double, hfraction, ← hunit, hsteps, Nat.shiftLeft_eq]
    rfl
  · rw [hs]; exact (le_div_iff₀ hpos).1 hlow
  · rw [hs]; exact (div_le_iff₀ hpos).1 hhigh
  · rw [hs]; exact fun heq => hlowTie ((eq_div_iff hpos.ne').2 heq)
  · rw [hs]; exact fun heq => hhighTie ((div_eq_iff hpos.ne').2 heq)
  · -- above the least unit the quotient has all of its 53 binary digits
    by_cases hleast : floorLog2 num den - 52 ≤ -1074
    · exact .inl (by omega)
    · have hexponent : floorLog2 num den = 52 + ((s : ℤ) - 1074) := by omega
      rw [hexponent, zpow_add₀ (by norm_num)] at hfloorLow
      exact .inr hfloorLow
  · have hexponent : floorLog2 num den + 1 ≤ 53 + ((s : ℤ) - 1074) := by omega
    have hle : (2 : ℚ) ^ (floorLog2 num den + 1) ≤ 2 ^ (53 + ((s : ℤ) - 1074)) :=
      zpow_le_zpow_right₀ (by norm_num) hexponent
    have hsplit : (2 : ℚ) ^ (53 + ((s : ℤ) - 1074)) = 2 ^ 53 * 2 ^ ((s : ℤ) - 1074) :=
      zpow_add₀ (by norm_num) _ _
    exact lt_of_lt_of_le hfloorHigh (hsplit ▸ hle)

/-- The midpoint below a rounded multiple of the unit. The quotient cannot lie below the magnitude
at which the unit doubled, where the gap below is half as wide. -/
theorem midpoint_le_of_multiple {s r : ℕ} (hr : r ≤ 2 ^ 53)
    (hlow : ((r : ℚ) - 1 / 2) * 2 ^ ((s : ℤ) - 1074) ≤ q)
    (htie : ((r : ℚ) - 1 / 2) * 2 ^ ((s : ℤ) - 1074) = q → r % 2 = 0)
    (hleast : s = 0 ∨ (2 ^ 52 : ℚ) * 2 ^ ((s : ℤ) - 1074) ≤ q) (hs : s = 0 ∨ 2 ^ 52 ≤ r)
    (hc : s * 2 ^ 52 + r = c + 1) : midpoint c ≤ q ∧ (midpoint c = q → (c + 1) % 2 = 0) := by
  have hmagnitude := magnitudeOf_eq hr hs
  -- at 2 ^ 52 the unit below is half as wide; there the number is not below the magnitude
  by_cases hedge : s ≠ 0 ∧ r = 2 ^ 52
  · obtain ⟨hne, rfl⟩ := hedge
    have hq := hleast.resolve_left hne
    rw [hc, Nat.cast_pow, Nat.cast_ofNat] at hmagnitude
    have hlt : midpoint c < q := (midpoint_lt_magnitudeOf c).trans_le (hmagnitude ▸ hq)
    exact ⟨hlt.le, fun heq => absurd heq hlt.ne⟩
  · obtain ⟨k, rfl⟩ : ∃ k, r = k + 1 := ⟨r - 1, by omega⟩
    obtain rfl : c = s * 2 ^ 52 + k := by omega
    have hbelow := @magnitudeOf_eq s k (by omega) (by omega)
    have hmidpoint : midpoint (s * 2 ^ 52 + k) = ((k + 1 : ℕ) - 1 / 2) * 2 ^ ((s : ℤ) - 1074) := by
      rw [midpoint, ← hc, hbelow, hmagnitude]
      push_cast
      ring
    rw [hmidpoint]
    exact ⟨hlow, fun heq => by have := htie heq; omega⟩

/-- The midpoint above a rounded multiple of the unit. -/
theorem le_midpoint_of_multiple {s r : ℕ} (hr : r ≤ 2 ^ 53)
    (hhigh : q ≤ ((r : ℚ) + 1 / 2) * 2 ^ ((s : ℤ) - 1074))
    (htie : q = ((r : ℚ) + 1 / 2) * 2 ^ ((s : ℤ) - 1074) → r % 2 = 0)
    (hbound : q < 2 ^ 53 * 2 ^ ((s : ℤ) - 1074)) (hs : s = 0 ∨ 2 ^ 52 ≤ r) :
    q ≤ midpoint (s * 2 ^ 52 + r) ∧
      (q = midpoint (s * 2 ^ 52 + r) → (s * 2 ^ 52 + r) % 2 = 0) := by
  have hmagnitude := magnitudeOf_eq hr hs
  -- at 2 ^ 53 the unit doubles; there the midpoint is farther away, and the number not even at the
  -- magnitude
  rcases Nat.lt_or_eq_of_le hr with hlt | rfl
  · have habove := @magnitudeOf_eq s (r + 1) hlt (by omega)
    have hmidpoint : midpoint (s * 2 ^ 52 + r) = ((r : ℚ) + 1 / 2) * 2 ^ ((s : ℤ) - 1074) := by
      rw [midpoint, Nat.add_assoc, habove, hmagnitude]
      push_cast
      ring
    rw [hmidpoint]
    exact ⟨hhigh, fun heq => by have := htie heq; omega⟩
  · rw [Nat.cast_pow, Nat.cast_ofNat] at hmagnitude
    have hlt : q < midpoint (s * 2 ^ 52 + 2 ^ 53) :=
      (hmagnitude ▸ hbound).trans (magnitudeOf_lt_midpoint _)
    exact ⟨hlt.le, fun heq => absurd heq hlt.ne⟩

/-- **Rounding gives the nearest magnitude**, ties going to even bits. -/
theorem nearest_spec (hden : 0 < den) :
    NearestTo (BinaryFormat.double.nearest num den) (num / den) := by
  rcases Nat.eq_zero_or_pos num with rfl | hnum
  · -- nothing is rounded to zero, which has no neighbour below
    have hnearest : BinaryFormat.double.nearest 0 den = 0 := rfl
    have hzero : (0 : ℚ) < midpoint 0 := by
      have := unitOf_pos 0
      rw [midpoint_eq, magnitudeOf_zero]
      linarith
    rw [hnearest, Nat.cast_zero, zero_div]
    exact ⟨Nat.zero_le _, fun c hc => absurd hc (by omega), fun _ => hzero.le,
      fun c hc => absurd hc (by omega), fun _ _ => rfl⟩
  · obtain ⟨s, r, hnearest, hlow, hhigh, hlowTie, hhighTie, hleast, hbound⟩ :=
      exists_nearest_eq hnum hden
    have hpos : (0 : ℚ) < 2 ^ ((s : ℤ) - 1074) := zpow_pos (by norm_num) _
    -- the multiple is a significand, or the one at which the unit doubles
    have hr : r ≤ 2 ^ 53 := by
      have hlt := lt_of_mul_lt_mul_right (lt_of_le_of_lt hlow hbound) hpos.le
      have : (r : ℚ) < 2 ^ 53 + 1 := by linarith
      exact_mod_cast Nat.lt_succ_iff.1 (by exact_mod_cast this)
    have hs : s = 0 ∨ 2 ^ 52 ≤ r := hleast.imp_right fun hle => by
      have hle := le_of_mul_le_mul_right (le_trans hle hhigh) hpos
      have : (2 : ℚ) ^ 52 < r + 1 := by linarith
      exact_mod_cast Nat.lt_succ_iff.1 (by exact_mod_cast this)
    have hbelow (c : ℕ) := @midpoint_le_of_multiple c _ s r hr hlow hlowTie hleast hs
    have habove := le_midpoint_of_multiple hr hhigh hhighTie hbound hs
    have heven : infinityBits % 2 = 0 := rfl
    rw [hnearest]
    refine ⟨Nat.min_le_right _ _, fun c hc => ?_, fun hfinite => ?_, fun c hc heq => ?_,
      fun hfinite heq => ?_⟩
    · obtain ⟨d, hd⟩ : ∃ d, s * 2 ^ 52 + r = d + 1 := ⟨s * 2 ^ 52 + r - 1, by omega⟩
      exact (midpoint_le_midpoint (show c ≤ d by omega)).trans (hbelow d hd).1
    · rw [Nat.min_eq_left (by omega)]
      exact habove.1
    · rcases Nat.le_total (s * 2 ^ 52 + r) infinityBits with hle | hle
      · rw [Nat.min_eq_left hle] at hc ⊢
        rw [hc]
        exact (hbelow c hc).2 heq
      · rw [Nat.min_eq_right hle]
        exact heven
    · have hle : s * 2 ^ 52 + r ≤ infinityBits := by omega
      rw [Nat.min_eq_left hle] at heq ⊢
      exact habove.2 heq

end Parcel.Double
