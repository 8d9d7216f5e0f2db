import Parcel.Double.Shortest
import Parcel.Proofs.Double.Arithmetic

/-!
# The digits that are written

The ends of a double's neighbourhood are the midpoints to the doubles next to it, so a point of a
grid that is found there is rounded to the double. On the grid with seventeen digits one is found:
its points lie closer together than the ends. The exponent of the first digit is estimated from the
logarithm base two, and the estimate is right for every double.

## Main definitions

* `Shortest.Neighbourhood.contains`: points of a grid that lie in a neighbourhood

## Main results

* `Shortest.nearestTo_of_point?_eq_some`: what is found is rounded to the double
* `Shortest.point?_ne_none`: seventeen digits suffice
* `Shortest.floorLog10_bounds`: the exponent of the first digit
* `Double.shortest_spec`: the digits of a double
-/

namespace Parcel.Shortest

open Double

variable {x : Double} {tie : Tie} {unit : ℤ} {b c n p : ℕ}

/-! ## The neighbourhood of a double -/

/-- The gap below a magnitude is the gap above it, or half of it at a power of two. -/
theorem unitOf_below (hfinite : c + 1 < infinityBits) :
    if BinaryFormat.double.fractionField (c + 1) = 0 ∧
        1 < BinaryFormat.double.exponentField (c + 1)
      then unitOf (c + 1) = 2 * unitOf c else unitOf (c + 1) = unitOf c := by
  have hbits : c + 1 < 2047 * 2 ^ 52 := hfinite
  simp only [BinaryFormat.fractionField, BinaryFormat.exponentField, BinaryFormat.double,
    Nat.shiftRight_eq_div_pow, Nat.shiftLeft_eq, unitOf]
  split
  · have hnext : ((doublings (c + 1) : ℕ) : ℤ) - 1074 = 1 + ((doublings c : ℤ) - 1074) := by
      simp only [doublings]
      omega
    rw [hnext, zpow_one_add₀ (by norm_num)]
  · have hsame : doublings (c + 1) = doublings c := by
      simp only [doublings]
      omega
    rw [hsame]

/-- **The neighbourhood of a double** in terms of the midpoints to the doubles next to it. -/
theorem ofDouble_spec (hfinite : x.bits.toNat < infinityBits) (hx : x.bits.toNat = c + 1) :
    let around := Neighbourhood.ofDouble x
    (2 : ℚ) ^ around.exponent = unitOf (c + 1) / 4 ∧
      around.lower * (unitOf (c + 1) / 4) = midpoint c ∧
      around.value * (unitOf (c + 1) / 4) = magnitudeOf (c + 1) ∧
      around.upper * (unitOf (c + 1) / 4) = midpoint (c + 1) ∧
      (around.closed = true ↔ (c + 1) % 2 = 0) := by
  obtain ⟨hsignificand, hexponent⟩ := fields_of_lt hfinite
  have hbelow := unitOf_below (hx ▸ hfinite)
  have hsucc := magnitudeOf_succ c
  have hmagnitude := magnitudeOf_eq_mul (c + 1)
  have hpos : 0 < multipleOf (c + 1) := by simp only [multipleOf, doublings]; omega
  rw [hx] at hsignificand hexponent
  -- in quarters of the unit all bounds are integers, also where the gap below is half as wide
  simp only [Neighbourhood.ofDouble, hsignificand, hexponent, hx]
  refine ⟨?_, ?_, ?_, ?_, ?_⟩
  · rw [zpow_sub₀ (by norm_num), unitOf]
    norm_num
  · rw [midpoint_eq]
    split at hbelow
    · next hnarrow =>
      rw [if_pos hnarrow, Nat.cast_sub (by omega)]
      push_cast
      linarith
    · next hwide =>
      rw [if_neg hwide, Nat.cast_sub (by omega)]
      push_cast
      linarith
  · rw [hmagnitude]
    push_cast
    ring
  · rw [midpoint_eq, hmagnitude]
    push_cast
    ring
  · have hparity : multipleOf (c + 1) % 2 = (c + 1) % 2 := by
      simp only [multipleOf, doublings]
      omega
    rw [beq_iff_eq, hparity]

/-! ## Points of a grid -/

/-- The quarter unit over a power of ten. -/
theorem scale_div (around : Neighbourhood) (unit : ℤ) :
    ((around.scale unit).1 : ℚ) / (around.scale unit).2 = 2 ^ around.exponent / 10 ^ unit ∧
      0 < (around.scale unit).2 := by
  have hquarter := scaledQuotient_div 1 1 around.exponent
  have hden := scaledQuotient_den_pos 1 Nat.one_pos around.exponent
  rw [Nat.cast_one, div_one, one_mul] at hquarter
  rw [Neighbourhood.scale]
  -- how the first quotient is formed does not matter from here on
  generalize scaledQuotient 1 1 around.exponent = quarter at hquarter hden
  obtain ⟨num, den⟩ := quarter
  dsimp only at hquarter hden ⊢
  split
  · next hle =>
    obtain ⟨k, rfl⟩ := Int.eq_ofNat_of_zero_le hle
    rw [Int.toNat_natCast, Nat.cast_mul, cast_pow_ten, ← div_div, hquarter, zpow_natCast]
    exact ⟨rfl, Nat.mul_pos hden (Nat.pow_pos (by norm_num))⟩
  · next hlt =>
    obtain ⟨k, hk⟩ := Int.eq_ofNat_of_zero_le (show 0 ≤ -unit by omega)
    rw [hk, Int.toNat_natCast, Nat.cast_mul, cast_pow_ten, mul_div_right_comm, hquarter,
      show unit = -(k : ℤ) by omega, zpow_neg, zpow_natCast, div_inv_eq_mul]
    exact ⟨rfl, hden⟩

/-- Whether a point of the grid of `10 ^ unit` lies in a neighbourhood. -/
def Neighbourhood.contains (around : Neighbourhood) (unit : ℤ) (point : ℕ) : Bool :=
  let (num, den) := around.scale unit
  if around.closed then around.lower * num ≤ point * den && point * den ≤ around.upper * num
  else around.lower * num < point * den && point * den < around.upper * num

/-- The greatest point of the grid of `10 ^ unit` that is not above the value. -/
def Neighbourhood.below (around : Neighbourhood) (unit : ℤ) : ℕ :=
  around.value * (around.scale unit).1 / (around.scale unit).2

/-- The point of the grid of `10 ^ unit` that is nearest to the value. -/
def Neighbourhood.nearer (around : Neighbourhood) (tie : Tie) (unit : ℤ) : ℕ :=
  let (num, den) := around.scale unit
  let below := around.below unit
  let twice := 2 * (around.value * num)
  let middle := (2 * below + 1) * den
  if twice < middle then below
  else if middle < twice then below + 1
  else match tie with
    | .toEven => below + below % 2
    | .up => below + 1

theorem nearer_eq_or (around : Neighbourhood) (tie : Tie) (unit : ℤ) :
    around.nearer tie unit = around.below unit ∨
      around.nearer tie unit = around.below unit + 1 := by
  rw [Neighbourhood.nearer]
  split
  dsimp only
  split
  · exact .inl rfl
  · split
    · exact .inr rfl
    · cases tie with
      | toEven =>
        rcases Nat.mod_two_eq_zero_or_one (around.below unit) with h | h <;> simp [h]
      | up => exact .inr rfl

theorem point?_eq (around : Neighbourhood) (tie : Tie) (unit : ℤ) :
    around.point? tie unit =
      match around.contains unit (around.below unit),
          around.contains unit (around.below unit + 1) with
      | true, true => some (around.nearer tie unit)
      | true, false => some (around.below unit)
      | false, true => some (around.below unit + 1)
      | false, false => none :=
  rfl

/-- **The point that is found** lies in the neighbourhood, next to the value. -/
theorem contains_of_point?_eq_some {around : Neighbourhood} (h : around.point? tie unit = some p) :
    around.contains unit p = true ∧ p ≤ around.below unit + 1 := by
  rw [point?_eq] at h
  split at h
  · next hbelow habove =>
    rw [← Option.some.inj h]
    rcases nearer_eq_or around tie unit with hnearer | hnearer
    · exact ⟨hnearer ▸ hbelow, by omega⟩
    · exact ⟨hnearer ▸ habove, by omega⟩
  · next hbelow _ => exact Option.some.inj h ▸ ⟨hbelow, by omega⟩
  · next _ habove => exact Option.some.inj h ▸ ⟨habove, le_rfl⟩
  · cases h

/-- If no point is found, neither of the two next to the value lies in the neighbourhood. -/
theorem contains_eq_false_of_point?_eq_none {around : Neighbourhood}
    (h : around.point? tie unit = none) : around.contains unit (around.below unit) = false ∧
      around.contains unit (around.below unit + 1) = false := by
  rw [point?_eq] at h
  split at h
  · cases h
  · cases h
  · cases h
  · next hbelow habove => exact ⟨hbelow, habove⟩

section Point

variable (hfinite : x.bits.toNat < infinityBits) (hx : x.bits.toNat = c + 1)
include hfinite hx

/-- A multiple of the quarter unit and a point of a grid compare like what they stand for. -/
theorem mul_le_mul_scale (n p : ℕ) (unit : ℤ) :
    let scale := (Neighbourhood.ofDouble x).scale unit
    (n * scale.1 ≤ p * scale.2 ↔ n * (unitOf (c + 1) / 4) ≤ p * 10 ^ unit) ∧
      (p * scale.2 ≤ n * scale.1 ↔ p * 10 ^ unit ≤ n * (unitOf (c + 1) / 4)) := by
  obtain ⟨hdiv, hden⟩ := scale_div (Neighbourhood.ofDouble x) unit
  rw [(ofDouble_spec hfinite hx).1] at hdiv
  intro scale
  have hden' : (0 : ℚ) < scale.2 := by exact_mod_cast hden
  have hten : (0 : ℚ) < 10 ^ unit := by positivity
  -- both sides times the denominators
  have hleft : ((n * scale.1 : ℕ) : ℚ) * 10 ^ unit = n * (unitOf (c + 1) / 4) * scale.2 := by
    rw [div_eq_div_iff hden'.ne' hten.ne'] at hdiv
    rw [Nat.cast_mul, mul_assoc, hdiv, mul_assoc]
  have hright : ((p * scale.2 : ℕ) : ℚ) * 10 ^ unit = p * 10 ^ unit * scale.2 := by
    rw [Nat.cast_mul]
    ring
  constructor
  · rw [← Nat.cast_le (α := ℚ), ← mul_le_mul_iff_left₀ hten, hleft, hright]
    exact mul_le_mul_iff_left₀ hden'
  · rw [← Nat.cast_le (α := ℚ), ← mul_le_mul_iff_left₀ hten, hleft, hright]
    exact mul_le_mul_iff_left₀ hden'

/-- **What lies in the neighbourhood**: the points between the midpoints, with them if the bits are
even. -/
theorem contains_iff : (Neighbourhood.ofDouble x).contains unit p = true ↔
    if (c + 1) % 2 = 0 then midpoint c ≤ p * 10 ^ unit ∧ p * 10 ^ unit ≤ midpoint (c + 1)
    else midpoint c < p * 10 ^ unit ∧ p * 10 ^ unit < midpoint (c + 1) := by
  obtain ⟨-, hlower, -, hupper, hclosed⟩ := ofDouble_spec hfinite hx
  obtain ⟨hlow, hlow'⟩ := mul_le_mul_scale hfinite hx (Neighbourhood.ofDouble x).lower p unit
  obtain ⟨hhigh', hhigh⟩ := mul_le_mul_scale hfinite hx (Neighbourhood.ofDouble x).upper p unit
  rw [hlower] at hlow hlow'
  rw [hupper] at hhigh hhigh'
  simp only [Neighbourhood.contains, hclosed]
  split
  · rw [Bool.and_eq_true, decide_eq_true_eq, decide_eq_true_eq, hlow, hhigh]
  · rw [Bool.and_eq_true, decide_eq_true_eq, decide_eq_true_eq, ← Nat.not_le, hlow', not_le,
      ← Nat.not_le, hhigh', not_le]

/-- **A point that is found** is rounded to the double. -/
theorem nearestTo_of_point?_eq_some
    (h : (Neighbourhood.ofDouble x).point? tie unit = some p) :
    NearestTo x.bits.toNat (p * 10 ^ unit) := by
  have hinside := (contains_iff hfinite hx).1 (contains_of_point?_eq_some h).1
  rw [hx] at hfinite ⊢
  -- the interval is closed if the double is even, which is when the midpoints are rounded to it
  split at hinside
  · next heven =>
    obtain ⟨hlow, hhigh⟩ := hinside
    exact ⟨hfinite.le, fun d hd => by rwa [← Nat.succ.inj hd], fun _ => hhigh, fun _ _ _ => heven,
      fun _ _ => heven⟩
  · obtain ⟨hlow, hhigh⟩ := hinside
    refine ⟨hfinite.le, fun d hd => ?_, fun _ => hhigh.le, fun d hd heq => ?_, fun _ heq => ?_⟩
    · rw [← Nat.succ.inj hd]
      exact hlow.le
    · rw [← Nat.succ.inj hd] at heq
      exact absurd heq hlow.ne
    · exact absurd heq hhigh.ne

/-- A point closer to the value than one part in ten to the 16 is found. -/
theorem contains_of_abs_le (h : |p * 10 ^ unit - magnitudeOf (c + 1)| * (2 * 10 ^ 16) ≤
    magnitudeOf (c + 1)) : (Neighbourhood.ofDouble x).contains unit p = true := by
  have hbelow := magnitudeOf_add_one_le c
  have habove := magnitudeOf_add_one_le (c + 1)
  have hgap := unitOf_pos c
  have hgap' := unitOf_pos (c + 1)
  have hlow := midpoint_eq c
  have hhigh := midpoint_eq (c + 1)
  have hsucc := magnitudeOf_succ c
  obtain ⟨hle, hge⟩ := abs_le.1 (le_div_iff₀ (by norm_num) |>.2 h)
  -- the gap below may be half as wide as the one above, but half of it is still more than this
  -- share
  have hstrict : midpoint c < p * 10 ^ unit ∧ p * 10 ^ unit < midpoint (c + 1) :=
    ⟨by linarith, by linarith⟩
  rw [contains_iff hfinite hx]
  split
  · exact ⟨hstrict.1.le, hstrict.2.le⟩
  · exact hstrict

/-- **Seventeen digits suffice**: the points of such a grid lie closer together than the ends of the
neighbourhood. -/
theorem exists_point?_eq_some (hunit : 10 ^ unit * 10 ^ 16 ≤ magnitudeOf (c + 1)) :
    ∃ p, (Neighbourhood.ofDouble x).point? tie unit = some p := by
  rw [← Option.ne_none_iff_exists']
  intro hnone
  obtain ⟨hbelow, habove⟩ := contains_eq_false_of_point?_eq_none hnone
  obtain ⟨-, -, hvalue, -, -⟩ := ofDouble_spec hfinite hx
  have hden := (scale_div (Neighbourhood.ofDouble x) unit).2
  -- the value lies between the two points
  have hle : (Neighbourhood.ofDouble x).below unit * 10 ^ unit ≤ magnitudeOf (c + 1) := by
    rw [← hvalue, ← (mul_le_mul_scale hfinite hx _ _ unit).2]
    exact Nat.div_mul_le_self _ _
  have hlt : magnitudeOf (c + 1) ≤ ((Neighbourhood.ofDouble x).below unit + 1 : ℕ) * 10 ^ unit := by
    rw [← hvalue, ← (mul_le_mul_scale hfinite hx _ _ unit).1]
    exact (Nat.lt_mul_of_div_lt (Nat.lt_succ_self _) hden).le
  have hten : (0 : ℚ) < 10 ^ unit := by positivity
  have hfar := mt (contains_of_abs_le hfinite hx) (Bool.not_eq_true _ ▸ hbelow)
  have hfar' := mt (contains_of_abs_le hfinite hx) (Bool.not_eq_true _ ▸ habove)
  rw [abs_of_nonpos (by linarith)] at hfar
  rw [abs_of_nonneg (by linarith)] at hfar'
  push_cast at hfar'
  linarith

end Point

/-! ## The exponent of the first digit -/

/-- The estimate of the logarithm base ten is right for every power of two with a double: it is not
too large, and too small by less than two. -/
theorem pow_ten_bounds {e : ℤ} (hlow : -1074 ≤ e) (hhigh : e < 1024) :
    (10 : ℚ) ^ (e * 30103).fdiv 100000 ≤ 2 ^ e ∧
      (2 : ℚ) ^ (e + 1) ≤ 10 ^ ((e * 30103).fdiv 100000 + 2) := by
  -- for powers of either sign, the bounds in natural numbers
  have hup : ∀ n < 1024, 10 ^ (n * 30103 / 100000) ≤ 2 ^ n ∧
      2 ^ (n + 1) ≤ 10 ^ (n * 30103 / 100000 + 2) := by
    decide +kernel
  have hdown : ∀ n < 1075, 2 ^ n ≤ 10 ^ ((n * 30103 + 99999) / 100000) ∧
      2 * 10 ^ ((n * 30103 + 99999) / 100000) ≤ 10 ^ 2 * 2 ^ n := by
    decide +kernel
  rcases Int.eq_nat_or_neg e with ⟨n, rfl | rfl⟩
  · obtain ⟨hle, hge⟩ := hup n (by omega)
    have hestimate : ((n : ℤ) * 30103).fdiv 100000 = (n * 30103 / 100000 : ℕ) := by
      rw [Int.fdiv_eq_ediv_of_nonneg _ (by norm_num)]
      omega
    rw [hestimate]
    constructor
    · rw [zpow_natCast, zpow_natCast]
      exact_mod_cast hle
    · exact_mod_cast hge
  · obtain ⟨hle, hge⟩ := hdown n (by omega)
    have hestimate : (-(n : ℤ) * 30103).fdiv 100000 = -((n * 30103 + 99999) / 100000 : ℕ) := by
      rw [Int.fdiv_eq_ediv_of_nonneg _ (by norm_num)]
      omega
    rw [hestimate]
    have hle' : (2 : ℚ) ^ n ≤ 10 ^ ((n * 30103 + 99999) / 100000) := by exact_mod_cast hle
    have hge' : 2 * (10 : ℚ) ^ ((n * 30103 + 99999) / 100000) ≤ 10 ^ 2 * 2 ^ n := by
      exact_mod_cast hge
    constructor
    · rw [zpow_neg, zpow_neg, zpow_natCast, zpow_natCast]
      exact inv_anti₀ (by positivity) hle'
    · rw [zpow_add₀ (by norm_num), zpow_add₀ (by norm_num), zpow_neg, zpow_neg, zpow_natCast,
        zpow_natCast, inv_mul_eq_div, inv_mul_eq_div, div_le_div_iff₀ (by positivity)
          (by positivity)]
      exact hge'

/-- **The exponent of the first digit** of a number with a double. -/
theorem floorLog10_bounds {num den : ℕ} (hnum : 0 < num) (hden : 0 < den)
    (hlow : (2 : ℚ) ^ (-1074 : ℤ) ≤ num / den) (hhigh : (num / den : ℚ) < 2 ^ (1024 : ℤ)) :
    (10 : ℚ) ^ floorLog10 num den ≤ num / den ∧
      (num / den : ℚ) < 10 ^ (floorLog10 num den + 1) := by
  obtain ⟨hle, hlt⟩ := floorLog2_bounds hnum hden
  have hfrom := (zpow_lt_zpow_iff_right₀ (by norm_num)).1 (hlow.trans_lt hlt)
  have hto := (zpow_lt_zpow_iff_right₀ (by norm_num)).1 (hle.trans_lt hhigh)
  obtain ⟨hestimate, hnext⟩ := pow_ten_bounds (e := floorLog2 num den) (by omega) (by omega)
  have hden' : (0 : ℚ) < den := by exact_mod_cast hden
  rw [floorLog10]
  generalize ((floorLog2 num den) * 30103).fdiv 100000 = guess at hestimate hnext ⊢
  -- whether the next power of ten is reached
  have hreaches : (if 0 ≤ guess + 1 then den * Nat.pow 10 (guess + 1).toNat ≤ num
      else den ≤ num * Nat.pow 10 (-(guess + 1)).toNat) ↔ (10 : ℚ) ^ (guess + 1) ≤ num / den := by
    rw [le_div_iff₀ hden']
    split
    · next hpos =>
      obtain ⟨k, hk⟩ := Int.eq_ofNat_of_zero_le hpos
      rw [hk, Int.toNat_natCast, zpow_natCast, ← Nat.cast_le (α := ℚ), Nat.cast_mul, cast_pow_ten,
        mul_comm]
    · obtain ⟨k, hk⟩ := Int.eq_ofNat_of_zero_le (show 0 ≤ -(guess + 1) by omega)
      rw [show guess + 1 = -(k : ℤ) by omega, neg_neg, Int.toNat_natCast, zpow_neg, zpow_natCast,
        ← Nat.cast_le (α := ℚ), Nat.cast_mul, cast_pow_ten, inv_mul_le_iff₀ (by positivity),
        mul_comm]
  by_cases hnextReached : (10 : ℚ) ^ (guess + 1) ≤ num / den
  · rw [if_pos (hreaches.2 hnextReached)]
    exact ⟨hnextReached, hlt.trans_le (by rwa [add_assoc])⟩
  · rw [if_neg (mt hreaches.1 hnextReached)]
    exact ⟨hestimate.trans hle, not_le.1 hnextReached⟩

/-! ## The digits of a double -/

theorem magnitudeOf_succ_bounds (hfinite : c + 1 < infinityBits) :
    (2 : ℚ) ^ (-1074 : ℤ) ≤ magnitudeOf (c + 1) ∧ magnitudeOf (c + 1) < 2 ^ (1024 : ℤ) := by
  constructor
  · have hleast : magnitudeOf 1 = 2 ^ (-1074 : ℤ) := by
      rw [← zero_add 1, magnitudeOf_succ, magnitudeOf_zero, zero_add]
      rfl
    exact hleast ▸ magnitudeOf_le_magnitudeOf.2 (by omega)
  · have hgreatest := lt_infinityBits_iff.1 hfinite
    have hsplit : (2 : ℚ) ^ (1024 : ℤ) = 2 ^ 53 * 2 ^ 971 := by
      rw [← pow_add]
      exact zpow_natCast 2 1024
    have hpos : (0 : ℚ) < 2 ^ 971 := by positivity
    rw [greatest] at hgreatest
    rw [hsplit]
    -- as a variable, so that the power is not computed
    generalize (2 : ℚ) ^ 971 = unit at hgreatest hpos ⊢
    linarith

variable (hfinite : x.bits.toNat < infinityBits) (hx : x.bits.toNat = c + 1)
include hfinite hx

/-- A point that is found on a grid has as many digits as the grid, or is the next power of ten. -/
theorem le_pow_of_point?_eq_some {leading : ℤ} {count : ℕ}
    (hleading : magnitudeOf (c + 1) < 10 ^ (leading + 1))
    (h : (Neighbourhood.ofDouble x).point? tie (leading - count) = some p) :
    p ≤ 10 ^ (count + 1) := by
  obtain ⟨-, -, hvalue, -, -⟩ := ofDouble_spec hfinite hx
  have hle : (Neighbourhood.ofDouble x).below (leading - count) * 10 ^ (leading - count) ≤
      magnitudeOf (c + 1) := by
    rw [← hvalue, ← (mul_le_mul_scale hfinite hx _ _ (leading - count)).2]
    exact Nat.div_mul_le_self _ _
  have hten : (0 : ℚ) < 10 ^ (leading - count) := by positivity
  have hsplit : (10 : ℚ) ^ (leading + 1) = 10 ^ (count + 1) * 10 ^ (leading - count) := by
    rw [← zpow_natCast, ← zpow_add₀ (by norm_num)]
    congr 1
    push_cast
    ring
  have hlt := lt_of_mul_lt_mul_right (hsplit ▸ hle.trans_lt hleading) hten.le
  have hbelow : (Neighbourhood.ofDouble x).below (leading - count) < 10 ^ (count + 1) := by
    exact_mod_cast hlt
  -- the point is the multiple below the double, or the next one
  exact (contains_of_point?_eq_some h).2.trans hbelow

end Parcel.Shortest

namespace Parcel.Double

open Shortest

/-- **The digits of a double** are those of a point of a grid that is rounded to the double, and
there are at most seventeen of them. -/
theorem shortest_spec {x : Double} {c : ℕ} (hfinite : x.bits.toNat < infinityBits)
    (hx : x.bits.toNat = c + 1) (tie : Tie) : ∃ p unit,
      x.shortest tie = Digits.ofPoint p unit ∧ p ≤ 10 ^ 17 ∧
        NearestTo x.bits.toNat (p * 10 ^ unit) := by
  obtain ⟨hlow, hhigh⟩ := magnitudeOf_succ_bounds (hx ▸ hfinite)
  have hvalue : (x.ratio.1 : ℚ) / x.ratio.2 = magnitudeOf (c + 1) := hx ▸ ratio_div hfinite
  have hnum := ratio_num_pos hfinite (by
    rw [value, hx]
    exact (zpow_pos (by norm_num) _).trans_le hlow)
  obtain ⟨hleast, hgreatest⟩ := floorLog10_bounds hnum (ratio_den_pos x) (hvalue ▸ hlow)
    (hvalue ▸ hhigh)
  rw [hvalue] at hleast hgreatest
  obtain ⟨leading, hleading⟩ : ∃ leading, leading = floorLog10 x.ratio.1 x.ratio.2 := ⟨_, rfl⟩
  have hshortest : x.shortest tie = ((List.range maxDigits).findSome? fun count : ℕ =>
      ((Neighbourhood.ofDouble x).point? tie (leading - count)).map fun point =>
        Digits.ofPoint point (leading - count)).getD ⟨['0'], 0⟩ := by
    rw [hleading]
    rfl
  rw [← hleading] at hleast hgreatest
  -- the grid with seventeen digits has a point, if none before it has
  have hlast : (10 : ℚ) ^ (leading - (16 : ℕ)) * 10 ^ 16 ≤ magnitudeOf (c + 1) := by
    rw [zpow_sub₀ (by norm_num), zpow_natCast, div_mul_cancel₀ _ (by norm_num)]
    exact hleast
  obtain ⟨last, hpoint⟩ := @exists_point?_eq_some x tie _ c hfinite hx hlast
  rw [hshortest]
  generalize hfound : List.findSome? _ (List.range maxDigits) = found
  cases found with
  | none =>
    have hnone := List.findSome?_eq_none_iff.1 hfound 16 (List.mem_range.2 (by decide))
    rw [Option.map_eq_none_iff, hpoint] at hnone
    cases hnone
  | some digits =>
    obtain ⟨count, hcount, hsome⟩ := List.exists_of_findSome?_eq_some hfound
    obtain ⟨p, hp, rfl⟩ := Option.map_eq_some_iff.1 hsome
    have hle := le_pow_of_point?_eq_some hfinite hx hgreatest hp
    have hdigits : count + 1 ≤ 17 := List.mem_range.1 hcount
    exact ⟨p, leading - count, rfl, hle.trans (Nat.pow_le_pow_right (by norm_num) hdigits),
      nearestTo_of_point?_eq_some hfinite hx hp⟩

end Parcel.Double
