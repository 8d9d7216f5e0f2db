import Mathlib.Data.List.DropRight
import Parcel.Proofs.Double.Shortest
import Parcel.Proofs.Json.Decimal
import Parcel.Proofs.Json.Reread
import Parcel.Proofs.Json.Scaling

/-!
# Doubles in JSON text

A double is written with the digits that are rounded to it, and these digits fit the 64 bits of a
significand. So they are all gathered, and scaling makes one of the next few doubles of them. The
double itself comes back if the digits are few and lie near the point: then neither the significand
nor the power of ten is rounded. Zeros come back with their sign.

## Main definitions

* `Double.gathered`: the significand and the power of ten that the text of a double is read as
* `Double.reread`: the double that the text of a double is read as
* `Double.Survives`: how far that is from the double

## Main results

* `Double.isNumber_text`: every finite double is read
* `Double.survives_reread`: what it is read as
-/

namespace Parcel

open Numeral Shortest

namespace Shortest.Digits

variable {p : ℕ} {unit : ℤ}

/-- **The place of the last digit**, as a power of ten. -/
def lastPlace (d : Digits) : ℤ := d.exponent - d.digits.length + 1

/-- The significand that the digits stand for. -/
def significand (d : Digits) : ℕ := digitsValue d.digits

/-- **Few digits near the point**: neither they nor the power of ten are rounded. Of the integral
numbers that are written with a point, those with 16 digits are left out, as they get another one
behind the point. -/
structure Few (d : Digits) : Prop where
  length_le : d.digits.length ≤ 15
  place_le : d.lastPlace.natAbs ≤ 22
  exponent_ne : d.exponent ≠ 15

/-- **Digits of a number**: there is a first one, and it is not zero. -/
structure IsProper (d : Digits) : Prop where
  ne_nil : d.digits ≠ []
  isDigit : ∀ c ∈ d.digits, c.isDigit = true
  head?_ne : d.digits.head? ≠ some '0'

/-- The digits of a number are those that are kept and zeros. -/
theorem exists_toDigits_eq (p : ℕ) (unit : ℤ) : ∃ zeros,
    Nat.toDigits 10 p = (ofPoint p unit).digits ++ List.replicate zeros '0' := by
  obtain ⟨all, hall⟩ : ∃ all, all = Nat.toDigits 10 p := ⟨_, rfl⟩
  have hkept : (ofPoint p unit).digits = all.rdropWhile (· == '0') := by
    rw [hall]
    rfl
  have hzeros : all.rtakeWhile (· == '0') = List.replicate (all.rtakeWhile (· == '0')).length '0' :=
    List.eq_replicate_iff.2 ⟨rfl, fun c hc => by simpa using List.mem_rtakeWhile_imp hc⟩
  exact ⟨_, by rw [hkept, ← hzeros, List.rdropWhile_append_rtakeWhile, hall]⟩

/-- **The digits of a point of a grid** stand for it. -/
theorem ofPoint_spec (hp : p ≠ 0) (unit : ℤ) :
    (ofPoint p unit).IsProper ∧ (ofPoint p unit).significand ≤ p ∧
      ((ofPoint p unit).significand * 10 ^ (ofPoint p unit).lastPlace : ℚ) = p * 10 ^ unit := by
  obtain ⟨zeros, hall⟩ := exists_toDigits_eq p unit
  obtain ⟨d, hd⟩ : ∃ d, d = ofPoint p unit := ⟨_, rfl⟩
  -- the digits that are left out are zeros, and stand in the last places
  have hvalue : p = d.significand * 10 ^ zeros := by
    have h := congrArg digitsValue hall
    rwa [digitsValue_toDigits, digitsValue_append, digitsValue_replicate, List.length_replicate,
      Nat.add_zero, ← hd] at h
  have hplace : d.lastPlace = unit + zeros := by
    have hlength := congrArg List.length hall
    have hexponent : d.exponent = unit + (Nat.toDigits 10 p).length - 1 := hd ▸ rfl
    rw [List.length_append, List.length_replicate, ← hd] at hlength
    rw [lastPlace, hexponent]
    omega
  rw [← hd] at hall ⊢
  refine ⟨⟨fun hnil => hp ?_, fun c hc => ?_, ?_⟩, ?_, ?_⟩
  · rw [hvalue, significand, hnil]
    exact Nat.zero_mul _
  · exact isDigit_of_mem_toDigits c (hall ▸ List.mem_append_left _ hc)
  · exact fun h => head?_toDigits_ne hp (by rw [hall, List.head?_append, h]; rfl)
  · rw [hvalue]
    exact Nat.le_mul_of_pos_right _ (by positivity)
  · rw [hplace, hvalue, zpow_add₀ (by norm_num), zpow_natCast]
    push_cast
    ring

/-- Digits stand for less than the power of ten with as many zeros. -/
theorem IsProper.significand_lt {d : Digits} (h : d.IsProper) :
    d.significand < 10 ^ d.digits.length := by
  obtain ⟨-, hdigit, -⟩ := h
  rw [significand]
  generalize d.digits = digits at hdigit
  -- each digit is nine at most at its place
  induction digits with
  | nil => norm_num [digitsValue]
  | cons c ds ih =>
    rw [List.forall_mem_cons] at hdigit
    have hc : digitValue c ≤ 9 := by
      have := (Char.isDigit_iff_toNat.1 hdigit.1).2
      rw [digitValue]
      exact Nat.sub_le_sub_right this _
    have hvalue : digitsValue (c :: ds) = digitValue c * 10 ^ ds.length + digitsValue ds := by
      have h := digitsValue_append [c] ds
      rwa [List.singleton_append, show digitsValue [c] = digitValue c from Nat.zero_add _] at h
    have := ih hdigit.2
    have := Nat.mul_le_mul_right (10 ^ ds.length) hc
    rw [hvalue, List.length_cons, pow_succ]
    omega

end Shortest.Digits

open Shortest.Digits

namespace Double

variable {x y : Double} {c : ℕ}

/-! ## What is gathered -/

/-- **The digits of a double.** -/
theorem shortest_digits (hfinite : x.bits.toNat < infinityBits) (hx : x.bits.toNat = c + 1)
    (tie : Tie) : (x.shortest tie).IsProper ∧ 0 < (x.shortest tie).significand ∧
      (x.shortest tie).significand ≤ 10 ^ 17 ∧
      NearestTo x.bits.toNat ((x.shortest tie).significand * 10 ^ (x.shortest tie).lastPlace) := by
  obtain ⟨p, unit, hshortest, hle, hnearest⟩ := shortest_spec hfinite hx tie
  -- nothing is rounded to zero but zero
  have hpos {n : ℕ} {place : ℤ} (h : NearestTo x.bits.toNat (n * 10 ^ place)) : 0 < n := by
    refine Nat.pos_of_ne_zero fun hzero => ?_
    have hlow := h.low c hx
    rw [hzero, Nat.cast_zero, zero_mul] at hlow
    linarith [magnitudeOf_lt_midpoint c, magnitudeOf_nonneg c]
  obtain ⟨hproper, hsignificand, hvalue⟩ := ofPoint_spec (hpos hnearest).ne' unit
  rw [← hvalue] at hnearest
  rw [hshortest]
  exact ⟨hproper, hpos hnearest, hsignificand.trans hle, hnearest⟩

/-- **What the text of a positive double is read as**: the significand and the power of ten. -/
def gathered (x : Double) : ℕ × ℤ :=
  let d := x.shortest .toEven
  if 0 ≤ d.exponent ∧ d.exponent ≤ 15 ∧ 0 ≤ d.lastPlace then
    (d.significand * Nat.pow 10 (d.lastPlace + 1).toNat, -1)
  else (d.significand, d.lastPlace)

theorem magnitude_eq (x : Double) : Json.doubleStyle.magnitude x =
    let d := x.shortest .toEven
    if -5 ≤ d.exponent ∧ d.exponent ≤ 15 then DecimalStyle.positional d.digits d.exponent
    else DecimalStyle.scientific ['+'] d.digits d.exponent := by
  rw [DecimalStyle.magnitude, show Json.doubleStyle.tie = .toEven from rfl]
  generalize x.shortest .toEven = d
  rfl

/-- **The text of a positive double** is read as what is gathered. -/
theorem written_magnitude (hdigits : (x.shortest .toEven).IsProper) :
    Json.Written (Json.doubleStyle.magnitude x) x.gathered.1 x.gathered.2 := by
  rw [magnitude_eq, gathered]
  generalize x.shortest .toEven = d at hdigits
  obtain ⟨hne, hdigit, hhead⟩ := hdigits
  have hplace : d.lastPlace = d.exponent - d.digits.length + 1 := rfl
  have hlength := List.length_pos_of_ne_nil hne
  dsimp only
  -- one case for each layout: integers with their zeros, other positional ones, and exponents
  by_cases hzero : 0 ≤ d.exponent ∧ d.exponent ≤ 15 ∧ 0 ≤ d.lastPlace
  · have hwritten := Json.written_positional_zero hne hdigit hhead hzero.1 (hplace ▸ hzero.2.2)
    rw [if_pos hzero, if_pos ⟨by omega, hzero.2.1⟩, hplace, add_assoc, one_add_one_eq_two]
    exact hwritten
  · rw [if_neg hzero, hplace]
    by_cases hpositional : -5 ≤ d.exponent ∧ d.exponent ≤ 15
    · rw [if_pos hpositional]
      exact Json.written_positional hne hdigit hhead (by omega)
    · rw [if_neg hpositional]
      exact Json.written_scientific hne hdigit hhead

/-- **What is gathered** fits a significand and is rounded to the double. -/
theorem gathered_spec (hfinite : x.bits.toNat < infinityBits) (hx : x.bits.toNat = c + 1) :
    0 < x.gathered.1 ∧ x.gathered.1 < 2 ^ 64 ∧
      NearestTo x.bits.toNat (x.gathered.1 * 10 ^ x.gathered.2) := by
  obtain ⟨hproper, hpos, hle, hnearest⟩ := shortest_digits hfinite hx .toEven
  have hlt := hproper.significand_lt
  rw [gathered]
  generalize x.shortest .toEven = d at *
  by_cases hzero : 0 ≤ d.exponent ∧ d.exponent ≤ 15 ∧ 0 ≤ d.lastPlace
  · -- the zeros up to the point and the one behind it are gathered as well
    obtain ⟨zeros, hzeros⟩ := Int.eq_ofNat_of_zero_le hzero.2.2
    have hcount : (d.lastPlace + 1).toNat = zeros + 1 := by omega
    have hdigits : d.digits.length + zeros ≤ 16 := by
      have : d.lastPlace = d.exponent - d.digits.length + 1 := rfl
      omega
    rw [if_pos hzero, hcount, Nat.pow_eq]
    refine ⟨by positivity, ?_, ?_⟩
    · calc d.significand * 10 ^ (zeros + 1) < 10 ^ d.digits.length * 10 ^ (zeros + 1) :=
            Nat.mul_lt_mul_of_pos_right hlt (by positivity)
        _ = 10 ^ (d.digits.length + zeros + 1) := by rw [← pow_add, ← add_assoc]
        _ ≤ 10 ^ 17 := Nat.pow_le_pow_right (by norm_num) (by omega)
        _ < 2 ^ 64 := by norm_num
    · convert hnearest using 1
      rw [hzeros, zpow_natCast, pow_succ]
      push_cast
      rw [zpow_neg_one]
      ring
  · rw [if_neg hzero]
    exact ⟨hpos, hle.trans_lt (by norm_num), hnearest⟩

/-- The power of ten is as small as the place of the last digit at least. -/
theorem le_gathered (hplace : -308 ≤ (x.shortest .toEven).lastPlace) : -308 ≤ x.gathered.2 := by
  rw [gathered]
  generalize x.shortest .toEven = d at hplace
  split <;> omega

/-- **Few digits** are gathered without a loss. -/
theorem gathered_of_few (hproper : (x.shortest .toEven).IsProper)
    (hfew : (x.shortest .toEven).Few) :
    (ofNat x.gathered.1).value = x.gathered.1 ∧ x.gathered.2.natAbs ≤ 22 := by
  have hlt := hproper.significand_lt
  rw [gathered]
  generalize x.shortest .toEven = d at *
  obtain ⟨hlength, hplace, hexponent⟩ := hfew
  by_cases hzero : 0 ≤ d.exponent ∧ d.exponent ≤ 15 ∧ 0 ≤ d.lastPlace
  · obtain ⟨zeros, hzeros⟩ := Int.eq_ofNat_of_zero_le hzero.2.2
    have hcount : (d.lastPlace + 1).toNat = zeros + 1 := by omega
    have hdigits : d.digits.length + zeros ≤ 15 := by
      have : d.lastPlace = d.exponent - d.digits.length + 1 := rfl
      omega
    rw [if_pos hzero, hcount, Nat.pow_eq]
    -- the digit behind the point makes the significand even
    have hhalf : d.significand * 10 ^ (zeros + 1) = 5 * (d.significand * 10 ^ zeros) * 2 ^ 1 := by
      rw [pow_succ]
      ring
    have hless : d.significand * 10 ^ zeros < 10 ^ 15 :=
      calc d.significand * 10 ^ zeros < 10 ^ d.digits.length * 10 ^ zeros :=
            Nat.mul_lt_mul_of_pos_right hlt (by positivity)
        _ = 10 ^ (d.digits.length + zeros) := (pow_add ..).symm
        _ ≤ 10 ^ 15 := Nat.pow_le_pow_right (by norm_num) hdigits
    rw [hhalf]
    exact ⟨value_ofNat (by omega) (le_greatest_of_lt (by omega)), by norm_num⟩
  · have hless : d.significand < 10 ^ 15 :=
      hlt.trans_le (Nat.pow_le_pow_right (by norm_num) hlength)
    have hvalue := @value_ofNat d.significand 0 (by omega) (le_greatest_of_lt (by omega))
    rw [pow_zero, mul_one] at hvalue
    rw [if_neg hzero]
    exact ⟨hvalue, hplace⟩

/-! ## What is read -/

/-- The greatest double. -/
def greatestDouble : Double := ⟨0x7fefffffffffffff⟩

/-- The two greatest doubles are both read as the greatest one. -/
theorem readNear_greatestDouble {b significand : ℕ} (hfinite : b < infinityBits)
    (hroom : infinityBits ≤ b + 2) : ReadNear b significand 292 greatestDouble := by
  have := infinityBits_eq
  have hgreatest : greatestDouble.bits.toNat = 0x7fefffffffffffff := by decide
  have hnear : Near 2 greatestDouble.bits.toNat b := ⟨by omega, by omega⟩
  exact ⟨by omega, ⟨by omega, by omega⟩, fun _ => hnear, fun _ hsmall => absurd hsmall (by decide)⟩

/-- **A positive double is read**, also where there is no room above it. -/
theorem exists_scaled?_gathered (hfinite : x.bits.toNat < infinityBits)
    (hx : x.bits.toNat = c + 1) : ∃ y, scaled? x.gathered.1 x.gathered.2 = some y ∧
      ReadNear x.bits.toNat x.gathered.1 x.gathered.2 y := by
  obtain ⟨hpos, hbound, hnearest⟩ := gathered_spec hfinite hx
  by_cases hroom : x.bits.toNat + 2 < infinityBits
  · exact exists_scaled?_eq hpos hbound (by omega) hroom hnearest
  · -- next to infinity there is no room for the error, but only two doubles are that close
    have := infinityBits_eq
    obtain ⟨bits⟩ := x
    have hcases : bits = 0x7fefffffffffffff ∨ bits = 0x7feffffffffffffe := by
      have h₁ : (0x7fefffffffffffff : UInt64).toNat = 0x7fefffffffffffff := by decide
      have h₂ : (0x7feffffffffffffe : UInt64).toNat = 0x7feffffffffffffe := by decide
      rw [← UInt64.toNat_inj, ← UInt64.toNat_inj]
      simp only at hfinite hroom
      omega
    have hnear {significand : ℕ} := @readNear_greatestDouble _ significand hfinite (by omega)
    rcases hcases with rfl | rfl
    · have hgathered : gathered ⟨0x7fefffffffffffff⟩ = (17976931348623157, 292) := by
        decide +kernel
      rw [hgathered]
      exact ⟨greatestDouble, by decide +kernel, hnear⟩
    · have hgathered : gathered ⟨0x7feffffffffffffe⟩ = (17976931348623155, 292) := by
        decide +kernel
      rw [hgathered]
      exact ⟨greatestDouble, by decide +kernel, hnear⟩

/-! ## Signs -/

/-- A double with the given sign. -/
def signed (negative : Bool) (y : Double) : Double :=
  if negative then y.neg else y

theorem toNat_bits_neg (hy : y.bits.toNat < infinityBits) :
    y.neg.bits.toNat = 2 ^ 63 + y.bits.toNat := by
  have := infinityBits_eq
  have hneg : y.isNegative = false := by
    rw [isNegative, BinaryFormat.isNegative, beq_eq_false_iff_ne]
    simp only [BinaryFormat.signBit, BinaryFormat.double, Nat.shiftLeft_eq]
    omega
  rw [neg, hneg, ofMagnitude, Bool.not_false, if_pos rfl, UInt64.toNat_ofNat']
  simp only [BinaryFormat.signBit, BinaryFormat.double, Nat.shiftLeft_eq]
  omega

theorem toNat_bits_signed (negative : Bool) (hy : y.bits.toNat < infinityBits) :
    (signed negative y).bits.toNat = (if negative then 2 ^ 63 else 0) + y.bits.toNat := by
  cases negative with
  | true => exact toNat_bits_neg hy
  | false => exact (Nat.zero_add _).symm

theorem isNegative_signed (negative : Bool) (hy : y.bits.toNat < infinityBits) :
    (signed negative y).isNegative = negative := by
  have := infinityBits_eq
  rw [isNegative, toNat_bits_signed negative hy, BinaryFormat.isNegative]
  simp only [BinaryFormat.signBit, BinaryFormat.double, Nat.shiftLeft_eq]
  cases negative with
  | true => simp; omega
  | false => simp; omega

theorem isFinite_signed (negative : Bool) (hy : y.bits.toNat < infinityBits) :
    (signed negative y).isFinite = true := by
  cases negative with
  | true => exact (isFinite_neg y).trans (isFinite_of_lt hy)
  | false => exact isFinite_of_lt hy

theorem toNat_bits_abs (x : Double) : x.abs.bits.toNat = x.bits.toNat % 2 ^ 63 := by
  have hlt : x.bits.toNat % 2 ^ 63 < 1 <<< 63 := Nat.mod_lt _ (by decide)
  exact toNat_bits_ofMagnitude hlt

/-- A finite double has a finite magnitude. -/
theorem bits_abs_lt (hx : x.isFinite = true) : x.abs.bits.toNat < infinityBits := by
  have := infinityBits_eq
  rw [toNat_bits_abs]
  simp only [isFinite, BinaryFormat.exponentField, BinaryFormat.topField, BinaryFormat.double,
    Nat.shiftRight_eq_div_pow, Nat.shiftLeft_eq, decide_eq_true_eq] at hx
  omega

/-- **A finite double is its magnitude with its sign.** -/
theorem signed_abs (hx : x.isFinite = true) : signed x.isNegative x.abs = x := by
  have hsize := x.bits.toNat_lt
  have hbits := toNat_bits_signed x.isNegative (bits_abs_lt hx)
  have hsign : (if x.isNegative then 2 ^ 63 else 0) + x.bits.toNat % 2 ^ 63 = x.bits.toNat := by
    simp only [isNegative, BinaryFormat.isNegative, BinaryFormat.signBit, BinaryFormat.double,
      Nat.shiftLeft_eq, beq_iff_eq]
    split <;> omega
  rw [toNat_bits_abs, hsign, UInt64.toNat_inj] at hbits
  exact congrArg Double.mk hbits

/-! ## Texts with a sign -/

/-- The text of a finite double: its sign and the text of its magnitude. -/
theorem text_of_isFinite (hx : x.isFinite = true) : Json.doubleStyle.text x =
    minus x.isNegative ++ if x.isZero then "0.0".toList else Json.doubleStyle.magnitude x.abs := by
  have hnan : x.isNaN = false := by simp [isNaN, hx]
  have hinfinite : x.isInfinite = false := by simp [isInfinite, hx]
  simp only [DecimalStyle.text, hnan, hinfinite, Bool.false_eq_true, if_false]
  rfl

theorem written_zero : Json.Written "0.0".toList 0 (-1) :=
  Json.written_point (isWhole_toDigits 0) (List.cons_ne_nil '0' [])
    (List.forall_mem_singleton.2 rfl)

/-- **Every finite double is read** as a magnitude with its sign: zero as zero, and any other as
what its digits are scaled to. -/
theorem exists_isNumber_text (hx : x.isFinite = true) : ∃ y, y.bits.toNat < infinityBits ∧
    Json.IsNumber (Json.doubleStyle.text x) (.double (signed x.isNegative y)) ∧
    (y = x.abs ∨ x.isZero = false ∧ (x.abs.shortest .toEven).IsProper ∧
      ReadNear x.abs.bits.toNat x.abs.gathered.1 x.abs.gathered.2 y) := by
  have hfinite := bits_abs_lt hx
  rw [text_of_isFinite hx]
  -- zeros have a form of their own, which is read as a zero of the same sign
  by_cases hzero : x.isZero = true
  · have hscaled : scaled? 0 (-1) = some zero := by decide +kernel
    have habs : zero = x.abs := by
      have hbits : x.bits.toNat % 2 ^ 63 = 0 := by
        simpa [isZero, BinaryFormat.signBit, BinaryFormat.double, Nat.shiftLeft_eq] using hzero
      have hsame := (toNat_bits_abs x).trans hbits
      exact congrArg Double.mk (UInt64.toNat_inj.1 hsame.symm)
    rw [if_pos hzero]
    exact ⟨zero, by decide, written_zero.isNumber (by decide) hscaled x.isNegative, .inl habs⟩
  · obtain ⟨c, hc⟩ : ∃ c, x.abs.bits.toNat = c + 1 := by
      refine Nat.exists_eq_succ_of_ne_zero fun hbits => hzero ?_
      rw [toNat_bits_abs] at hbits
      simpa [isZero, BinaryFormat.signBit, BinaryFormat.double, Nat.shiftLeft_eq] using hbits
    obtain ⟨y, hscaled, hy⟩ := exists_scaled?_gathered hfinite hc
    have hproper := (shortest_digits hfinite hc .toEven).1
    have hbound : x.abs.gathered.1 < significandBound := (gathered_spec hfinite hc).2.1
    rw [if_neg hzero]
    exact ⟨y, hy.finite, (written_magnitude hproper).isNumber hbound hscaled x.isNegative,
      .inr ⟨Bool.eq_false_iff.2 hzero, hproper, hy⟩⟩

/-- **The double that the text of a double is read as.** -/
def reread (x : Double) : Double :=
  match Json.parse? (Json.toText (.double x)) with
  | some (.double y) => y
  | _ => x

theorem reread_eq (hx : x.isFinite = true)
    (h : Json.IsNumber (Json.doubleStyle.text x) (.double y)) : x.reread = y := by
  have hreread : Json.Reread (fun _ => y) (.double x) := Json.reread_double.2 h
  have hparse := Json.parse?_toText (Json.proper_double.2 hx) hreread (Nat.zero_le _)
  rw [reread, hparse, Json.mapDoubles]

/-- **What becomes of a double in JSON text.** -/
structure Survives (x y : Double) : Prop where
  /-- It stays finite. -/
  finite : y.isFinite = true
  /-- It keeps its sign, also as a zero. -/
  sign : y.isNegative = x.isNegative
  /-- At most it becomes the third next double. -/
  near : Near 3 y.bits.toNat x.bits.toNat
  /-- At most it becomes the second next, if its last digit is not too small for one step. -/
  near_of_le : -308 ≤ (x.abs.shortest .toEven).lastPlace → Near 2 y.bits.toNat x.bits.toNat
  /-- It stays the same if its digits are few and near the point. -/
  eq_of_few : (x.abs.shortest .toEven).Few → y = x
  /-- A zero stays the same. -/
  eq_of_isZero : x.isZero = true → y = x

/-- **Every finite double is read** as its reread double. -/
theorem isNumber_text (hx : x.isFinite = true) :
    Json.IsNumber (Json.doubleStyle.text x) (.double x.reread) := by
  obtain ⟨y, -, hnumber, -⟩ := exists_isNumber_text hx
  rwa [reread_eq hx hnumber]

/-- **What becomes of a finite double in JSON text.** -/
theorem survives_reread (hx : x.isFinite = true) : Survives x x.reread := by
  obtain ⟨y, hfinite, hnumber, hy⟩ := exists_isNumber_text hx
  rw [reread_eq hx hnumber]
  have hsame := signed_abs hx
  have hbits := toNat_bits_signed x.isNegative hfinite
  have hbits' := toNat_bits_signed x.isNegative (bits_abs_lt hx)
  rw [hsame] at hbits'
  -- the sign adds the same to both
  have hnear {k : ℕ} (h : Near k y.bits.toNat x.abs.bits.toNat) :
      Near k (signed x.isNegative y).bits.toNat x.bits.toNat := by
    obtain ⟨hle, hge⟩ := h
    exact ⟨by omega, by omega⟩
  have heq (h : y = x.abs) : signed x.isNegative y = x := by rw [h, hsame]
  have hfinite' := isFinite_signed x.isNegative hfinite
  have hsign := isNegative_signed x.isNegative hfinite
  rcases hy with hy | ⟨hzero, hproper, hy⟩
  · have hself (k : ℕ) : Near k y.bits.toNat x.abs.bits.toNat :=
      hy ▸ ⟨Nat.le_add_right _ _, Nat.le_add_right _ _⟩
    exact ⟨hfinite', hsign, hnear (hself 3), fun _ => hnear (hself 2), fun _ => heq hy,
      fun _ => heq hy⟩
  · refine ⟨hfinite', hsign, hnear hy.near,
      fun hplace => hnear (hy.near_of_le (le_gathered hplace)),
      fun hfew => heq ?_, fun h => absurd (h.symm.trans hzero) (by decide)⟩
    obtain ⟨hexact, hsmall⟩ := gathered_of_few hproper hfew
    exact congrArg Double.mk (UInt64.toNat_inj.1 (hy.eq_of_exact hexact hsmall))

end Double

/-- **Proper values can be read back**: all of their doubles are finite. -/
theorem Json.reread_of_proper {v : Json} (hv : Json.Proper v) : Json.Reread Double.reread v := by
  refine hv.imp fun v hhere => ?_
  cases v with
  | double x => exact Double.isNumber_text hhere
  | _ => trivial

end Parcel
