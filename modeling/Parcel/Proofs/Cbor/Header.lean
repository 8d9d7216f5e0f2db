import Parcel.Cbor.Header
import Parcel.Cbor.Writer

/-!
# Written headers are read back

A header is written in the shortest of five forms and read in all of them. What follows the header
stays as it is.

## Main results

* `readNumber_bigEndian`: fixed-width numbers are read back
* `read_head`: a major type and its argument are read back, whatever the form
* `read_doubleBytes`: a double is read back with all its bits, whatever the precision
-/

namespace Parcel

/-! ## Numbers of fixed width -/

namespace Bytes

theorem toNat_concat (b : Bytes) (x : UInt8) : toNat (b ++ [x]) = 256 * toNat b + x.toNat := by
  simp [toNat]

/-- What fits the width is the number that its digits stand for. -/
theorem toNat_bigEndian {width n : Nat} (hn : n < Nat.pow 256 width) :
    toNat (bigEndian width n) = n := by
  induction width generalizing n with
  | zero =>
    obtain rfl : n = 0 := Nat.lt_one_iff.1 hn
    rfl
  | succ width ih =>
    have hquotient : n / 256 < Nat.pow 256 width := Nat.div_lt_of_lt_mul (by
      rw [Nat.mul_comm]
      exact hn)
    rw [bigEndian, toNat_concat, ih hquotient, UInt8.toNat_ofNat']
    omega

end Bytes

/-! ## Bits of narrow doubles -/

/-- The bits of a magnitude leave the sign bit free. -/
theorem BinaryFormat.infinityBits_add_lt (fmt : BinaryFormat) {fraction : Nat}
    (hfraction : fraction < 1 <<< fmt.fractionBits) :
    fmt.infinityBits + fraction < fmt.signBit := by
  have hexponent : 0 < 2 ^ fmt.exponentBits := Nat.two_pow_pos _
  simp only [infinityBits, topField, signBit, Nat.shiftLeft_eq, Nat.one_mul, Nat.pow_add,
    Nat.sub_mul] at *
  have hle := Nat.le_mul_of_pos_left (2 ^ fmt.fractionBits) hexponent
  rw [Nat.mul_comm (2 ^ fmt.fractionBits)]
  omega

theorem BinaryFormat.nearest_lt_signBit (fmt : BinaryFormat) (num den : Nat) :
    fmt.nearest num den < fmt.signBit := by
  have hpos : 0 < 1 <<< fmt.fractionBits := by
    rw [Nat.shiftLeft_eq, Nat.one_mul]
    exact Nat.two_pow_pos _
  have hinfinity := fmt.infinityBits_add_lt hpos
  rw [nearest]
  split
  · omega
  · exact Nat.lt_of_le_of_lt (Nat.min_le_right _ _) hinfinity

/-- The bits of a double in a narrower format fit that format. -/
theorem Double.lt_of_narrow?_eq_some {fmt : BinaryFormat}
    (hfmt : fmt.fractionBits ≤ BinaryFormat.double.fractionBits) {x : Double} {bits : Nat}
    (h : narrow? fmt x = some bits) : bits < 2 * fmt.signBit := by
  rw [narrow?, Option.ite_none_right_eq_some, Option.some.injEq] at h
  obtain ⟨-, rfl⟩ := h
  have hfraction : BinaryFormat.double.fractionField x.bits.toNat
      >>> (BinaryFormat.double.fractionBits - fmt.fractionBits) < 1 <<< fmt.fractionBits := by
    rw [BinaryFormat.fractionField, Nat.shiftRight_eq_div_pow, Nat.shiftLeft_eq, Nat.shiftLeft_eq,
      Nat.one_mul, Nat.one_mul]
    refine Nat.div_lt_of_lt_mul ?_
    rw [← Nat.pow_add, Nat.sub_add_cancel hfmt]
    exact Nat.mod_lt _ (Nat.two_pow_pos _)
  have hnearest := fmt.nearest_lt_signBit x.ratio.1 x.ratio.2
  have hbeyond := fmt.infinityBits_add_lt hfraction
  -- infinities and rounded magnitudes, both with either sign
  simp only [narrowed]
  split <;> split <;> omega

namespace Cbor

theorem readNumber_bigEndian {width n : Nat} (hn : n < Nat.pow 256 width) (rest : Bytes) :
    readNumber width (Bytes.bigEndian width n ++ rest) = .ok (n, rest) := by
  have htake : (Bytes.bigEndian width n ++ rest).take width = Bytes.bigEndian width n :=
    List.take_left' (Bytes.length_bigEndian width n)
  have hdrop : (Bytes.bigEndian width n ++ rest).drop width = rest :=
    List.drop_left' (Bytes.length_bigEndian width n)
  rw [readNumber, htake, hdrop, Bytes.toNat_bigEndian hn, if_neg (by simp)]

/-! ## Headers -/

namespace Header

/-- What the first byte and the argument behind it say about an item. -/
theorem read_cons (major additional : Nat) {argument : Option Nat} (hmajor : major < 8)
    (hadditional : additional < 32) {behind rest : Bytes}
    (hargument : readArgument additional behind = .ok (argument, rest)) {header : Header}
    (hheader : ofArgument major additional argument = .ok header) :
    read (UInt8.ofNat (32 * major + additional) :: behind) = .ok (header, rest) := by
  have hfirst : (UInt8.ofNat (32 * major + additional)).toNat = 32 * major + additional := by
    rw [UInt8.toNat_ofNat']
    omega
  have hdiv : (32 * major + additional) / 32 = major := by omega
  have hmod : (32 * major + additional) % 32 = additional := by omega
  simp only [read, hfirst, hdiv, hmod, hargument, hheader]

end Header

theorem readArgument_wide {additional width n : Nat} (hwide : (additional, width) ∈
      [(24, 1), (25, 2), (26, 4), (27, 8)])
    (hn : n < Nat.pow 256 width) (rest : Bytes) :
    readArgument additional (Bytes.bigEndian width n ++ rest) = .ok (some n, rest) := by
  have hread := readNumber_bigEndian hn rest
  simp only [List.mem_cons, Prod.mk.injEq, List.not_mem_nil, or_false] at hwide
  rcases hwide with ⟨rfl, rfl⟩ | ⟨rfl, rfl⟩ | ⟨rfl, rfl⟩ | ⟨rfl, rfl⟩ <;>
    simp [readArgument, hread]

/-- **A written header is read back**: the argument decides about the form, and the form leaves no
trace in what is read. -/
theorem read_head (major : Nat) (header : Header) {n : Nat} (hmajor : major < 8)
    (hn : n < Item.argumentBound)
    (hheader : ∀ additional < 28, Header.ofArgument major additional (some n) = .ok header)
    (rest : Bytes) : Header.read (head major n ++ rest) = .ok (header, rest) := by
  -- one case for each form of the header
  simp only [head]
  split
  · next h =>
    exact Header.read_cons major n hmajor (by omega) (by simp [readArgument, h])
      (hheader n (by omega))
  · split
    · next h =>
      exact Header.read_cons major 24 hmajor (by decide)
        (readArgument_wide (by simp) h rest) (hheader 24 (by decide))
    · split
      · next h =>
        exact Header.read_cons major 25 hmajor (by decide)
          (readArgument_wide (by simp) h rest) (hheader 25 (by decide))
      · split
        · next h =>
          exact Header.read_cons major 26 hmajor (by decide)
            (readArgument_wide (by simp) h rest) (hheader 26 (by decide))
        · exact Header.read_cons major 27 hmajor (by decide)
            (readArgument_wide (by simp) hn rest) (hheader 27 (by decide))

/-! ## Doubles -/

/-- **A written double is read back** with all its bits. -/
theorem read_doubleBytes (x : Double) (rest : Bytes) :
    Header.read (doubleBytes x ++ rest) = .ok (.double x, rest) := by
  -- a narrow format is only taken if the double can be had back from it
  simp only [doubleBytes]
  split
  · next bits hbits =>
    have hwiden := Double.widen_of_narrow?_eq_some hbits
    have hlt := Double.lt_of_narrow?_eq_some (by decide) hbits
    exact Header.read_cons 7 25 (by decide) (by decide)
      (readArgument_wide (by simp) hlt rest) (by simp [Header.ofArgument, hwiden])
  · split
    · next bits hbits =>
      have hwiden := Double.widen_of_narrow?_eq_some hbits
      have hlt := Double.lt_of_narrow?_eq_some (by decide) hbits
      exact Header.read_cons 7 26 (by decide) (by decide)
        (readArgument_wide (by simp) hlt rest) (by simp [Header.ofArgument, hwiden])
    · exact Header.read_cons 7 27 (by decide) (by decide)
        (readArgument_wide (by simp) x.bits.toNat_lt rest) (by simp [Header.ofArgument])

end Cbor

end Parcel
