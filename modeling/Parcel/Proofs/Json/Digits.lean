import Parcel.Json.Numeral
import Parcel.Json.Printer

/-!
# Written numbers

A number is read from the front of a text up to the first character that cannot belong to it. Its
sign, its whole part, its fraction and its exponent are found where they were written, as digits end
where something else begins. So an integer in range is read back from its decimal digits, at both
ends of the range and with its sign; minus zero is never written for an integer.

## Main definitions

* `Numeral.Stops`, `Numeral.Ends`: a text that goes on without digits, or without any part of a
  number
* `Numeral.IsWhole`: digits that can be a whole part
* `Json.IsNumber`: a text that is read as a number of the given value, whatever ends it

## Main results

* `Numeral.read?_append`: the parts of a number
* `Json.isNumber_integerText`: an integer in range is read back
-/

namespace Parcel

namespace Numeral

variable {c : Char} {ds cs rest : List Char}

/-- A text that does not go on with a digit. -/
def Stops (rest : List Char) : Prop :=
  ∀ c ∈ rest.head?, c.isDigit = false

/-- **A text that ends a number**: it does not go on with a digit, a point or an exponent. -/
def Ends (rest : List Char) : Prop :=
  ∀ c ∈ rest.head?, c.isDigit = false ∧ c ≠ '.' ∧ c ≠ 'e' ∧ c ≠ 'E'

theorem Ends.stops (h : Ends rest) : Stops rest := fun c hc => (h c hc).1

/-! ## Digits -/

/-- **Digits end where something else begins.** -/
theorem digits_append (hds : ∀ d ∈ ds, d.isDigit = true) (hrest : Stops rest) :
    digits (ds ++ rest) = (ds, rest) := by
  have hnone : rest.takeWhile Char.isDigit = [] ∧ rest.dropWhile Char.isDigit = rest := by
    cases rest with
    | nil => exact ⟨rfl, rfl⟩
    | cons c cs =>
      have hc : ¬ c.isDigit = true := Bool.not_eq_true _ ▸ hrest c rfl
      exact ⟨List.takeWhile_cons_of_neg hc, List.dropWhile_cons_of_neg hc⟩
  rw [digits, List.takeWhile_append_of_pos hds, List.dropWhile_append_of_pos hds, hnone.1, hnone.2,
    List.append_nil]

theorem digitsValue_eq_ofDigitChars (ds : List Char) :
    digitsValue ds = Nat.ofDigitChars 10 ds 0 :=
  Nat.ofDigitChars_eq_foldl.symm

@[simp] theorem digitsValue_toDigits (n : Nat) : digitsValue (Nat.toDigits 10 n) = n :=
  (digitsValue_eq_ofDigitChars _).trans Nat.ofDigitChars_ten_toDigits

theorem isDigit_of_mem_toDigits {n : Nat} : ∀ d ∈ Nat.toDigits 10 n, d.isDigit = true :=
  fun _ => Nat.isDigit_of_mem_toDigits (by decide) (by decide)

/-- The digits of a positive number do not start with a zero. -/
theorem head?_toDigits_ne {n : Nat} (hn : n ≠ 0) : (Nat.toDigits 10 n).head? ≠ some '0' := by
  induction n using Nat.strongRecOn with
  | ind n ih =>
    by_cases hlt : n < 10
    · rw [Nat.toDigits_of_lt_base hlt, List.head?_cons, ne_eq, Option.some.injEq,
        Nat.digitChar_eq_zero]
      exact hn
    · -- the first digit is that of the number without its last one
      have hrest := ih (n / 10) (by omega) (by omega)
      obtain ⟨d, ds, hds⟩ :=
        List.exists_cons_of_ne_nil (Nat.toDigits_ne_nil (n := n / 10) (b := 10))
      rw [hds] at hrest
      rwa [Nat.toDigits_of_base_le (by decide) (by omega), hds, List.cons_append]

/-! ## Parts of a number -/

/-- **Digits that can be a whole part**: a zero alone, or digits that do not start with one. -/
structure IsWhole (ds : List Char) : Prop where
  ne_nil : ds ≠ []
  isDigit : ∀ d ∈ ds, d.isDigit = true
  eq_zero : ds.head? = some '0' → ds = ['0']

theorem isWhole_toDigits (n : Nat) : IsWhole (Nat.toDigits 10 n) where
  ne_nil := Nat.toDigits_ne_nil
  isDigit := isDigit_of_mem_toDigits
  eq_zero h := by
    have hn : n = 0 := Classical.byContradiction fun hn => head?_toDigits_ne hn h
    rw [hn, Nat.toDigits_zero]

theorem whole?_append (hds : IsWhole ds) (hrest : Stops rest) :
    whole? (ds ++ rest) = some (ds, rest) := by
  rw [whole?, digits_append hds.isDigit hrest]
  split
  · next heq =>
    cases heq
    exact absurd rfl hds.ne_nil
  · next heq =>
    cases heq
    simpa using hds.eq_zero rfl
  · next heq => exact congrArg some heq.symm

theorem fraction?_ends (hrest : Ends rest) : fraction? rest = some ([], rest) := by
  unfold fraction?
  split
  · exact absurd rfl (hrest _ rfl).2.1
  · rfl

theorem exponent?_ends (hrest : Ends rest) : exponent? rest = some (none, rest) := by
  cases rest with
  | nil => rfl
  | cons c cs =>
    obtain ⟨-, -, hlower, hupper⟩ := hrest c rfl
    rw [exponent?, if_neg (not_or.2 ⟨hlower, hupper⟩)]

/-- The minus sign of a number, if it has one. -/
def minus (negative : Bool) : List Char :=
  if negative then ['-'] else []

theorem space_le_of_isDigit (hc : c.isDigit = true) : 0x20 ≤ c.toNat := by
  have hlow := (Char.isDigit_iff_toNat.1 hc).1
  exact Nat.le_trans (by decide) hlow

theorem space_le_of_mem_minus {negative : Bool} : ∀ c ∈ minus negative, 0x20 ≤ c.toNat := by
  cases negative <;> simp [minus]

/-- **The parts of a number** are found where they were written. -/
theorem read?_append {negative : Bool} {fraction behind : List Char} {exponent : Option Int}
    (hds : IsWhole ds) (hcs : Stops cs) (hfraction : fraction? cs = some (fraction, behind))
    (hexponent : exponent? behind = some (exponent, rest)) :
    read? (minus negative ++ ds ++ cs) =
      some (⟨negative, ds, fraction, exponent.getD 0, fraction.isEmpty && exponent.isNone⟩,
        rest) := by
  cases negative with
  | true =>
    simp [minus, read?, whole?_append hds hcs, hfraction, hexponent]
  | false =>
    have hwhole := whole?_append hds hcs
    -- a digit is no minus sign
    obtain ⟨d, ds, rfl⟩ := List.exists_cons_of_ne_nil hds.ne_nil
    have hd : d ≠ '-' := by
      rintro rfl
      exact absurd (hds.isDigit _ List.mem_cons_self) (by decide)
    simp only [minus, Bool.false_eq_true, if_false, List.nil_append, List.cons_append] at hwhole ⊢
    simp [read?, hd, hwhole, hfraction, hexponent]

end Numeral

namespace Json

open Numeral

/-- **A text that is read as a number** of the given value: it starts with a digit or a minus sign,
has no controls, and all of it is read if what stands behind it ends a number. -/
structure IsNumber (text : List Char) (v : Json) : Prop where
  starts : ∃ c ∈ text.head?, c = '-' ∨ c.isDigit = true
  visible : ∀ c ∈ text, 0x20 ≤ c.toNat
  reads : ∀ rest, Ends rest → ∃ numeral, Numeral.read? (text ++ rest) = some (numeral, rest) ∧
    numeral.value? = some v

theorem integerText_eq (n : Int) :
    integerText n = minus (n < 0) ++ Nat.toDigits 10 n.natAbs := by
  rw [integerText, minus]
  by_cases hneg : n < 0 <;> simp [hneg]

/-- **An integer in range is read back** from its digits. -/
theorem isNumber_integerText {n : Int} (hn : isIntegerInRange n = true) :
    IsNumber (integerText n) (.integer n) where
  starts := by
    obtain ⟨d, ds, hds⟩ :=
      List.exists_cons_of_ne_nil (Nat.toDigits_ne_nil (n := n.natAbs) (b := 10))
    have hd : d.isDigit = true := isDigit_of_mem_toDigits d (hds ▸ List.mem_cons_self)
    rw [integerText_eq, minus, hds]
    by_cases hneg : n < 0
    · exact ⟨'-', by simp [hneg], .inl rfl⟩
    · exact ⟨d, by simp [hneg], .inr hd⟩
  visible c hc := by
    rw [integerText_eq, List.mem_append] at hc
    rcases hc with hc | hc
    · exact space_le_of_mem_minus c hc
    · exact space_le_of_isDigit (isDigit_of_mem_toDigits c hc)
  reads rest hrest := by
    -- the digits are those of the magnitude, and only a positive magnitude has a sign
    obtain ⟨magnitude, hmagnitude⟩ : ∃ magnitude, n.natAbs = magnitude := ⟨_, rfl⟩
    have hsigned : (if n < 0 then -(magnitude : Int) else magnitude) = n := by
      split <;> omega
    have hzero : ¬ (n < 0 ∧ magnitude = 0) := by omega
    rw [integerText_eq, hmagnitude]
    refine ⟨_, read?_append (isWhole_toDigits magnitude) hrest.stops (fraction?_ends hrest)
      (exponent?_ends hrest), ?_⟩
    simp [value?, hsigned, hn, hzero]

end Json

end Parcel
