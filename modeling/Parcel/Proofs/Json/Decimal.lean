import Parcel.Proofs.Json.Digits

/-!
# Written doubles

The digits of a double are written with a point among them, behind zeros or before zeros, or with an
exponent. Reading takes the point away again: what it gathers are the digits as one number, and the
place of the last of them. An integral double is written with a zero behind the point, so its last
digit is that zero.

## Main definitions

* `Json.Written`: a text without a sign that is read as a significand times a power of ten

## Main results

* `Numeral.double?_eq`: the double that a number is read as
* `Json.Written.isNumber`: a written text is a number, with and without a minus sign
* `Json.written_positional`, `Json.written_scientific`: the two forms
-/

namespace Parcel

namespace Numeral

variable {ds fraction whole rest : List Char} {init significand taken : Nat} {exponent : Int}

/-! ## Gathered digits -/

theorem digitsValue_append (ds rest : List Char) :
    digitsValue (ds ++ rest) = digitsValue ds * Nat.pow 10 rest.length + digitsValue rest := by
  rw [digitsValue_eq_ofDigitChars, digitsValue_eq_ofDigitChars, digitsValue_eq_ofDigitChars,
    Nat.ofDigitChars_append, Nat.ofDigitChars_eq_ofDigitChars_zero, Nat.mul_comm]
  rfl

theorem digitsValue_replicate (n : Nat) : digitsValue (List.replicate n '0') = 0 := by
  rw [digitsValue_eq_ofDigitChars, Nat.ofDigitChars_replicate_zero, Nat.mul_zero]

/-- The number that digits behind `init` stand for. -/
theorem le_ofDigitChars (init : Nat) (ds : List Char) : init ≤ Nat.ofDigitChars 10 ds init := by
  rw [Nat.ofDigitChars_eq_ofDigitChars_zero]
  exact Nat.le_trans (Nat.le_mul_of_pos_left init (Nat.pow_pos (by decide))) (Nat.le_add_right _ _)

/-- **Digits that fit are all gathered.** -/
theorem gatherWhole_eq (h : Nat.ofDigitChars 10 ds init < significandBound) :
    gatherWhole init ds = (Nat.ofDigitChars 10 ds init, 0) := by
  induction ds generalizing init with
  | nil => rfl
  | cons c ds ih =>
    rw [Nat.ofDigitChars_cons] at h ⊢
    have hfits : 10 * init + digitValue c < significandBound :=
      Nat.lt_of_le_of_lt (le_ofDigitChars _ ds) h
    rw [gatherWhole, if_pos hfits]
    exact ih h

theorem gatherFraction_eq (h : Nat.ofDigitChars 10 ds init < significandBound) :
    gatherFraction init taken ds = (Nat.ofDigitChars 10 ds init, taken + ds.length) := by
  induction ds generalizing init taken with
  | nil => rfl
  | cons c ds ih =>
    rw [Nat.ofDigitChars_cons] at h ⊢
    have hfits : 10 * init + digitValue c < significandBound :=
      Nat.lt_of_le_of_lt (le_ofDigitChars _ ds) h
    rw [gatherFraction, if_pos hfits]
    refine (ih h).trans ?_
    rw [List.length_cons, Nat.add_assoc, Nat.add_comm 1]

/-- **The double that a number is read as**, if its digits fit. -/
theorem double?_eq (n : Numeral) (h : digitsValue (n.whole ++ n.fraction) < significandBound) :
    n.double? = (scaled? (digitsValue (n.whole ++ n.fraction)) (n.exponent - n.fraction.length)).map
      fun x => if n.negative then x.neg else x := by
  rw [digitsValue_eq_ofDigitChars, Nat.ofDigitChars_append] at h ⊢
  have hwhole := gatherWhole_eq (Nat.lt_of_le_of_lt (le_ofDigitChars _ _) h)
  have hfraction := @gatherFraction_eq _ _ 0 h
  have hexponent : ((0 : Nat) : Int) - ((0 + n.fraction.length : Nat) : Int) + n.exponent =
      n.exponent - n.fraction.length := by
    omega
  rw [double?, hwhole]
  simp only [hfraction, hexponent]
  cases scaled? _ (n.exponent - n.fraction.length) <;> rfl

/-! ## Parts with a point and an exponent -/

theorem fraction?_append (hne : fraction ≠ []) (hdigit : ∀ d ∈ fraction, d.isDigit = true)
    (hrest : Stops rest) : fraction? ('.' :: (fraction ++ rest)) = some (fraction, rest) := by
  rw [fraction?, digits_append hdigit hrest]
  obtain ⟨d, ds, rfl⟩ := List.exists_cons_of_ne_nil hne
  rfl

theorem stops_cons {c : Char} (hc : c.isDigit = false) : Stops (c :: rest) := by
  rintro d ⟨⟩
  exact hc

/-- **An exponent with its sign.** -/
theorem exponent?_append (hrest : Stops rest) :
    exponent? ('e' :: (if exponent < 0 then ['-'] else ['+']) ++ Nat.toDigits 10 exponent.natAbs
      ++ rest) = some (some exponent, rest) := by
  obtain ⟨magnitude, hmagnitude⟩ : ∃ magnitude, exponent.natAbs = magnitude := ⟨_, rfl⟩
  have hdigits := digits_append (isDigit_of_mem_toDigits (n := magnitude)) hrest
  have hvalue : digitsValue (Nat.toDigits 10 magnitude) = magnitude := digitsValue_toDigits _
  -- the reader insists on a first digit, and there is one
  obtain ⟨d, ds, hds⟩ :=
    List.exists_cons_of_ne_nil (Nat.toDigits_ne_nil (n := magnitude) (b := 10))
  rw [hds, List.cons_append] at hdigits
  rw [hds] at hvalue
  rw [hmagnitude, hds]
  by_cases hneg : exponent < 0
  · have hsigned : -(magnitude : Int) = exponent := by omega
    simp [exponent?, sign, hneg, hdigits, hvalue, hsigned]
  · have hsigned : (magnitude : Int) = exponent := by omega
    simp [exponent?, sign, hneg, hdigits, hvalue, hsigned]

end Numeral

namespace Json

open Numeral

variable {text whole fraction rest : List Char} {exponent place : Int}
  {significand : Nat} {x : Double}

/-! ## Texts without a sign -/

/-- **A text without a sign that is read as a significand times a power of ten**, with or without a
minus sign before it, whatever ends it. -/
structure Written (text : List Char) (significand : Nat) (place : Int) : Prop where
  starts : ∃ c ∈ text.head?, c.isDigit = true
  visible : ∀ c ∈ text, 0x20 ≤ c.toNat
  reads : ∀ negative rest, Ends rest → ∃ numeral,
    Numeral.read? (minus negative ++ text ++ rest) = some (numeral, rest) ∧
      numeral.negative = negative ∧ numeral.integral = false ∧
      digitsValue (numeral.whole ++ numeral.fraction) = significand ∧
      numeral.exponent - numeral.fraction.length = place

/-- **A written text is a number**, if what it gathers can be scaled. -/
theorem Written.isNumber (h : Written text significand place)
    (hbound : significand < significandBound)
    (hx : scaled? significand place = some x) (negative : Bool) :
    IsNumber (minus negative ++ text) (.double (if negative then x.neg else x)) where
  starts := by
    obtain ⟨c, hc, hdigit⟩ := h.starts
    cases negative with
    | true => exact ⟨'-', rfl, .inl rfl⟩
    | false => exact ⟨c, hc, .inr hdigit⟩
  visible c hc := by
    rw [List.mem_append] at hc
    exact hc.elim (space_le_of_mem_minus c) (h.visible c)
  reads rest hrest := by
    obtain ⟨numeral, hread, rfl, hintegral, rfl, rfl⟩ := h.reads negative rest hrest
    refine ⟨numeral, hread, ?_⟩
    rw [value?, double?_eq numeral hbound, hx]
    simp [hintegral]

/-- Digits, a point and digits. -/
theorem written_point (hwhole : IsWhole whole) (hne : fraction ≠ [])
    (hfraction : ∀ d ∈ fraction, d.isDigit = true) :
    Written (whole ++ '.' :: fraction) (digitsValue (whole ++ fraction)) (-fraction.length) where
  starts := by
    obtain ⟨d, ds, rfl⟩ := List.exists_cons_of_ne_nil hwhole.ne_nil
    exact ⟨d, rfl, hwhole.isDigit d List.mem_cons_self⟩
  visible := by
    rw [List.forall_mem_append, List.forall_mem_cons]
    exact ⟨fun c hc => space_le_of_isDigit (hwhole.isDigit c hc), by decide,
      fun c hc => space_le_of_isDigit (hfraction c hc)⟩
  reads negative rest hrest := by
    have hread := @read?_append _ _ rest negative fraction rest none hwhole (stops_cons rfl)
      (fraction?_append hne hfraction hrest.stops) (exponent?_ends hrest)
    refine ⟨_, by simpa using hread, rfl, ?_, rfl, ?_⟩
    · simp [hne]
    · simp

theorem visible_exponent : ∀ c ∈ 'e' :: (if exponent < 0 then ['-'] else ['+']) ++
    Nat.toDigits 10 exponent.natAbs, 0x20 ≤ c.toNat := by
  rw [List.forall_mem_append, List.forall_mem_cons]
  refine ⟨⟨by decide, ?_⟩, fun c hc => space_le_of_isDigit (isDigit_of_mem_toDigits c hc)⟩
  split <;> simp

/-- Digits, a point and digits if there are any, and an exponent. -/
theorem written_exponent (hwhole : IsWhole whole) (hfraction : ∀ d ∈ fraction, d.isDigit = true) :
    Written (whole ++ (if fraction = [] then [] else '.' :: fraction) ++
        ('e' :: (if exponent < 0 then ['-'] else ['+']) ++ Nat.toDigits 10 exponent.natAbs))
      (digitsValue (whole ++ fraction)) (exponent - fraction.length) where
  starts := by
    obtain ⟨d, ds, rfl⟩ := List.exists_cons_of_ne_nil hwhole.ne_nil
    exact ⟨d, rfl, hwhole.isDigit d List.mem_cons_self⟩
  visible := by
    rw [List.forall_mem_append, List.forall_mem_append]
    refine ⟨⟨fun c hc => space_le_of_isDigit (hwhole.isDigit c hc), ?_⟩, visible_exponent⟩
    split
    · simp
    · rw [List.forall_mem_cons]
      exact ⟨by decide, fun c hc => space_le_of_isDigit (hfraction c hc)⟩
  reads negative rest hrest := by
    have hexponent := @exponent?_append rest exponent hrest.stops
    have hstops (sign digits : List Char) : Stops ('e' :: sign ++ digits ++ rest) := stops_cons rfl
    -- without a fraction the exponent follows the whole digits at once
    by_cases hne : fraction = []
    · subst hne
      have hread := @read?_append _ _ _ negative _ _ _ hwhole (hstops _ _) (by rfl) hexponent
      exact ⟨_, by simpa using hread, rfl, by simp, rfl, by simp⟩
    · have hread := @read?_append _ _ _ negative _ _ _ hwhole (stops_cons rfl)
        (fraction?_append hne hfraction (hstops _ _)) hexponent
      exact ⟨_, by simpa [hne] using hread, rfl, by simp, rfl, by simp⟩

/-! ## The two forms -/

variable {digits : List Char}

theorem isWhole_of_head?_ne (hne : digits ≠ []) (hdigit : ∀ d ∈ digits, d.isDigit = true)
    (hhead : digits.head? ≠ some '0') : IsWhole digits :=
  ⟨hne, hdigit, fun h => absurd h hhead⟩

section Forms

variable (hne : digits ≠ []) (hdigit : ∀ d ∈ digits, d.isDigit = true)
  (hhead : digits.head? ≠ some '0')
include hne hdigit hhead

/-- **The form with an exponent.** -/
theorem written_scientific :
    Written (DecimalStyle.scientific ['+'] digits exponent) (digitsValue digits)
      (exponent - digits.length + 1) := by
  obtain ⟨first, rest, rfl⟩ := List.exists_cons_of_ne_nil hne
  rw [List.forall_mem_cons] at hdigit
  have hfirst : IsWhole [first] :=
    isWhole_of_head?_ne (by simp) (by simpa using hdigit.1) hhead
  have hwritten := @written_exponent _ _ exponent hfirst hdigit.2
  have hplace : exponent - (first :: rest).length + 1 = exponent - rest.length := by
    rw [List.length_cons]
    omega
  rw [hplace]
  cases rest with
  | nil => simpa [DecimalStyle.scientific] using hwritten
  | cons second rest => simpa [DecimalStyle.scientific] using hwritten

/-- **The form with a point**, if there are digits behind it. -/
theorem written_positional (hplace : exponent - digits.length + 1 < 0) :
    Written (DecimalStyle.positional digits exponent) (digitsValue digits)
      (exponent - digits.length + 1) := by
  rw [DecimalStyle.positional]
  split
  · next hneg =>
    -- a zero before the point and zeros behind it
    have hzeros : ∀ d ∈ List.replicate (-exponent - 1).toNat '0' ++ digits, d.isDigit = true := by
      rw [List.forall_mem_append]
      exact ⟨fun d hd => by rw [List.eq_of_mem_replicate hd]; rfl, hdigit⟩
    have hwritten :=
      written_point (isWhole_toDigits 0) (List.append_ne_nil_of_right_ne_nil _ hne) hzeros
    have hvalue :
        digitsValue (Nat.toDigits 10 0 ++ (List.replicate (-exponent - 1).toNat '0' ++ digits)) =
        digitsValue digits := by
      rw [digitsValue_append, digitsValue_append, digitsValue_replicate, digitsValue_toDigits]
      omega
    rw [hvalue, List.length_append, List.length_replicate] at hwritten
    rwa [show exponent - digits.length + 1 =
      -((-exponent - 1).toNat + digits.length : Nat) by omega]
  · next hpos =>
    have hlength : ¬ digits.length ≤ exponent.toNat + 1 := by omega
    rw [if_neg hlength]
    have htake : IsWhole (digits.take (exponent.toNat + 1)) := by
      refine isWhole_of_head?_ne ?_ (fun d hd => hdigit d (List.mem_of_mem_take hd)) ?_
      · simpa using hne
      · rwa [List.head?_take, if_neg (by omega)]
    have hdrop : digits.drop (exponent.toNat + 1) ≠ [] := by
      rw [Ne, List.drop_eq_nil_iff]
      omega
    have hwritten := written_point htake hdrop fun d hd => hdigit d (List.mem_of_mem_drop hd)
    rw [List.take_append_drop, List.length_drop] at hwritten
    rwa [show exponent - digits.length + 1 =
      -(digits.length - (exponent.toNat + 1) : Nat) by omega]

/-- **The form with a zero behind the point**, which is gathered as one more digit. -/
theorem written_positional_zero (hpos : 0 ≤ exponent) (hplace : 0 ≤ exponent - digits.length + 1) :
    Written (DecimalStyle.positional digits exponent)
      (digitsValue digits * Nat.pow 10 (exponent - digits.length + 2).toNat) (-1) := by
  have hlength : digits.length ≤ exponent.toNat + 1 := by omega
  rw [DecimalStyle.positional, if_neg (by omega), if_pos hlength]
  obtain ⟨zeros, hzeros⟩ : ∃ zeros, exponent.toNat + 1 - digits.length = zeros := ⟨_, rfl⟩
  have hwhole : IsWhole (digits ++ List.replicate zeros '0') := by
    refine isWhole_of_head?_ne (by simp [hne]) ?_ ?_
    · rw [List.forall_mem_append]
      exact ⟨hdigit, fun d hd => by rw [List.eq_of_mem_replicate hd]; rfl⟩
    · rwa [List.head?_append, Option.or_of_isSome (by simpa using hne)]
  have hwritten := @written_point _ ['0'] hwhole (by simp) (List.forall_mem_singleton.2 rfl)
  -- the digits are followed by the zeros in front of the point and by the one behind it
  have hvalue : digitsValue (digits ++ List.replicate zeros '0' ++ ['0']) =
      digitsValue digits * Nat.pow 10 (exponent - digits.length + 2).toNat := by
    have hcount : (exponent - digits.length + 2).toNat = zeros + 1 := by omega
    have hlast : List.replicate zeros '0' ++ ['0'] = List.replicate (zeros + 1) '0' :=
      List.replicate_succ'.symm
    rw [List.append_assoc, hlast, digitsValue_append, digitsValue_replicate, List.length_replicate,
      hcount, Nat.add_zero]
  rw [hvalue] at hwritten
  rw [hzeros]
  exact hwritten

end Forms

end Json

end Parcel
