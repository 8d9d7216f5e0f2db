import Parcel.Proofs.Json.Meaning

/-!
# The characters of a valid text

A valid text consists of characters of ASCII, apart from those that stand for themselves in its
quoted texts. So any other character has its place inside of quotes, and none is the zero character,
so that a valid text can be given as terminated bytes. The characters that stand for themselves are
found again in the value, unless it is that of a key that occurs again.

## Main definitions

* `Markup`: characters that stand anywhere in a valid text
* `Piece.plain?`, `Spelling.plain`: the characters that stand for themselves
* `Holds`: a character occurs in a key or a text of a value

## Main results

* `Spelling.filter_chars`: all other characters are of ASCII
* `filter_beyond`, `not_isValid_of_unquoted`: characters beyond ASCII, and texts without quotes
* `Spelling.nonzero`: no character is zero
* `Spelling.holds_of_mem_plain`: characters that stand for themselves are found in the value
-/

namespace Parcel

/-- **A character occurs** in a key or a text of a value. -/
inductive Json.Holds (c : Char) : Json → Prop
  | text {s : String} (hmem : c ∈ s.toList) : Holds c (.text s)
  | item {items : List Json} {item : Json} (hitem : item ∈ items) (h : Holds c item) :
      Holds c (.array items)
  | key {entries : Entries} {entry : String × Json} (hentry : entry ∈ entries)
      (hmem : c ∈ entry.1.toList) : Holds c (.object entries)
  | value {entries : Entries} {entry : String × Json} (hentry : entry ∈ entries)
      (h : Holds c entry.2) : Holds c (.object entries)

namespace Json

open Numeral

variable {c : Char} {as bs : List Char}

/-! ## Markup -/

/-- **Characters of ASCII** other than the zero character. -/
def Markup (cs : List Char) : Prop :=
  ∀ c ∈ cs, 0 < c.toNat ∧ c.toNat < 0x80

@[simp] theorem markup_nil : Markup [] := nofun

@[simp] theorem markup_cons : Markup (c :: as) ↔ (0 < c.toNat ∧ c.toNat < 0x80) ∧ Markup as :=
  List.forall_mem_cons

@[simp] theorem markup_append : Markup (as ++ bs) ↔ Markup as ∧ Markup bs :=
  List.forall_mem_append

theorem bounds_of_isDigit (h : c.isDigit = true) : 0 < c.toNat ∧ c.toNat < 0x80 := by
  obtain ⟨hlow, hhigh⟩ := Char.isDigit_iff_toNat.1 h
  exact ⟨Nat.lt_of_lt_of_le (by decide) hlow, Nat.lt_of_le_of_lt hhigh (by decide)⟩

theorem markup_of_digits (h : ∀ c ∈ as, c.isDigit = true) : Markup as :=
  fun c hc => bounds_of_isDigit (h c hc)

theorem Blanks.markup (blanks : Blanks) : Markup blanks.chars := by
  intro c hc
  have hblank := blanks.blank c hc
  simp only [isBlank, Bool.or_eq_true, decide_eq_true_eq] at hblank
  rcases hblank with ((rfl | rfl) | rfl) | rfl <;> decide

theorem NumberText.markup (number : NumberText) : Markup number.chars := by
  obtain ⟨negative, whole, fraction, exponent, hwhole⟩ := number
  have hsign : Markup (minus negative) := by cases negative <;> simp [minus]
  have hfraction : Markup (fractionChars ⟨negative, whole, fraction, exponent, hwhole⟩) := by
    cases fraction with
    | none => exact markup_nil
    | some figures => exact markup_cons.2 ⟨by decide, markup_of_digits figures.isDigit⟩
  have hexponent : Markup (exponentChars ⟨negative, whole, fraction, exponent, hwhole⟩) := by
    cases exponent with
    | none => exact markup_nil
    | some exponent =>
      obtain ⟨letter, sign, figures, hletter, hsign⟩ := exponent
      simp only [List.mem_cons, List.not_mem_nil, or_false] at hletter hsign
      have hfigures := markup_of_digits figures.isDigit
      rcases hletter with rfl | rfl <;> rcases hsign with rfl | rfl | rfl <;>
        simp [exponentChars, ExponentText.chars, hfigures]
  simp [chars, hsign, markup_of_digits hwhole.isDigit, hfraction, hexponent]

theorem bounds_of_hexValue? {n : Nat} (h : hexValue? c = some n) :
    0 < c.toNat ∧ c.toNat < 0x80 := by
  have hletter {low high : Char} (hlow : 0 < low.toNat) (hhigh : high.toNat < 0x80)
      (hc : low ≤ c ∧ c ≤ high) : 0 < c.toNat ∧ c.toNat < 0x80 :=
    ⟨Nat.lt_of_lt_of_le hlow (UInt32.le_iff_toNat_le.1 hc.1),
      Nat.lt_of_le_of_lt (UInt32.le_iff_toNat_le.1 hc.2) hhigh⟩
  rw [hexValue?] at h
  split at h
  · next hdigit => exact bounds_of_isDigit hdigit
  · split at h
    · next hlower => exact hletter (by decide) (by decide) hlower
    · split at h
      · next hupper => exact hletter (by decide) (by decide) hupper
      · contradiction

/-! ## Characters that stand for themselves -/

/-- The character of a piece that stands for itself. -/
def Piece.plain? : Piece → Option Char
  | .plain c _ _ _ => some c
  | _ => none

/-- **The characters that stand for themselves** in the quoted texts of a text, in order. -/
def Spelling.plain : Spelling → List Char
  | .text pieces => pieces.filterMap Piece.plain?
  | .array more _ items => (List.finRange (more + 1)).flatMap fun i => plain (items i)
  | .object more _ _ keys values => (List.finRange (more + 1)).flatMap fun i =>
      (keys i).filterMap Piece.plain? ++ plain (values i)
  | _ => []

section

-- characters are left out by a test that no markup passes
variable {p : Char → Bool} (hp : ∀ c, 0 < c.toNat → c.toNat < 0x80 → p c = false)

include hp

theorem filter_markup (h : Markup as) : as.filter p = [] := by
  rw [List.filter_eq_nil_iff]
  intro c hc
  simp [hp c (h c hc).1 (h c hc).2]

theorem Piece.filter_chars (piece : Piece) :
    piece.chars.filter p = piece.plain?.toList.filter p := by
  cases piece with
  | plain c space quote backslash => rfl
  | short letter hletter =>
    refine filter_markup hp ?_
    simp only [List.mem_cons, List.not_mem_nil, or_false] at hletter
    rcases hletter with rfl | rfl | rfl | rfl | rfl | rfl | rfl | rfl <;> simp [chars]
  | unit a b c d number digits =>
    refine filter_markup hp ?_
    simp only [hexUnit?, Option.bind_eq_bind, Option.bind_eq_some_iff] at digits
    obtain ⟨_, ha, _, hb, _, hc, _, hd, -⟩ := digits
    simp [chars, bounds_of_hexValue? ha, bounds_of_hexValue? hb, bounds_of_hexValue? hc,
      bounds_of_hexValue? hd]

theorem filter_quotedPieces (pieces : List Piece) :
    (quotedPieces pieces).filter p = (pieces.filterMap Piece.plain?).filter p := by
  have hquote : p '"' = false := hp _ (by decide) (by decide)
  have hpieces : (pieces.flatMap Piece.chars).filter p =
      (pieces.filterMap Piece.plain?).filter p := by
    induction pieces with
    | nil => rfl
    | cons piece rest ih =>
      rw [List.flatMap_cons, List.filter_append, piece.filter_chars hp, ih, ← List.filter_append]
      cases hplain : piece.plain? with
      | none => rw [List.filterMap_cons_none hplain]; rfl
      | some c => rw [List.filterMap_cons_some hplain]; rfl
  simp [quotedPieces, hquote, hpieces]

theorem Padding.filter_around (padding : Padding) (part : List Char) :
    (padding.around part).filter p = part.filter p := by
  rw [around, List.filter_append, List.filter_append, filter_markup hp padding.before.markup,
    filter_markup hp padding.after.markup, List.nil_append, List.append_nil]

theorem filter_separated {more : Nat} (part : Fin (more + 1) → List Char) :
    (separated part).filter p =
      (List.finRange (more + 1)).flatMap fun i => (part i).filter p := by
  have hcomma : p ',' = false := hp _ (by decide) (by decide)
  simp [separated, List.filter_flatMap, List.finRange_succ, List.flatMap_map, hcomma]

/-- **Whatever is no markup** in a valid text is a character that stands for itself. -/
theorem Spelling.filter_chars (s : Spelling) : s.chars.filter p = s.plain.filter p := by
  -- brackets, commas and colons are markup, of which nothing is kept
  have hmark (c : Char) (hc : 0 < c.toNat ∧ c.toNat < 0x80) : p c = false := hp c hc.1 hc.2
  induction s with
  | null => exact filter_markup hp (by simp [chars])
  | bool b => exact filter_markup hp (by cases b <;> simp [chars])
  | number written => exact filter_markup hp written.markup
  | text pieces => exact filter_quotedPieces hp pieces
  | emptyArray inside => exact filter_markup hp (by simp [chars, inside.markup])
  | array more paddings items ih =>
    simp [chars, plain, filter_separated hp, Padding.filter_around hp, ih, hmark '[' (by decide),
      hmark ']' (by decide), List.filter_flatMap]
  | emptyObject inside => exact filter_markup hp (by simp [chars, inside.markup])
  | object more keyPaddings paddings keys values ih =>
    simp [chars, plain, filter_separated hp, Padding.filter_around hp, filter_quotedPieces hp, ih,
      hmark '\x7b' (by decide), hmark '\x7d' (by decide), hmark ':' (by decide),
      List.filter_flatMap]

end

/-- **The characters beyond ASCII** of a valid text stand for themselves. -/
theorem filter_beyond {text : String} {padding : Padding} {s : Spelling}
    (htext : text.toList = padding.around s.chars) :
    text.toList.filter (fun c => 0x80 ≤ c.toNat) = s.plain.filter fun c => 0x80 ≤ c.toNat := by
  have hp (c : Char) (_ : 0 < c.toNat) (hhigh : c.toNat < 0x80) :
      decide (0x80 ≤ c.toNat) = false := decide_eq_false (Nat.not_le.2 hhigh)
  rw [htext, padding.filter_around hp, s.filter_chars hp]

/-! ## Quotes -/

theorem mem_quotedPieces (pieces : List Piece) : '"' ∈ quotedPieces pieces := List.mem_cons_self

theorem Padding.mem_around (padding : Padding) (hc : c ∈ as) : c ∈ padding.around as :=
  List.mem_append_left _ (List.mem_append_right _ hc)

theorem mem_separated {more : Nat} {part : Fin (more + 1) → List Char} (i : Fin (more + 1))
    (hc : c ∈ part i) : c ∈ separated part := by
  cases i using Fin.cases with
  | zero => exact List.mem_append_left _ hc
  | succ i =>
    exact List.mem_append_right _
      (List.mem_flatMap.2 ⟨i, List.mem_finRange i, List.mem_cons_of_mem _ hc⟩)

/-- Without quotes no character stands for itself. -/
theorem Spelling.plain_eq_nil {s : Spelling} (h : '"' ∉ s.chars) : s.plain = [] := by
  induction s with
  | text pieces => exact absurd (mem_quotedPieces pieces) h
  | array more paddings items ih =>
    refine List.flatMap_eq_nil_iff.2 fun i _ => ih i fun hmem => h ?_
    exact List.mem_cons_of_mem _
      (List.mem_append_left _ (mem_separated i ((paddings i).mem_around hmem)))
  | object more keyPaddings paddings keys values ih =>
    refine absurd (List.mem_cons_of_mem _ (List.mem_append_left _ (mem_separated 0 ?_))) h
    exact List.mem_append_left _ ((keyPaddings 0).mem_around (mem_quotedPieces (keys 0)))
  | _ => rfl

/-- **A text without quotes** is valid only if all its characters are of ASCII. -/
theorem not_isValid_of_unquoted {text : String} (hquote : '"' ∉ text.toList)
    (hc : c ∈ text.toList) (hbeyond : 0x80 ≤ c.toNat) : ¬ IsValid text := by
  rintro ⟨padding, s, htext⟩
  have hmem : c ∈ text.toList.filter fun c => 0x80 ≤ c.toNat := by simp [hc, hbeyond]
  have hchars : '"' ∉ s.chars := fun hmem => hquote (htext ▸ padding.mem_around hmem)
  rw [filter_beyond htext, Spelling.plain_eq_nil hchars] at hmem
  contradiction

/-! ## Zero characters

There is no zero character in a valid text, so it can be given as terminated bytes. -/

/-- No zero character is among the given ones. -/
def Nonzero (cs : List Char) : Prop :=
  ∀ c ∈ cs, 0 < c.toNat

theorem Padding.nonzero_around (padding : Padding) (h : Nonzero as) :
    Nonzero (padding.around as) := by
  simp only [around, Nonzero, List.forall_mem_append]
  exact ⟨⟨fun c hc => (padding.before.markup c hc).1, h⟩, fun c hc => (padding.after.markup c hc).1⟩

theorem space_le_of_mem_filterMap {pieces : List Piece} (hc : c ∈ pieces.filterMap Piece.plain?) :
    0x20 ≤ c.toNat := by
  obtain ⟨piece, -, hplain⟩ := List.mem_filterMap.1 hc
  cases piece with
  | plain d space quote backslash =>
    cases hplain
    exact space
  | short letter hletter => contradiction
  | unit a b c d number digits => contradiction

theorem Spelling.space_le_of_mem_plain {s : Spelling} (hc : c ∈ s.plain) : 0x20 ≤ c.toNat := by
  induction s with
  | text pieces => exact space_le_of_mem_filterMap hc
  | array more paddings items ih =>
    obtain ⟨i, -, hi⟩ := List.mem_flatMap.1 hc
    exact ih i hi
  | object more keyPaddings paddings keys values ih =>
    obtain ⟨i, -, hi⟩ := List.mem_flatMap.1 hc
    rcases List.mem_append.1 hi with hkey | hvalue
    · exact space_le_of_mem_filterMap hkey
    · exact ih i hvalue
  | _ => contradiction

/-- **No zero character** is in the text of a value. -/
theorem Spelling.nonzero (s : Spelling) : Nonzero s.chars := by
  intro c hc
  refine Nat.pos_of_ne_zero fun hzero => ?_
  have hmem : c ∈ s.chars.filter fun c => c.toNat = 0 := by simp [hc, hzero]
  -- it is no markup, and does not stand for itself
  rw [s.filter_chars fun c hlow _ => decide_eq_false (Nat.ne_of_gt hlow)] at hmem
  have hspace := space_le_of_mem_plain (List.mem_of_mem_filter hmem)
  omega

/-! ## Characters of the value -/

/-- A character that stands for itself is one of those that the pieces stand for. -/
theorem mem_of_characters? {pieces : List Piece} {leading : Option Nat} {found : List Char}
    (h : Piece.characters? leading pieces = some found)
    (hc : c ∈ pieces.filterMap Piece.plain?) : c ∈ found := by
  -- along the recursion; the cases without characters contradict `h`
  induction leading, pieces using Piece.characters?.induct generalizing found with
  | case1 => contradiction
  | case2 d space quote backslash rest ih =>
    obtain ⟨others, hothers, rfl⟩ := Option.map_eq_some_iff.1 h
    rcases List.mem_cons.1 hc with rfl | hrest
    · exact List.mem_cons_self
    · exact List.mem_cons_of_mem _ (ih hothers hrest)
  | case3 letter hletter rest ih =>
    obtain ⟨d, -, hmap⟩ := Option.bind_eq_some_iff.1 h
    obtain ⟨others, hothers, rfl⟩ := Option.map_eq_some_iff.1 hmap
    exact List.mem_cons_of_mem _ (ih hothers hc)
  | case4 a b c' d number digits rest htrailing =>
    rw [Piece.characters?, if_pos htrailing] at h
    contradiction
  | case5 a b c' d number digits rest htrailing hleading ih =>
    rw [Piece.characters?, if_neg htrailing, if_pos hleading] at h
    exact ih h hc
  | case6 a b c' d number digits rest htrailing hleading ih =>
    rw [Piece.characters?, if_neg htrailing, if_neg hleading] at h
    obtain ⟨others, hothers, rfl⟩ := Option.map_eq_some_iff.1 h
    exact List.mem_cons_of_mem _ (ih hothers hc)
  | case7 leading a b c' d number digits rest htrailing ih =>
    rw [Piece.characters?, if_pos htrailing] at h
    obtain ⟨others, hothers, rfl⟩ := Option.map_eq_some_iff.1 h
    exact List.mem_cons_of_mem _ (ih hothers hc)
  | case8 leading a b c' d number digits rest htrailing =>
    rw [Piece.characters?, if_neg htrailing] at h
    contradiction
  | case9 leading pieces hother =>
    rw [Piece.characters?] at h
    · contradiction
    · exact hother

theorem mem_of_text? {pieces : List Piece} {text : String} (h : Piece.text? pieces = some text)
    (hc : c ∈ pieces.filterMap Piece.plain?) : c ∈ text.toList := by
  obtain ⟨found, hfound, rfl⟩ := Option.map_eq_some_iff.1 h
  rw [String.toList_ofList]
  exact mem_of_characters? hfound hc

/-- **Characters that stand for themselves are found in the value** if no key occurs twice in an
object of the text. -/
theorem Spelling.holds_of_mem_plain {s : Spelling} {v : Json} (hdiffer : s.KeysDiffer)
    (h : s.value? = some v) (hc : c ∈ s.plain) : v.Holds c := by
  -- only texts and keys have characters of their own, and no key is replaced by a later one
  induction s generalizing v with
  | text pieces =>
    obtain ⟨text, htext, rfl⟩ := Option.map_eq_some_iff.1 h
    exact .text (mem_of_text? htext hc)
  | array more paddings items ih =>
    obtain ⟨found, rfl, -, hall⟩ := exists_of_value?_array h
    obtain ⟨i, -, hi⟩ := List.mem_flatMap.1 hc
    obtain ⟨item, hitem, hvalue⟩ := hall i
    exact .item hitem (ih i (hdiffer i) hvalue hi)
  | object more keyPaddings paddings keys values ih =>
    obtain ⟨found, rfl, -, hall⟩ := exists_of_value?_object h
    obtain ⟨i, -, hi⟩ := List.mem_flatMap.1 hc
    obtain ⟨entry, hentry, hkey, hvalue⟩ := hall hdiffer.1 i
    rcases List.mem_append.1 hi with hmem | hmem
    · exact .key hentry (mem_of_text? hkey hmem)
    · exact .value hentry (ih i (hdiffer.2 i) hvalue hmem)
  | _ => contradiction

end Json

end Parcel
