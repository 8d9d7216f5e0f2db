import Parcel.Proofs.Json.Decimal
import Parcel.Proofs.Json.Reread
import Parcel.Proofs.Json.Spelling

/-!
# Valid texts are read

The parser follows the grammar: blanks are skipped, a number is read up to what ends it, a text in
quotes up to the quote, the parts of a container up to the closing bracket, each with one level
less. So a valid text is read as the value that it stands for, if there is one and the levels
suffice for its containers. Otherwise it is refused, whatever else it holds.

## Main definitions

* `continued`: what follows a part of a container

## Main results

* `Numeral.read?_chars`: a number, whatever ends it
* `readText?_append`: the pieces of a text, also behind the first half of a pair
* `readItems?_continued`, `readEntries?_continued`: the parts of containers
* `readValue?_chars`, `parse?_spelled`: values and whole texts
-/

namespace Parcel

namespace Numeral

variable {rest : List Char}

/-- **An exponent** is read as the number that it stands for, if the text does not go on with a
digit. -/
theorem exponent?_chars (exponent : Json.ExponentText) (hrest : Stops rest) :
    exponent? (exponent.chars ++ rest) = some (some exponent.value, rest) := by
  obtain ⟨letter, sign, ⟨figures, hne, hdigit⟩, hletter, hsign⟩ := exponent
  have hdigits := digits_append hdigit hrest
  have hread : ∀ negative cs, Numeral.sign cs = (negative, figures ++ rest) →
      exponent? (letter :: cs) =
        some (some (if negative then -(digitsValue figures : Int) else digitsValue figures),
          rest) := by
    intro negative cs hcs
    have hletter' : letter = 'e' ∨ letter = 'E' := by simpa using hletter
    obtain ⟨d, ds, rfl⟩ := List.exists_cons_of_ne_nil hne
    rw [List.cons_append] at hdigits hcs
    simp [exponent?, hletter', hcs, hdigits]
  -- a digit is no sign
  have hunsigned : Numeral.sign (figures ++ rest) = (false, figures ++ rest) := by
    obtain ⟨d, ds, rfl⟩ := List.exists_cons_of_ne_nil hne
    have hd := hdigit d List.mem_cons_self
    have hminus : d ≠ '-' := by
      rintro rfl
      exact absurd hd (by decide)
    have hplus : d ≠ '+' := by
      rintro rfl
      exact absurd hd (by decide)
    simp [Numeral.sign, hminus, hplus]
  simp only [List.mem_cons, List.not_mem_nil, or_false] at hsign
  rcases hsign with rfl | rfl | rfl
  · exact hread false _ hunsigned
  · exact hread false _ rfl
  · exact hread true _ rfl

theorem exponent?_exponentChars (number : Json.NumberText) (hrest : Ends rest) :
    exponent? (number.exponentChars ++ rest) =
      some (number.exponent.map Json.ExponentText.value, rest) := by
  rw [Json.NumberText.exponentChars]
  cases number.exponent with
  | none => exact exponent?_ends hrest
  | some exponent => exact exponent?_chars exponent hrest.stops

/-- What stands behind a fraction goes on with no digit and no point. -/
theorem head?_exponentChars (number : Json.NumberText) (hrest : Ends rest) :
    ∀ c ∈ (number.exponentChars ++ rest).head?, c.isDigit = false ∧ c ≠ '.' := by
  rw [Json.NumberText.exponentChars]
  cases number.exponent with
  | none => exact fun c hc => ⟨(hrest c hc).1, (hrest c hc).2.1⟩
  | some exponent =>
    obtain ⟨letter, sign, figures, hletter, hsign⟩ := exponent
    simp only [List.mem_cons, List.not_mem_nil, or_false] at hletter
    rcases hletter with rfl | rfl <;> simp [Json.ExponentText.chars]

theorem fraction?_none {cs : List Char} (h : ∀ c ∈ cs.head?, c ≠ '.') :
    fraction? cs = some ([], cs) := by
  unfold fraction?
  split
  · exact absurd rfl (h '.' rfl)
  · rfl

theorem fraction?_fractionChars (number : Json.NumberText) (hrest : Ends rest) :
    fraction? (number.fractionChars ++ (number.exponentChars ++ rest)) =
      some ((number.fraction.map Json.Figures.chars).getD [], number.exponentChars ++ rest) := by
  have hhead := head?_exponentChars number hrest
  rw [Json.NumberText.fractionChars]
  cases number.fraction with
  | none => exact fraction?_none fun c hc => (hhead c hc).2
  | some figures => exact fraction?_append figures.ne_nil figures.isDigit fun c hc => (hhead c hc).1

theorem stops_fractionChars (number : Json.NumberText) (hrest : Ends rest) :
    Stops (number.fractionChars ++ (number.exponentChars ++ rest)) := by
  rw [Json.NumberText.fractionChars]
  cases number.fraction with
  | none => exact fun c hc => (head?_exponentChars number hrest c hc).1
  | some figures => exact stops_cons (by decide)

/-- **The parts of a number** are read as they were written, up to what ends it. -/
theorem read?_chars (number : Json.NumberText) (hrest : Ends rest) :
    read? (number.chars ++ rest) = some (number.numeral, rest) := by
  have hread := @read?_append _ _ _ number.negative _ _ _ number.isWhole
    (stops_fractionChars number hrest) (fraction?_fractionChars number hrest)
    (exponent?_exponentChars number hrest)
  -- no fraction is read just if none is written
  have hintegral : ((number.fraction.map Json.Figures.chars).getD []).isEmpty =
      number.fraction.isNone := by
    cases number.fraction with
    | none => rfl
    | some figures => simp [figures.ne_nil]
  have hchars : number.chars ++ rest = minus number.negative ++ number.whole ++
      (number.fractionChars ++ (number.exponentChars ++ rest)) := by
    simp [Json.NumberText.chars]
  rw [hchars, hread, hintegral]
  cases h : number.exponent <;> simp [Json.NumberText.numeral, h]

end Numeral

namespace Json

open Numeral

variable {rest : List Char}

/-! ## Texts in quotes -/

/-- Pieces up to the closing quote are read as the characters that they stand for, if they do:
behind what was read before, or behind the first half of a pair. -/
theorem readText?_append (pieces : List Piece) (rest : List Char) :
    (∀ read, readText? read (pieces.flatMap Piece.chars ++ '"' :: rest) =
      (Piece.characters? none pieces).map fun found => (read.reverse ++ found, rest)) ∧
    ∀ read a b c d leading, hexUnit? a b c d = some leading → isLeading leading = true →
      isTrailing leading = false →
      readText? read
          ('\\' :: 'u' :: a :: b :: c :: d :: (pieces.flatMap Piece.chars ++ '"' :: rest)) =
        (Piece.characters? (some leading) pieces).map fun found =>
          (read.reverse ++ found, rest) := by
  -- half a pair is completed by the next piece or not at all, so both go by one induction
  induction pieces with
  | nil =>
    refine ⟨fun read => by simp [readText?, Piece.characters?], ?_⟩
    intro read a b c d leading hdigits hleading htrailing
    rw [readText?, hdigits]
    simp [htrailing, hleading, Piece.characters?]
  | cons piece pieces ih =>
    obtain ⟨ih, ihHalf⟩ := ih
    cases piece with
    | plain c space quote backslash =>
      refine ⟨fun read => ?_, ?_⟩
      · simp only [List.flatMap_cons, Piece.chars, List.cons_append, List.nil_append]
        rw [readText?_plain quote backslash space, ih, Piece.characters?]
        simp [Function.comp_def]
      · intro read a b c d leading hdigits hleading htrailing
        simp only [List.flatMap_cons, Piece.chars, List.cons_append, List.nil_append]
        rw [readText?, hdigits]
        simp [htrailing, hleading, backslash, Piece.characters?]
    | short letter hletter =>
      obtain ⟨found, hfound, hne⟩ := exists_simpleEscape?_eq hletter
      refine ⟨fun read => ?_, ?_⟩
      · simp only [List.flatMap_cons, Piece.chars, List.cons_append, List.nil_append]
        rw [readText?_simple hfound hne, ih, Piece.characters?, hfound]
        simp [Function.comp_def]
      · intro read a b c d leading hdigits hleading htrailing
        simp only [List.flatMap_cons, Piece.chars, List.cons_append, List.nil_append]
        rw [readText?, hdigits]
        simp [htrailing, hleading, hne, Piece.characters?]
    | unit a b c d number digits =>
      refine ⟨fun read => ?_, ?_⟩
      · simp only [List.flatMap_cons, Piece.chars, List.cons_append, List.nil_append,
          Piece.characters?]
        cases htrailing : isTrailing number with
        | true =>
          rw [readText?, digits]
          simp [htrailing]
        | false =>
          cases hleading : isLeading number with
          | true => simpa [htrailing] using ihHalf read a b c d number digits hleading htrailing
          | false =>
            rw [readText?, digits]
            simp [htrailing, hleading, ih, Function.comp_def]
      · intro read a' b' c' d' leading hdigits hleading htrailing
        simp only [List.flatMap_cons, Piece.chars, List.cons_append, List.nil_append]
        rw [readText?, hdigits, Piece.characters?]
        cases hsecond : isTrailing number <;>
          simp [htrailing, hleading, digits, hsecond, ih, Function.comp_def]

/-- **A text in quotes** is read behind its opening quote, and up to its closing quote. -/
theorem readText?_quotedPieces (pieces : List Piece) (rest : List Char) :
    ∃ cs, quotedPieces pieces ++ rest = '"' :: cs ∧
      readText? [] cs = (Piece.characters? none pieces).map fun found => (found, rest) :=
  ⟨pieces.flatMap Piece.chars ++ '"' :: rest, by simp [quotedPieces],
    (readText?_append pieces rest).1 []⟩

/-! ## Blanks -/

variable {levels fuel : Nat} {cs : List Char}

theorem skipBlanks_append (blanks : Blanks) (rest : List Char) :
    skipBlanks (blanks.chars ++ rest) = skipBlanks rest :=
  List.dropWhile_append_of_pos blanks.blank

/-- Blanks in front of a value are skipped. -/
theorem readValue?_append (blanks : Blanks) (rest : List Char) :
    readValue? levels (blanks.chars ++ rest) = readValue? levels rest := by
  rw [readValue?.eq_def, skipBlanks_append, ← readValue?.eq_def]

/-- Blanks behind a number end it. -/
theorem ends_append (blanks : Blanks) (hrest : Ends rest) : Ends (blanks.chars ++ rest) := by
  obtain ⟨cs, hblank⟩ := blanks
  cases cs with
  | nil => exact hrest
  | cons c cs =>
    have hc := hblank c List.mem_cons_self
    simp only [isBlank, Bool.or_eq_true, decide_eq_true_eq] at hc
    rcases hc with ((rfl | rfl) | rfl) | rfl <;>
      exact ends_cons (by decide) (by decide) (by decide) (by decide)

/-! ## Containers -/

variable {α : Type} {readItem? : List Char → Option (Json × List Char)}

/-- What follows a part of a container: a comma and the next part, and in the end the closing
bracket. -/
def continued (part : α → List Char) (close : Char) (rest : List Char) (others : List α) :
    List Char :=
  (others.flatMap fun a => ',' :: part a) ++ close :: rest

/-- The characters that end a container. -/
def IsClosing (c : Char) : Prop :=
  c = ']' ∨ c = '\x7d'

section

variable {part : α → List Char} {after : α → Blanks} {close : Char} {first other : α}
  {others : List α}

theorem skipBlanks_continued_nil (hclose : IsClosing close) :
    skipBlanks (continued part close rest []) = close :: rest := by
  rcases hclose with rfl | rfl <;> exact skipBlanks_cons (by decide)

theorem skipBlanks_continued_cons : skipBlanks (continued part close rest (other :: others)) =
    ',' :: (part other ++ continued part close rest others) := by
  rw [continued, List.flatMap_cons, List.cons_append, List.cons_append, List.append_assoc]
  exact skipBlanks_cons (by decide)

/-- A number is ended by what follows a part of a container. -/
theorem ends_continued (hclose : IsClosing close) : Ends (continued part close rest others) := by
  cases others with
  | nil =>
    rcases hclose with rfl | rfl <;>
      exact ends_cons (by decide) (by decide) (by decide) (by decide)
  | cons other others => exact ends_cons (by decide) (by decide) (by decide) (by decide)

/-- **The items of an array** are read one by one, up to the closing bracket, if each of them is
read up to the blanks behind it. -/
theorem readItems?_continued {value? : α → Option Json} (read : List Json) (rest : List Char)
    (hfuel : others.length < fuel)
    (h : ∀ a ∈ first :: others, ∀ rest, Ends rest →
      readItem? (part a ++ rest) = (value? a).map fun v => (v, (after a).chars ++ rest)) :
    readItems? readItem? fuel read (part first ++ continued part ']' rest others) =
      ((first :: others).mapM value?).map fun found => (read.reverse ++ found, rest) := by
  induction others generalizing first fuel read with
  | nil =>
    obtain ⟨fuel, rfl⟩ := Nat.exists_eq_succ_of_ne_zero (Nat.ne_of_gt hfuel)
    rw [readItems?, h first List.mem_cons_self _ (ends_continued (.inl rfl))]
    cases hv : value? first with
    | none => simp [hv]
    | some v => simp [skipBlanks_append, skipBlanks_continued_nil (.inl rfl), hv]
  | cons other others ih =>
    obtain ⟨fuel, rfl⟩ := Nat.exists_eq_succ_of_ne_zero (Nat.ne_of_gt (Nat.zero_lt_of_lt hfuel))
    rw [List.forall_mem_cons] at h
    have hrest := fun v => ih (v :: read) (Nat.lt_of_succ_lt_succ hfuel) h.2
    rw [readItems?, h.1 _ (ends_continued (.inl rfl)), List.mapM_cons]
    -- what becomes of the other items does not matter if the first is refused
    generalize List.mapM value? (other :: others) = found at hrest ⊢
    cases value? first with
    | none => rfl
    | some v =>
      simp only [Option.map_some, skipBlanks_append, skipBlanks_continued_cons, hrest]
      cases found <;> simp

/-- **The entries of an object** are read one by one in the same way, and inserted into those before
them. -/
theorem readEntries?_continued {pair? : α → Option (String × Json)} (read : Entries)
    (rest : List Char) (hfuel : others.length < fuel)
    (h : ∀ a ∈ first :: others, ∀ rest, Ends rest →
      readEntry? readItem? (part a ++ rest) =
        (pair? a).map fun entry => (entry, (after a).chars ++ rest)) :
    readEntries? readItem? fuel read (part first ++ continued part '\x7d' rest others) =
      ((first :: others).mapM pair?).map fun found =>
        (found.foldl (fun entries entry => Entries.insert entries entry.1 entry.2) read, rest) := by
  induction others generalizing first fuel read with
  | nil =>
    obtain ⟨fuel, rfl⟩ := Nat.exists_eq_succ_of_ne_zero (Nat.ne_of_gt hfuel)
    rw [readEntries?, h first List.mem_cons_self _ (ends_continued (.inr rfl))]
    cases hv : pair? first with
    | none => simp [hv]
    | some v => simp [skipBlanks_append, skipBlanks_continued_nil (.inr rfl), hv]
  | cons other others ih =>
    obtain ⟨fuel, rfl⟩ := Nat.exists_eq_succ_of_ne_zero (Nat.ne_of_gt (Nat.zero_lt_of_lt hfuel))
    rw [List.forall_mem_cons] at h
    have hrest := fun entries => ih entries (Nat.lt_of_succ_lt_succ hfuel) h.2
    rw [readEntries?, h.1 _ (ends_continued (.inr rfl)), List.mapM_cons]
    -- what becomes of the other entries does not matter if the first is refused
    generalize List.mapM pair? (other :: others) = found at hrest ⊢
    cases pair? first with
    | none => rfl
    | some entry =>
      simp only [Option.map_some, skipBlanks_append, skipBlanks_continued_cons, hrest]
      cases found <;> simp

end

/-- **A key and its value**, each with the blanks around it. -/
theorem readEntry?_append (padding : Padding) (pieces : List Piece) {value? : Option Json}
    (h : readItem? cs = value?.map fun v => (v, rest)) :
    readEntry? readItem? (padding.around (quotedPieces pieces) ++ ':' :: cs) =
      ((Piece.text? pieces).bind fun key => value?.map fun v => (key, v)).map fun entry =>
        (entry, rest) := by
  obtain ⟨text, hquoted, htext⟩ := readText?_quotedPieces pieces (padding.after.chars ++ ':' :: cs)
  have hquote : skipBlanks ('"' :: text) = '"' :: text := skipBlanks_cons (by decide)
  have hcolon : skipBlanks (':' :: cs) = ':' :: cs := skipBlanks_cons (by decide)
  rw [Padding.around, List.append_assoc, List.append_assoc, hquoted, readEntry?, skipBlanks_append,
    hquote]
  simp only [htext, Piece.text?]
  cases Piece.characters? none pieces with
  | none => rfl
  | some key =>
    simp only [Option.map_some, skipBlanks_append, hcolon, h, Option.bind_some]
    cases value? <;> rfl

/-! ## Values -/

theorem length_continued_lt (part : α → List Char) (close : Char) (rest : List Char)
    (others : List α) : others.length < (continued part close rest others).length := by
  induction others with
  | nil => exact Nat.zero_lt_succ _
  | cons other others ih =>
    rw [continued, List.length_append] at ih ⊢
    rw [List.flatMap_cons, List.length_append, List.length_cons, List.length_cons]
    omega

theorem separated_append {more : Nat} (part : Fin (more + 1) → List Char) (close : Char)
    (rest : List Char) : separated part ++ [close] ++ rest =
      part 0 ++ continued part close rest ((List.finRange more).map Fin.succ) := by
  simp [separated, continued, List.flatMap_map]

/-- What is only there under a condition, for all elements of a list. -/
theorem mapM_ite {β : Type} {p : α → Prop} [DecidablePred p] (f : α → Option β) (l : List α) :
    (l.mapM fun a => if p a then f a else none) = if ∀ a ∈ l, p a then l.mapM f else none := by
  induction l with
  | nil => rfl
  | cons a l ih =>
    rw [List.mapM_cons, List.mapM_cons, ih]
    by_cases ha : p a
    · by_cases hl : ∀ b ∈ l, p b
      · rw [if_pos ha, if_pos hl, if_pos (List.forall_mem_cons.2 ⟨ha, hl⟩)]
      · rw [if_pos ha, if_neg hl, if_neg fun h => hl (List.forall_mem_cons.1 h).2]
        cases f a <;> rfl
    · rw [if_neg ha, if_neg fun h => ha (List.forall_mem_cons.1 h).1]
      rfl

namespace NumberText

/-- A number starts with a minus sign or a digit. -/
theorem exists_chars_eq_cons (number : NumberText) :
    ∃ c cs, number.chars = c :: cs ∧ (c = '-' ∨ c.isDigit = true) := by
  obtain ⟨d, ds, hds⟩ := List.exists_cons_of_ne_nil number.isWhole.ne_nil
  have hd : d.isDigit = true := number.isWhole.isDigit d (hds ▸ List.mem_cons_self)
  rw [chars, hds]
  cases number.negative with
  | true => exact ⟨'-', _, rfl, .inl rfl⟩
  | false => exact ⟨d, _, rfl, .inr hd⟩

end NumberText

namespace Spelling

/-- The text of a value starts with something that is no blank and closes no container. -/
theorem exists_chars_eq_cons (s : Spelling) :
    ∃ c cs, s.chars = c :: cs ∧ isBlank c = false ∧ c ≠ ']' := by
  cases s with
  | null => exact ⟨'n', _, rfl, by decide, by decide⟩
  | bool b => cases b <;> exact ⟨_, _, rfl, by decide, by decide⟩
  | number written =>
    obtain ⟨c, cs, hchars, hstart⟩ := written.exists_chars_eq_cons
    exact ⟨c, cs, hchars, isBlank_eq_false_of_starts hstart,
      ne_of_starts hstart (by decide) (by decide)⟩
  | text pieces => exact ⟨'"', _, rfl, by decide, by decide⟩
  | emptyArray inside => exact ⟨'[', _, rfl, by decide, by decide⟩
  | array more paddings items => exact ⟨'[', _, rfl, by decide, by decide⟩
  | emptyObject inside => exact ⟨'\x7b', _, rfl, by decide, by decide⟩
  | object more keyPaddings paddings keys values => exact ⟨'\x7b', _, rfl, by decide, by decide⟩

end Spelling

/-! ### Brackets -/

theorem readValue?_brackets (inside : Blanks) (rest : List Char) :
    readValue? levels ('[' :: (inside.chars ++ ']' :: rest)) =
      if 1 ≤ levels then some (.array [], rest) else none := by
  have hopen : ∀ cs, skipBlanks ('[' :: cs) = '[' :: cs := fun cs => skipBlanks_cons (by decide)
  have hclose : skipBlanks (']' :: rest) = ']' :: rest := skipBlanks_cons (by decide)
  rw [readValue?.eq_def, hopen]
  cases levels with
  | zero => rfl
  | succ levels => simp [skipBlanks_append, hclose]

theorem readValue?_braces (inside : Blanks) (rest : List Char) :
    readValue? levels ('\x7b' :: (inside.chars ++ '\x7d' :: rest)) =
      if 1 ≤ levels then some (.object [], rest) else none := by
  have hopen : ∀ cs, skipBlanks ('\x7b' :: cs) = '\x7b' :: cs :=
    fun cs => skipBlanks_cons (by decide)
  have hclose : skipBlanks ('\x7d' :: rest) = '\x7d' :: rest := skipBlanks_cons (by decide)
  rw [readValue?.eq_def, hopen]
  cases levels with
  | zero => rfl
  | succ levels => simp [skipBlanks_append, hclose]

/-- Blanks behind the opening bracket make no difference to the items. -/
theorem readValue?_items {first : List Char} (blanks : Blanks) (hfirst : cs = blanks.chars ++ first)
    {c : Char} {more : List Char} (hcons : first = c :: more) (hblank : isBlank c = false)
    (hclose : c ≠ ']') :
    readValue? (levels + 1) ('[' :: cs) =
      (readItems? (readValue? levels) first.length [] cs).map fun (items, rest) =>
        (.array items, rest) := by
  subst hcons hfirst
  have hopen : ∀ cs, skipBlanks ('[' :: cs) = '[' :: cs := fun cs => skipBlanks_cons (by decide)
  have hitems : readItems? (readValue? levels) (c :: more).length [] (blanks.chars ++ c :: more) =
      readItems? (readValue? levels) (c :: more).length [] (c :: more) := by
    simp only [List.length_cons, readItems?, readValue?_append]
  rw [readValue?.eq_def, hopen, hitems]
  simp [skipBlanks_append, skipBlanks_cons hblank, hclose]

theorem readValue?_entries {first : List Char} (blanks : Blanks)
    (hfirst : cs = blanks.chars ++ '"' :: first) :
    readValue? (levels + 1) ('\x7b' :: cs) =
      (readEntries? (readValue? levels) ('"' :: first).length [] cs).map fun (entries, rest) =>
        (.object entries, rest) := by
  subst hfirst
  have hopen : ∀ cs, skipBlanks ('\x7b' :: cs) = '\x7b' :: cs :=
    fun cs => skipBlanks_cons (by decide)
  have hquote : skipBlanks ('"' :: first) = '"' :: first := skipBlanks_cons (by decide)
  have hentries : readEntries? (readValue? levels) ('"' :: first).length []
      (blanks.chars ++ '"' :: first) =
      readEntries? (readValue? levels) ('"' :: first).length [] ('"' :: first) := by
    simp only [List.length_cons, readEntries?, readEntry?, skipBlanks_append]
  rw [readValue?.eq_def, hopen, hentries]
  simp [skipBlanks_append, hquote]

/-- No container is read without levels. -/
theorem readValue?_zero {c : Char} (h : c = '[' ∨ c = '\x7b') : readValue? 0 (c :: cs) = none := by
  rcases h with rfl | rfl <;>
  · rw [readValue?.eq_def, skipBlanks_cons (by decide)]
    rfl

/-- **An array** is read if all of its items are. -/
theorem readValue?_array_chars {more : Nat} {paddings : Fin (more + 1) → Padding}
    {items : Fin (more + 1) → Spelling} (ih : ∀ i rest, Ends rest →
      readValue? levels ((items i).chars ++ rest) =
        if (items i).depth ≤ levels then (items i).value?.map fun v => (v, rest) else none)
    (rest : List Char) :
    readValue? (levels + 1) ((Spelling.array more paddings items).chars ++ rest) =
      if ∀ i, (items i).depth ≤ levels then
        (Spelling.array more paddings items).value?.map fun v => (v, rest)
      else none := by
  have hitem : ∀ i ∈ (0 : Fin (more + 1)) :: (List.finRange more).map Fin.succ, ∀ rest, Ends rest →
      readValue? levels ((paddings i).around (items i).chars ++ rest) =
        (if (items i).depth ≤ levels then (items i).value? else none).map
          fun v => (v, (paddings i).after.chars ++ rest) := by
    intro i _ rest hrest
    rw [Padding.around, List.append_assoc, List.append_assoc, readValue?_append,
      ih i _ (ends_append _ hrest)]
    split <;> rfl
  -- no item begins with a closing bracket, so the array is not taken for an empty one
  obtain ⟨c, cs, hchars, hblank, hclose⟩ := (items 0).exists_chars_eq_cons
  have htext : (Spelling.array more paddings items).chars ++ rest =
      '[' :: ((paddings 0).around (items 0).chars ++
        continued (fun i => (paddings i).around (items i).chars) ']' rest
          ((List.finRange more).map Fin.succ)) := by
    rw [Spelling.chars, List.cons_append, separated_append]
  rw [htext, readValue?_items (paddings 0).before
      (by rw [Padding.around, List.append_assoc, List.append_assoc])
      (by rw [hchars, List.cons_append]) hblank hclose,
    readItems?_continued [] rest ?_ hitem, ← List.finRange_succ, mapM_ite]
  · simp only [List.mem_finRange, true_imp_iff, Spelling.value?]
    split
    · simp [Function.comp_def]
    · rfl
  · have hlt := length_continued_lt (fun i => (paddings i).around (items i).chars) ']' rest
      ((List.finRange more).map Fin.succ)
    simp only [List.length_append]
    omega

/-- **An object** is read if all of its keys and values are. -/
theorem readValue?_object_chars {more : Nat} {keyPaddings paddings : Fin (more + 1) → Padding}
    {keys : Fin (more + 1) → List Piece} {values : Fin (more + 1) → Spelling}
    (ih : ∀ i rest, Ends rest → readValue? levels ((values i).chars ++ rest) =
      if (values i).depth ≤ levels then (values i).value?.map fun v => (v, rest) else none)
    (rest : List Char) : readValue? (levels + 1)
        ((Spelling.object more keyPaddings paddings keys values).chars ++ rest) =
      if ∀ i, (values i).depth ≤ levels then
        (Spelling.object more keyPaddings paddings keys values).value?.map fun v => (v, rest)
      else none := by
  obtain ⟨part, hpart⟩ : ∃ part : Fin (more + 1) → List Char, part = fun i =>
    (keyPaddings i).around (quotedPieces (keys i)) ++
      ':' :: (paddings i).around (values i).chars := ⟨_, rfl⟩
  have hentry : ∀ i ∈ (0 : Fin (more + 1)) :: (List.finRange more).map Fin.succ, ∀ rest, Ends rest →
      readEntry? (readValue? levels) (part i ++ rest) =
        (if (values i).depth ≤ levels then
          (Piece.text? (keys i)).bind fun key => (values i).value?.map fun v => (key, v)
        else none).map fun entry => (entry, (paddings i).after.chars ++ rest) := by
    intro i _ rest hrest
    have hvalue : readValue? levels ((paddings i).around (values i).chars ++ rest) =
        (if (values i).depth ≤ levels then (values i).value? else none).map
          fun v => (v, (paddings i).after.chars ++ rest) := by
      rw [Padding.around, List.append_assoc, List.append_assoc, readValue?_append,
        ih i _ (ends_append _ hrest)]
      split <;> rfl
    rw [hpart, List.append_assoc, List.cons_append, readEntry?_append _ _ hvalue]
    split
    · rfl
    · cases Piece.text? (keys i) <;> rfl
  have htext : (Spelling.object more keyPaddings paddings keys values).chars ++ rest =
      '\x7b' :: (part 0 ++ continued part '\x7d' rest ((List.finRange more).map Fin.succ)) := by
    rw [Spelling.chars, List.cons_append, separated_append, hpart]
  -- the quote of the first key tells that the object is not empty
  obtain ⟨first, hfirst⟩ : ∃ first, part 0 = (keyPaddings 0).before.chars ++ '"' :: first := by
    refine ⟨(keys 0).flatMap Piece.chars ++ '"' :: ((keyPaddings 0).after.chars ++
      ':' :: (paddings 0).around (values 0).chars), ?_⟩
    simp [hpart, Padding.around, quotedPieces]
  rw [htext, readValue?_entries (keyPaddings 0).before
      (by rw [hfirst, List.append_assoc, List.cons_append]),
    readEntries?_continued [] rest ?_ hentry, ← List.finRange_succ, mapM_ite]
  · simp only [List.mem_finRange, true_imp_iff, Spelling.value?]
    split
    · simp [Function.comp_def, Entries.ofPairs]
    · rfl
  · have hlt := length_continued_lt part '\x7d' rest ((List.finRange more).map Fin.succ)
    simp only [List.length_cons, List.length_append]
    omega

/-- **A value is read** as what its text stands for, if it does and the levels suffice for its
depth. -/
theorem readValue?_chars (s : Spelling) (levels : Nat) (hrest : Ends rest) :
    readValue? levels (s.chars ++ rest) =
      if s.depth ≤ levels then s.value?.map fun v => (v, rest) else none := by
  -- each container takes a level away, so the induction is for all levels
  induction s generalizing levels rest with
  | null =>
    rw [readValue?.eq_def, Spelling.chars]
    simp [skipBlanks_cons, isBlank, readLiteral?, Spelling.depth, Spelling.value?]
  | bool b =>
    cases b <;>
    · rw [readValue?.eq_def, Spelling.chars]
      simp [skipBlanks_cons, isBlank, readLiteral?, Spelling.depth, Spelling.value?]
  | number written =>
    obtain ⟨c, cs, hchars, hstart⟩ := written.exists_chars_eq_cons
    have hread := read?_chars written hrest
    have hdepth : (Spelling.number written).depth ≤ levels := Nat.zero_le _
    rw [Spelling.chars, if_pos hdepth, Spelling.value?]
    rw [hchars, List.cons_append] at hread ⊢
    rw [readValue?_of_starts hstart, hread, Option.bind_some]
  | text pieces =>
    obtain ⟨cs, hquoted, htext⟩ := readText?_quotedPieces pieces rest
    have hquote : skipBlanks ('"' :: cs) = '"' :: cs := skipBlanks_cons (by decide)
    rw [readValue?.eq_def, Spelling.chars, hquoted, hquote]
    simp [htext, Spelling.depth, Spelling.value?, Piece.text?, Function.comp_def]
  | emptyArray inside =>
    rw [Spelling.chars, List.cons_append, List.append_assoc, List.singleton_append,
      readValue?_brackets]
    rfl
  | array more paddings items ih =>
    cases levels with
    | zero =>
      rw [Spelling.chars, List.cons_append, readValue?_zero (.inl rfl),
        if_neg Spelling.not_depth_array_le_zero]
    | succ levels =>
      rw [readValue?_array_chars fun i rest hrest => ih i levels hrest]
      exact if_congr Spelling.depth_array_le_succ.symm rfl rfl
  | emptyObject inside =>
    rw [Spelling.chars, List.cons_append, List.append_assoc, List.singleton_append,
      readValue?_braces]
    rfl
  | object more keyPaddings paddings keys values ih =>
    cases levels with
    | zero =>
      rw [Spelling.chars, List.cons_append, readValue?_zero (.inr rfl),
        if_neg Spelling.not_depth_object_le_zero]
    | succ levels =>
      rw [readValue?_object_chars fun i rest hrest => ih i levels hrest]
      exact if_congr Spelling.depth_object_le_succ.symm rfl rfl

/-- **A valid text is read** as what it stands for, if it does and no more than 127 containers lie
inside each other, and is refused otherwise. -/
theorem parse?_spelled {text : String} {padding : Padding} {s : Spelling}
    (h : text.toList = padding.around s.chars) :
    parse? text = if s.depth ≤ parserLevels then s.value? else none := by
  have hends : Ends padding.after.chars := by
    have hnil : Ends ([] : List Char) := fun c hc => nomatch hc
    simpa using ends_append padding.after hnil
  -- behind the value there is nothing but blanks
  have hafter : skipBlanks padding.after.chars = [] := by
    have hskip := skipBlanks_append padding.after []
    rw [List.append_nil] at hskip
    exact hskip
  rw [parse?, h, Padding.around, List.append_assoc, readValue?_append,
    readValue?_chars s parserLevels hends]
  by_cases hdepth : s.depth ≤ parserLevels
  · rw [if_pos hdepth, if_pos hdepth]
    cases s.value? <;> simp [hafter]
  · rw [if_neg hdepth, if_neg hdepth]

end Json

end Parcel
