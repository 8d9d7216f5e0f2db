import Mathlib.Data.List.TakeWhile
import Parcel.Proofs.Json.Spelled

/-!
# Only valid texts are read

Whatever the parser accepts is a text of the grammar, with any number of levels. Each of its readers
leaves a derivation behind: the digits of a number, the pieces of a text, the parts of a container
with the blanks around them, which come as a list and are counted in the end.

## Main definitions

* `Recognises`: a reader that accepts nothing but values
* `itemChars`, `entryChars`: the text of one part of a container

## Main results

* `Numeral.exists_of_read?`, `exists_of_readText?`: numbers and texts in quotes
* `exists_of_readItems?`, `exists_of_readEntries?`: the parts of containers
* `recognises_readValue?`, `isValid_of_parse?`: values and whole texts
-/

namespace Parcel

namespace Numeral

variable {cs found rest : List Char}

/-! ## Numbers -/

theorem eq_append_of_digits (h : digits cs = (found, rest)) :
    cs = found ++ rest ∧ ∀ c ∈ found, c.isDigit = true := by
  rw [digits, Prod.mk.injEq] at h
  obtain ⟨rfl, rfl⟩ := h
  exact ⟨List.takeWhile_append_dropWhile.symm, fun c hc => List.mem_takeWhile_imp hc⟩

theorem eq_append_of_whole? (h : whole? cs = some (found, rest)) :
    cs = found ++ rest ∧ IsWhole found := by
  rw [whole?] at h
  split at h
  · contradiction
  · contradiction
  · next hne hzero hdigits =>
    cases h
    obtain ⟨rfl, hdigit⟩ := eq_append_of_digits hdigits
    refine ⟨rfl, hne, hdigit, fun hhead => ?_⟩
    -- more than one digit does not start with a zero
    obtain ⟨others, rfl⟩ := List.head?_eq_some_iff.1 hhead
    cases others with
    | nil => rfl
    | cons d others => exact absurd rfl (hzero d others)

theorem eq_append_of_fraction? (h : fraction? cs = some (found, rest)) :
    ∃ fraction : Option Json.Figures,
      cs = fraction.elim [] (fun figures => '.' :: figures.chars) ++ rest := by
  unfold fraction? at h
  split at h
  · split at h
    · contradiction
    · next hne hdigits =>
      cases h
      obtain ⟨rfl, hdigit⟩ := eq_append_of_digits hdigits
      exact ⟨some ⟨found, hne, hdigit⟩, rfl⟩
  · cases h
    exact ⟨none, rfl⟩

theorem eq_append_of_sign {negative : Bool} (h : sign cs = (negative, rest)) :
    ∃ text ∈ [[], ['+'], ['-']], cs = text ++ rest := by
  unfold sign at h
  split at h
  · cases h
    exact ⟨['-'], by simp, rfl⟩
  · cases h
    exact ⟨['+'], by simp, rfl⟩
  · cases h
    exact ⟨[], by simp, rfl⟩

theorem eq_append_of_exponent? {n : Option Int} (h : exponent? cs = some (n, rest)) :
    ∃ exponent : Option Json.ExponentText,
      cs = exponent.elim [] Json.ExponentText.chars ++ rest := by
  unfold exponent? at h
  split at h
  · cases h
    exact ⟨none, rfl⟩
  · next c behind =>
    split at h
    · next hletter =>
      obtain ⟨negative, unsigned, hsign⟩ :
        ∃ negative unsigned, sign behind = (negative, unsigned) := ⟨_, _, rfl⟩
      rw [hsign] at h
      obtain ⟨text, htext, rfl⟩ := eq_append_of_sign hsign
      dsimp only at h
      split at h
      · contradiction
      · next figures _ hne hdigits =>
        cases h
        obtain ⟨rfl, hdigit⟩ := eq_append_of_digits hdigits
        refine ⟨some ⟨c, text, ⟨figures, hne, hdigit⟩, by simpa using hletter, htext⟩, ?_⟩
        simp [Json.ExponentText.chars]
    · cases h
      exact ⟨none, rfl⟩

/-- A number is read behind its sign. -/
theorem exists_of_read?_unsigned {n : Numeral} (h : read? cs = some (n, rest)) :
    ∃ negative unsigned, cs = minus negative ++ unsigned ∧ ∃ whole fraction exponent behind behind',
      whole? unsigned = some (whole, behind) ∧ fraction? behind = some (fraction, behind') ∧
        exponent? behind' = some (exponent, rest) := by
  simp only [read?, Option.bind_eq_bind, Option.bind_eq_some_iff, Option.pure_def,
    Option.some.injEq] at h
  obtain ⟨⟨whole, behind⟩, hwhole, ⟨fraction, behind'⟩, hfraction, ⟨exponent, _⟩, hexponent, heq⟩ :=
    h
  obtain ⟨-, rfl⟩ := Prod.mk.inj heq
  split at hwhole
  · exact ⟨true, _, rfl, whole, fraction, exponent, behind, behind', hwhole, hfraction, hexponent⟩
  · exact ⟨false, _, rfl, whole, fraction, exponent, behind, behind', hwhole, hfraction, hexponent⟩

/-- **A number that is read** is written as the grammar has it. -/
theorem exists_of_read? {n : Numeral} (h : read? cs = some (n, rest)) :
    ∃ number : Json.NumberText, cs = number.chars ++ rest := by
  obtain ⟨negative, unsigned, rfl, whole, _, _, _, _, hwhole, hfraction, hexponent⟩ :=
    exists_of_read?_unsigned h
  obtain ⟨rfl, hisWhole⟩ := eq_append_of_whole? hwhole
  obtain ⟨fraction, rfl⟩ := eq_append_of_fraction? hfraction
  obtain ⟨exponent, rfl⟩ := eq_append_of_exponent? hexponent
  refine ⟨⟨negative, whole, fraction, exponent, hisWhole⟩, ?_⟩
  cases fraction <;> cases exponent <;>
    simp [Json.NumberText.chars, Json.NumberText.fractionChars, Json.NumberText.exponentChars]

end Numeral

namespace Json

variable {cs rest : List Char}

/-! ## Texts in quotes -/

theorem letter_mem_of_simpleEscape? {letter c : Char} (h : simpleEscape? letter = some c) :
    letter ∈ ['"', '\\', '/', 'b', 'f', 'n', 'r', 't'] := by
  unfold simpleEscape? at h
  simp only [List.mem_cons, List.not_mem_nil, or_false]
  split at h
  · next hitself => tauto
  · repeat' split at h
    all_goals tauto

/-- **A text that is read** is made of pieces, up to the closing quote. -/
theorem exists_of_readText? {read found : List Char} (h : readText? read cs = some (found, rest)) :
    ∃ pieces : List Piece, cs = pieces.flatMap Piece.chars ++ '"' :: rest := by
  -- one case for each clause of the reader; the clauses that refuse contradict `h`
  induction read, cs using readText?.induct with
  | case1 read => simp [readText?] at h
  | case2 read behind =>
    rw [readText?] at h
    cases h
    exact ⟨[], rfl⟩
  | case3 read a b c d behind hdigits =>
    rw [readText?, hdigits] at h
    contradiction
  | case4 read a b c d behind n hdigits htrailing =>
    rw [readText?, hdigits] at h
    simp [htrailing] at h
  | case5 read a b c d n hdigits htrailing hleading a' b' c' d' behind hdigits' =>
    rw [readText?, hdigits] at h
    simp [htrailing, hleading, hdigits'] at h
  | case6 read a b c d n hdigits htrailing hleading a' b' c' d' behind n' hdigits' hsecond ih =>
    rw [readText?, hdigits] at h
    simp only [htrailing, hleading, hdigits', hsecond, if_true] at h
    obtain ⟨pieces, rfl⟩ := ih h
    exact ⟨.unit a b c d n hdigits :: .unit a' b' c' d' n' hdigits' :: pieces, rfl⟩
  | case7 read a b c d n hdigits htrailing hleading a' b' c' d' behind n' hdigits' hsecond =>
    rw [readText?, hdigits] at h
    simp [htrailing, hleading, hdigits', hsecond] at h
  | case8 read a b c d behind n hdigits htrailing hleading hother =>
    rw [readText?, hdigits] at h
    simp [htrailing, hleading] at h
  | case9 read a b c d behind n hdigits htrailing hleading ih =>
    rw [readText?, hdigits] at h
    simp only [htrailing, hleading] at h
    obtain ⟨pieces, rfl⟩ := ih h
    exact ⟨.unit a b c d n hdigits :: pieces, rfl⟩
  | case10 read letter behind hnumber c hescape ih =>
    rw [readText?, hescape] at h
    · obtain ⟨pieces, rfl⟩ := ih h
      exact ⟨.short letter (letter_mem_of_simpleEscape? hescape) :: pieces, rfl⟩
    · exact hnumber
  | case11 read letter behind hnumber hescape =>
    rw [readText?, hescape] at h
    · contradiction
    · exact hnumber
  | case12 read c behind hquote hnumber hescape hcontrol =>
    rw [readText?, if_pos hcontrol] at h
    · contradiction
    · exact hquote
    · exact hnumber
    · exact hescape
  | case13 read c behind hquote hnumber hescape hplain ih =>
    rw [readText?, if_neg hplain] at h
    · obtain ⟨pieces, rfl⟩ := ih h
      rw [not_or] at hplain
      exact ⟨.plain c (Nat.le_of_not_lt hplain.1) hquote hplain.2 :: pieces, rfl⟩
    · exact hquote
    · exact hnumber
    · exact hescape

/-! ## Blanks -/

/-- What is skipped in front of a part is blank. -/
theorem exists_append_skipBlanks (cs : List Char) :
    ∃ blanks : Blanks, cs = blanks.chars ++ skipBlanks cs :=
  ⟨⟨cs.takeWhile isBlank, fun _ hc => List.mem_takeWhile_imp hc⟩,
    List.takeWhile_append_dropWhile.symm⟩

theorem exists_append_of_skipBlanks {found : List Char} (h : skipBlanks cs = found) :
    ∃ blanks : Blanks, cs = blanks.chars ++ found :=
  h ▸ exists_append_skipBlanks cs

/-! ## Containers -/

variable {α : Type} {readItem? : List Char → Option (Json × List Char)} {fuel : Nat}

/-- **A reader recognises values** if whatever it reads is a value behind blanks. -/
def Recognises (readItem? : List Char → Option (Json × List Char)) : Prop :=
  ∀ cs v rest, readItem? cs = some (v, rest) →
    ∃ (before : Blanks) (s : Spelling), cs = before.chars ++ (s.chars ++ rest)

/-- The text of an item of an array. -/
def itemChars (item : Padding × Spelling) : List Char :=
  item.1.around item.2.chars

/-- The text of an entry of an object. -/
def entryChars (entry : (Padding × List Piece) × (Padding × Spelling)) : List Char :=
  entry.1.1.around (quotedPieces entry.1.2) ++ ':' :: itemChars entry.2

/-- **The items of an array that are read** are values with commas between them, up to the closing
bracket. -/
theorem exists_of_readItems? (hrecognises : Recognises readItem?) {read items : List Json}
    (h : readItems? readItem? fuel read cs = some (items, rest)) :
    ∃ first others, cs = itemChars first ++ continued itemChars ']' rest others := by
  induction fuel generalizing read cs with
  | zero => contradiction
  | succ fuel ih =>
    rw [readItems?] at h
    split at h
    · contradiction
    · next item behind hitem =>
      obtain ⟨before, s, rfl⟩ := hrecognises _ _ _ hitem
      split at h
      · next more hcomma =>
        obtain ⟨after, rfl⟩ := exists_append_of_skipBlanks hcomma
        obtain ⟨first, others, rfl⟩ := ih h
        exact ⟨(⟨before, after⟩, s), first :: others,
          by simp [itemChars, Padding.around, continued]⟩
      · next more hclose =>
        obtain ⟨after, rfl⟩ := exists_append_of_skipBlanks hclose
        cases h
        exact ⟨(⟨before, after⟩, s), [], by simp [itemChars, Padding.around, continued]⟩
      · contradiction

/-- **A key and its value that are read** are a text in quotes and a value, with a colon between
them. -/
theorem exists_of_readEntry? (hrecognises : Recognises readItem?) {entry : String × Json}
    (h : readEntry? readItem? cs = some (entry, rest)) :
    ∃ (padding : Padding) (pieces : List Piece) (before : Blanks) (s : Spelling),
      cs = padding.around (quotedPieces pieces) ++ ':' :: (before.chars ++ (s.chars ++ rest)) := by
  unfold readEntry? at h
  split at h
  · next text hquote =>
    obtain ⟨beforeKey, rfl⟩ := exists_append_of_skipBlanks hquote
    split at h
    · contradiction
    · next key behind hkey =>
      obtain ⟨pieces, rfl⟩ := exists_of_readText? hkey
      split at h
      · next value hcolon =>
        obtain ⟨afterKey, rfl⟩ := exists_append_of_skipBlanks hcolon
        split at h
        · contradiction
        · next v behind' hvalue =>
          obtain ⟨before, s, rfl⟩ := hrecognises _ _ _ hvalue
          cases h
          exact ⟨⟨beforeKey, afterKey⟩, pieces, before, s, by simp [Padding.around, quotedPieces]⟩
      · contradiction
  · contradiction

/-- **The entries of an object that are read** are keys and values with commas between them, up to
the closing brace. -/
theorem exists_of_readEntries? (hrecognises : Recognises readItem?) {read entries : Entries}
    (h : readEntries? readItem? fuel read cs = some (entries, rest)) :
    ∃ first others, cs = entryChars first ++ continued entryChars '\x7d' rest others := by
  induction fuel generalizing read cs with
  | zero => contradiction
  | succ fuel ih =>
    rw [readEntries?] at h
    split at h
    · contradiction
    · next key v behind hentry =>
      obtain ⟨padding, pieces, before, s, rfl⟩ := exists_of_readEntry? hrecognises hentry
      split at h
      · next more hcomma =>
        obtain ⟨after, rfl⟩ := exists_append_of_skipBlanks hcomma
        obtain ⟨first, others, rfl⟩ := ih h
        exact ⟨((padding, pieces), (⟨before, after⟩, s)), first :: others,
          by simp [entryChars, itemChars, Padding.around, continued]⟩
      · next more hclose =>
        obtain ⟨after, rfl⟩ := exists_append_of_skipBlanks hclose
        cases h
        exact ⟨((padding, pieces), (⟨before, after⟩, s)), [],
          by simp [entryChars, itemChars, Padding.around, continued]⟩
      · contradiction

/-! ## Values -/

/-- The parts of a container, in the order of their places. -/
theorem continued_eq_separated (part : α → List Char) (close : Char) (rest : List Char) (first : α)
    (others : List α) : part first ++ continued part close rest others =
      separated (fun i => part ((first :: others).get i)) ++ close :: rest := by
  have hothers : ((List.finRange others.length).flatMap fun i => ',' :: part (others.get i)) =
      others.flatMap fun a => ',' :: part a := by
    rw [← List.flatMap_map (f := others.get) (g := fun a => ',' :: part a), List.map_get_finRange]
  rw [continued, ← hothers, separated, List.append_assoc]
  rfl

/-- More blanks in front of a part. -/
def Padding.behind (padding : Padding) (blanks : Blanks) : Padding where
  before := ⟨blanks.chars ++ padding.before.chars,
    fun c hc => (List.mem_append.1 hc).elim (blanks.blank c) (padding.before.blank c)⟩
  after := padding.after

theorem around_behind (padding : Padding) (blanks : Blanks) (part : List Char) :
    (padding.behind blanks).around part = blanks.chars ++ padding.around part := by
  simp [Padding.behind, Padding.around]

variable {inside : Blanks}

/-- **An array** whose items are given as a list, with any blanks behind the opening bracket. -/
theorem exists_array_chars (first : Padding × Spelling) (others : List (Padding × Spelling)) :
    ∃ s : Spelling, '[' :: (inside.chars ++ (itemChars first ++
      continued itemChars ']' rest others)) = s.chars ++ rest := by
  obtain ⟨padding, s⟩ := first
  have hfirst : inside.chars ++ (itemChars (padding, s) ++ continued itemChars ']' rest others) =
      itemChars (padding.behind inside, s) ++ continued itemChars ']' rest others := by
    rw [itemChars, itemChars, around_behind, List.append_assoc]
  refine ⟨.array others.length (fun i => (((padding.behind inside, s) :: others).get i).1)
    (fun i => (((padding.behind inside, s) :: others).get i).2), ?_⟩
  rw [hfirst, continued_eq_separated, Spelling.chars, List.cons_append, List.append_assoc]
  rfl

/-- **An object** whose entries are given as a list, with any blanks behind the opening brace. -/
theorem exists_object_chars (first : (Padding × List Piece) × (Padding × Spelling))
    (others : List ((Padding × List Piece) × (Padding × Spelling))) :
    ∃ s : Spelling, '\x7b' :: (inside.chars ++ (entryChars first ++
      continued entryChars '\x7d' rest others)) = s.chars ++ rest := by
  obtain ⟨⟨padding, key⟩, value⟩ := first
  have hfirst : inside.chars ++ (entryChars ((padding, key), value) ++
      continued entryChars '\x7d' rest others) =
      entryChars ((padding.behind inside, key), value) ++
        continued entryChars '\x7d' rest others := by
    rw [entryChars, entryChars, around_behind, List.append_assoc, List.append_assoc,
      List.append_assoc]
  refine ⟨.object others.length
    (fun i => ((((padding.behind inside, key), value) :: others).get i).1.1)
    (fun i => ((((padding.behind inside, key), value) :: others).get i).2.1)
    (fun i => ((((padding.behind inside, key), value) :: others).get i).1.2)
    (fun i => ((((padding.behind inside, key), value) :: others).get i).2.2), ?_⟩
  rw [hfirst, continued_eq_separated, Spelling.chars, List.cons_append, List.append_assoc]
  rfl

/-- Items that are read behind an opening bracket make an array. -/
theorem exists_array_of_readItems? (hrecognises : Recognises readItem?) {read items : List Json}
    (h : readItems? readItem? fuel read (skipBlanks cs) = some (items, rest)) :
    ∃ s : Spelling, '[' :: cs = s.chars ++ rest := by
  obtain ⟨inside, hinside⟩ := exists_append_skipBlanks cs
  obtain ⟨first, others, hitems⟩ := exists_of_readItems? hrecognises h
  rw [hinside, hitems]
  exact exists_array_chars first others

/-- Entries that are read behind an opening brace make an object. -/
theorem exists_object_of_readEntries? (hrecognises : Recognises readItem?) {read entries : Entries}
    (h : readEntries? readItem? fuel read (skipBlanks cs) = some (entries, rest)) :
    ∃ s : Spelling, '\x7b' :: cs = s.chars ++ rest := by
  obtain ⟨inside, hinside⟩ := exists_append_skipBlanks cs
  obtain ⟨first, others, hentries⟩ := exists_of_readEntries? hrecognises h
  rw [hinside, hentries]
  exact exists_object_chars first others

theorem eq_append_of_readLiteral? {literal : List Char} {value v : Json}
    (h : readLiteral? literal value cs = some (v, rest)) : cs = literal ++ rest := by
  rw [readLiteral?, Option.ite_none_right_eq_some, Option.some.injEq] at h
  obtain ⟨behind, rfl⟩ := List.isPrefixOf_iff_prefix.1 h.1
  cases h.2
  rw [List.drop_left]

/-- **Whatever is read is a value** behind blanks. -/
theorem recognises_readValue? (levels : Nat) : Recognises (readValue? levels) := by
  -- the items of a container are read with one level less
  induction levels using Nat.strongRecOn with
  | ind levels ih =>
    intro cs v rest h
    obtain ⟨before, hcs⟩ := exists_append_skipBlanks cs
    suffices hvalue : ∃ s : Spelling, skipBlanks cs = s.chars ++ rest by
      obtain ⟨s, hs⟩ := hvalue
      exact ⟨before, s, hs ▸ hcs⟩
    rw [readValue?.eq_def] at h
    split at h
    · contradiction
    · next text hquote =>
      obtain ⟨⟨found, _⟩, htext, heq⟩ := Option.map_eq_some_iff.1 h
      obtain ⟨pieces, rfl⟩ := exists_of_readText? htext
      cases heq
      exact ⟨.text pieces, by simp [hquote, Spelling.chars, quotedPieces]⟩
    · next behind hopen =>
      cases levels with
      | zero => contradiction
      | succ levels =>
        dsimp only at h
        split at h
        · next hclose =>
          obtain ⟨inside, rfl⟩ := exists_append_of_skipBlanks hclose
          cases h
          exact ⟨.emptyArray inside, by simp [hopen, Spelling.chars]⟩
        · obtain ⟨⟨items, _⟩, hitems, heq⟩ := Option.map_eq_some_iff.1 h
          cases heq
          rw [hopen]
          exact exists_array_of_readItems? (ih levels (Nat.lt_succ_self _)) hitems
    · next behind hopen =>
      cases levels with
      | zero => contradiction
      | succ levels =>
        dsimp only at h
        split at h
        · next hclose =>
          obtain ⟨inside, rfl⟩ := exists_append_of_skipBlanks hclose
          cases h
          exact ⟨.emptyObject inside, by simp [hopen, Spelling.chars]⟩
        · obtain ⟨⟨entries, _⟩, hentries, heq⟩ := Option.map_eq_some_iff.1 h
          cases heq
          rw [hopen]
          exact exists_object_of_readEntries? (ih levels (Nat.lt_succ_self _)) hentries
    · exact ⟨.null, eq_append_of_readLiteral? h⟩
    · exact ⟨.bool true, eq_append_of_readLiteral? h⟩
    · exact ⟨.bool false, eq_append_of_readLiteral? h⟩
    · split at h
      · contradiction
      · next numeral behind hread =>
        obtain ⟨_, -, heq⟩ := Option.map_eq_some_iff.1 h
        cases heq
        obtain ⟨number, hnumber⟩ := Numeral.exists_of_read? hread
        exact ⟨.number number, hnumber⟩

/-- **Whatever is parsed is valid.** -/
theorem isValid_of_parse? {text : String} {v : Json} (h : parse? text = some v) : IsValid text := by
  rw [parse?] at h
  split at h
  · contradiction
  · next value behind hvalue =>
    obtain ⟨before, s, htext⟩ := recognises_readValue? _ _ _ _ hvalue
    obtain ⟨after, hafter⟩ := exists_append_skipBlanks behind
    split at h
    · next hempty =>
      rw [List.isEmpty_iff.1 hempty, List.append_nil] at hafter
      exact ⟨⟨before, after⟩, s, by rw [htext, hafter, Padding.around, List.append_assoc]⟩
    · contradiction

end Json

end Parcel
