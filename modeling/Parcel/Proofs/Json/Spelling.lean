import Mathlib.Data.Finset.Lattice.Fold
import Mathlib.Data.Fintype.Basic
import Mathlib.Order.Lattice.Nat
import Parcel.Json.Parser
import Parcel.Proofs.Json.Digits

/-!
# Valid texts

The texts of values as the JSON grammar has them, whatever they are read as: any blanks between the
parts, any escapes in texts, numbers of any size with or without a fraction and an exponent, objects
in which keys occur more than once. A spelling is one derivation of the grammar.

Two things can keep a valid text from standing for a value. A number may be too large for a double,
and a half of a pair may stand alone among the escapes of a text. Of a key that occurs more than
once the last value counts, in the place where the key first stood.

## Main definitions

* `Blanks`, `Padding`: what may stand around each part
* `NumberText`, `Piece`: a number, and what a text in quotes is made of
* `Spelling`, `Spelling.chars`: a derivation of the grammar, and its text
* `Spelling.depth`: how many containers of the text lie inside each other
* `Spelling.value?`: the value that a text stands for, if it does
* `IsValid`: the texts that the grammar has
-/

namespace Parcel.Json

open Numeral

/-! ## Blanks -/

/-- **Blanks**, in any number. -/
structure Blanks where
  chars : List Char
  blank : ∀ c ∈ chars, isBlank c = true

/-- What stands in front of a part and behind it. -/
structure Padding where
  before : Blanks
  after : Blanks

/-- A part with the blanks around it. -/
def Padding.around (padding : Padding) (part : List Char) : List Char :=
  padding.before.chars ++ part ++ padding.after.chars

/-! ## Numbers -/

/-- **Digits**, at least one. -/
structure Figures where
  chars : List Char
  ne_nil : chars ≠ []
  isDigit : ∀ c ∈ chars, c.isDigit = true

/-- **An exponent**: its letter in either case, a sign or none, and digits. -/
structure ExponentText where
  letter : Char
  sign : List Char
  figures : Figures
  letter_mem : letter ∈ ['e', 'E']
  sign_mem : sign ∈ [[], ['+'], ['-']]

namespace ExponentText

def chars (exponent : ExponentText) : List Char :=
  exponent.letter :: (exponent.sign ++ exponent.figures.chars)

/-- The number that an exponent stands for. -/
def value (exponent : ExponentText) : Int :=
  let n := digitsValue exponent.figures.chars
  if exponent.sign = ['-'] then -(n : Int) else n

end ExponentText

/-- **A number**: a whole part that has no superfluous zeros, with a minus sign or without, and then
a fraction and an exponent, if it has them. -/
structure NumberText where
  negative : Bool
  whole : List Char
  fraction : Option Figures
  exponent : Option ExponentText
  isWhole : IsWhole whole

namespace NumberText

/-- The text of the fraction, with its point. -/
def fractionChars (number : NumberText) : List Char :=
  match number.fraction with
  | none => []
  | some figures => '.' :: figures.chars

/-- The text of the exponent. -/
def exponentChars (number : NumberText) : List Char :=
  match number.exponent with
  | none => []
  | some exponent => exponent.chars

def chars (number : NumberText) : List Char :=
  minus number.negative ++ number.whole ++ (number.fractionChars ++ number.exponentChars)

/-- The parts of a number. -/
def numeral (number : NumberText) : Numeral where
  negative := number.negative
  whole := number.whole
  fraction := (number.fraction.map Figures.chars).getD []
  exponent := (number.exponent.map ExponentText.value).getD 0
  integral := number.fraction.isNone && number.exponent.isNone

end NumberText

/-! ## Texts in quotes -/

/-- **A piece of a text in quotes**: a character that stands for itself, an escape by a letter, or
an escape by the four hexadecimal digits of a number of 16 bits. -/
inductive Piece
  | plain (c : Char) (space : 0x20 ≤ c.toNat) (quote : c ≠ '"') (backslash : c ≠ '\\')
  | short (letter : Char) (letter_mem : letter ∈ ['"', '\\', '/', 'b', 'f', 'n', 'r', 't'])
  | unit (a b c d : Char) (number : Nat) (digits : hexUnit? a b c d = some number)

/-- The letters of escapes stand for a character, and do not announce a number. -/
theorem exists_simpleEscape?_eq {letter : Char}
    (h : letter ∈ ['"', '\\', '/', 'b', 'f', 'n', 'r', 't']) :
    ∃ c, simpleEscape? letter = some c ∧ letter ≠ 'u' := by
  simp only [List.mem_cons, List.not_mem_nil, or_false] at h
  rcases h with rfl | rfl | rfl | rfl | rfl | rfl | rfl | rfl <;> exact ⟨_, rfl, by decide⟩

namespace Piece

def chars : Piece → List Char
  | .plain c _ _ _ => [c]
  | .short letter _ => ['\\', letter]
  | .unit a b c d _ _ => ['\\', 'u', a, b, c, d]

/-- **The characters that the pieces of a text stand for**, behind the first half of a pair or
behind none. Two halves, one behind the other, stand for one character; a half that stands alone
stands for none. -/
def characters? : Option Nat → List Piece → Option (List Char)
  | none, [] => some []
  | none, .plain c _ _ _ :: rest => (characters? none rest).map (c :: ·)
  | none, .short letter _ :: rest =>
    (simpleEscape? letter).bind fun c => (characters? none rest).map (c :: ·)
  | none, .unit _ _ _ _ number _ :: rest =>
    if isTrailing number then none
    else if isLeading number then characters? (some number) rest
    else (characters? none rest).map (Char.ofNat number :: ·)
  | some leading, .unit _ _ _ _ number _ :: rest =>
    if isTrailing number then (characters? none rest).map (paired leading number :: ·) else none
  | some _, _ => none

/-- The text that pieces stand for. -/
def text? (pieces : List Piece) : Option String :=
  (characters? none pieces).map String.ofList

end Piece

/-- A text in quotes. -/
def quotedPieces (pieces : List Piece) : List Char :=
  '"' :: (pieces.flatMap Piece.chars ++ ['"'])

/-! ## Values -/

/-- **A value as a text spells it.** Containers that are not empty have one item or entry more than
the number they are given. -/
inductive Spelling where
  | null
  | bool (b : Bool)
  | number (written : NumberText)
  | text (pieces : List Piece)
  | emptyArray (inside : Blanks)
  | array (more : Nat) (paddings : Fin (more + 1) → Padding) (items : Fin (more + 1) → Spelling)
  | emptyObject (inside : Blanks)
  | object (more : Nat) (keyPaddings paddings : Fin (more + 1) → Padding)
      (keys : Fin (more + 1) → List Piece) (values : Fin (more + 1) → Spelling)

/-- Parts with a comma between them, one more than the number given. -/
def separated {more : Nat} (part : Fin (more + 1) → List Char) : List Char :=
  part 0 ++ (List.finRange more).flatMap fun i => ',' :: part i.succ

namespace Spelling

/-- **The text of a value.** -/
def chars : Spelling → List Char
  | .null => ['n', 'u', 'l', 'l']
  | .bool true => ['t', 'r', 'u', 'e']
  | .bool false => ['f', 'a', 'l', 's', 'e']
  | .number written => written.chars
  | .text pieces => quotedPieces pieces
  | .emptyArray inside => '[' :: (inside.chars ++ [']'])
  | .array _ paddings items =>
    '[' :: (separated (fun i => (paddings i).around (chars (items i))) ++ [']'])
  | .emptyObject inside => '\x7b' :: (inside.chars ++ ['\x7d'])
  | .object _ keyPaddings paddings keys values =>
    '\x7b' :: (separated (fun i => (keyPaddings i).around (quotedPieces (keys i)) ++
      ':' :: (paddings i).around (chars (values i))) ++ ['\x7d'])

/-- **The number of containers that lie inside each other** in the text, also in values that are
replaced later. -/
def depth : Spelling → Nat
  | .emptyArray _ => 1
  | .array _ _ items => (Finset.univ.sup fun i => depth (items i)) + 1
  | .emptyObject _ => 1
  | .object _ _ _ _ values => (Finset.univ.sup fun i => depth (values i)) + 1
  | _ => 0

/-- **The value that a text stands for.** -/
def value? : Spelling → Option Json
  | .null => some .null
  | .bool b => some (.bool b)
  | .number written => written.numeral.value?
  | .text pieces => (Piece.text? pieces).map .text
  | .emptyArray _ => some (.array [])
  | .array more _ items => ((List.finRange (more + 1)).mapM fun i => value? (items i)).map .array
  | .emptyObject _ => some (.object [])
  | .object more _ _ keys values =>
    ((List.finRange (more + 1)).mapM fun i =>
      (Piece.text? (keys i)).bind fun key =>
        (value? (values i)).map fun v => (key, v)).map fun pairs =>
          .object (Entries.ofPairs pairs)

variable {more n : Nat} {keyPaddings paddings : Fin (more + 1) → Padding}
  {items values : Fin (more + 1) → Spelling} {keys : Fin (more + 1) → List Piece}

theorem depth_array_le_succ :
    depth (.array more paddings items) ≤ n + 1 ↔ ∀ i, (items i).depth ≤ n := by
  simp [depth]

theorem depth_object_le_succ :
    depth (.object more keyPaddings paddings keys values) ≤ n + 1 ↔ ∀ i, (values i).depth ≤ n := by
  simp [depth]

theorem not_depth_array_le_zero : ¬depth (.array more paddings items) ≤ 0 :=
  Nat.not_succ_le_zero _

theorem not_depth_object_le_zero : ¬depth (.object more keyPaddings paddings keys values) ≤ 0 :=
  Nat.not_succ_le_zero _

end Spelling

/-- **The texts that the grammar has**: a value with blanks around it. -/
def IsValid (text : String) : Prop :=
  ∃ (padding : Padding) (spelling : Spelling), text.toList = padding.around spelling.chars

end Parcel.Json
