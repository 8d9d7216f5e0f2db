import Mathlib.Data.Finset.Lattice.Fold
import Mathlib.Data.Fintype.Basic
import Mathlib.Order.Lattice.Nat
import Parcel.Cbor.Reader

/-!
# Well-formed encodings

The bytes of a data item as the format has them, whatever they stand for: every argument in any
width that it fits, lengths given in advance or left open until a break, any simple value, any tag.
Texts come as texts and arrays with as many items as their header announces, so there is an encoding
for every byte string that is one well-formed item. There is one more for each simple value below
32, which has a byte of its own here as well as its place in the first byte.

Not everything well formed stands for something. Of the simple values only those of booleans, null
and undefined do, and big integers below the negative ones that are read do not. Whatever contains
such a part is without meaning as a whole.

## Main definitions

* `Argument`, `Length`, `Segment`: what a header announces, and a string of known length
* `Encoding`, `Encoding.toBytes`: a well-formed item, and its bytes
* `Encoding.depth`: how many arrays, maps and tags lie inside each other
* `Encoding.Means`, `Encoding.Meaningless`: the item that an encoding stands for, or that there is
  none

## Main results

* `Encoding.means_or_meaningless`: every encoding is one or the other
-/

namespace Parcel.Cbor

/-! ## Headers -/

/-- **Where an argument stands**: in the first byte of the header, or in so many bytes behind it. -/
inductive Width
  | immediate
  | one
  | two
  | four
  | eight
deriving DecidableEq, Repr

namespace Width

/-- The bytes behind the first one. -/
def size : Width → Nat
  | .immediate => 0
  | .one => 1
  | .two => 2
  | .four => 4
  | .eight => 8

/-- The least number that does not fit. -/
def bound : Width → Nat
  | .immediate => 24
  | .one => UInt8.size
  | .two => UInt16.size
  | .four => UInt32.size
  | .eight => UInt64.size

/-- The five low bits of the first byte: the argument itself, or where it stands. -/
def additional (argument : Nat) : Width → Nat
  | .immediate => argument
  | .one => 24
  | .two => 25
  | .four => 26
  | .eight => 27

end Width

/-- **The argument of a header**, in a width that it fits. -/
structure Argument where
  width : Width
  value : Nat
  fits : value < width.bound

namespace Argument

/-- The five low bits of the first byte. -/
def additional (argument : Argument) : Nat :=
  argument.width.additional argument.value

/-- The header of the given major type. -/
def header (argument : Argument) (major : Nat) : Bytes :=
  UInt8.ofNat (32 * major + argument.additional) ::
    Bytes.bigEndian argument.width.size argument.value

/-- The double whose bits the argument is, in one of the narrower formats or its own. -/
def double (argument : Argument) : Double :=
  match argument.width with
  | .two => Double.widen .half argument.value
  | .four => Double.widen .single argument.value
  | _ => ⟨UInt64.ofNat argument.value⟩

end Argument

/-- **The length of a container**: announced by its header, or left open until a break. -/
inductive Length
  | known (count : Argument)
  | unknown (count : Nat)

namespace Length

/-- The number of elements. -/
def count : Length → Nat
  | .known count => count.value
  | .unknown count => count

/-- What the header announces. -/
def announced : Length → Option Nat
  | .known count => some count.value
  | .unknown _ => none

end Length

/-- The first byte of an item of the given major type whose length is left open. -/
def openHeader (major : Nat) : UInt8 :=
  UInt8.ofNat (32 * major + 31)

/-- The header of a container, its contents, and the break if its length was left open. -/
def Length.enclose (major : Nat) (contents : Bytes) : Length → Bytes
  | .known count => count.header major ++ contents
  | .unknown _ => openHeader major :: (contents ++ [stopByte])

/-- **A string of known length**: as many bytes as its header announces. -/
structure Segment {α : Type} (payload : α → Bytes) where
  length : Argument
  content : α
  fits : (payload content).length = length.value

/-- The bytes of a string of known length. -/
def Segment.toBytes {α : Type} {payload : α → Bytes} (major : Nat) (segment : Segment payload) :
    Bytes :=
  segment.length.header major ++ payload segment.content

/-- A byte string of known length. -/
abbrev ByteSegment := Segment (α := Bytes) id

/-- A text of known length. -/
abbrev TextSegment := Segment Utf8.bytes

/-! ## Items -/

/-- **A well-formed data item.** Strings whose length is left open are made of segments of known
length. A simple value has its number in the first byte or in the one behind it; wider arguments of
the same major type are the bits of floating point numbers. -/
inductive Encoding where
  | unsigned (n : Argument)
  | negative (n : Argument)
  | bytes (segment : ByteSegment)
  | openBytes (segments : List ByteSegment)
  | text (segment : TextSegment)
  | openText (segments : List TextSegment)
  | array (length : Length) (items : Fin length.count → Encoding)
  | map (length : Length) (keys values : Fin length.count → Encoding)
  | tag (number : Argument) (content : Encoding)
  | simple (number : Argument) (narrow : number.width.size ≤ 1)
  | double (bits : Argument) (wide : 1 < bits.width.size)

namespace Encoding

/-- **The bytes of an item.** -/
def toBytes : Encoding → Bytes
  | .unsigned n => n.header 0
  | .negative n => n.header 1
  | .bytes segment => segment.toBytes 2
  | .openBytes segments => openHeader 2 :: (segments.flatMap (Segment.toBytes 2) ++ [stopByte])
  | .text segment => segment.toBytes 3
  | .openText segments => openHeader 3 :: (segments.flatMap (Segment.toBytes 3) ++ [stopByte])
  | .array length items =>
    length.enclose 4 ((List.finRange length.count).flatMap fun i => toBytes (items i))
  | .map length keys values =>
    length.enclose 5
      ((List.finRange length.count).flatMap fun i => toBytes (keys i) ++ toBytes (values i))
  | .tag number content => number.header 6 ++ toBytes content
  | .simple number _ => number.header 7
  | .double bits _ => bits.header 7

/-- Whether the content of the given tag makes it a big integer: a byte string of known length that
is not too long. -/
def isBigInteger (number : Nat) : Encoding → Bool
  | .bytes segment =>
    (number = Item.positiveTag ∨ number = Item.negativeTag) ∧
      segment.content.length ≤ bigIntegerSize
  | _ => false

/-- **The number of arrays, maps and tags that lie inside each other**, the item itself included. A
tag that makes a byte string a big integer does not count. -/
def depth : Encoding → Nat
  | .array _ items => (Finset.univ.sup fun i => depth (items i)) + 1
  | .map _ keys values => (Finset.univ.sup fun i => max (depth (keys i)) (depth (values i))) + 1
  | .tag number content => if isBigInteger number.value content then 0 else depth content + 1
  | _ => 0

/-! ## Meaning -/

/-- **What an encoding stands for.** -/
inductive Means : Encoding → Item → Prop
  | unsigned (n : Argument) : Means (.unsigned n) (.integer n.value)
  | negative (n : Argument) : Means (.negative n) (.integer (-1 - n.value))
  | bytes (segment : ByteSegment) : Means (.bytes segment) (.bytes segment.content)
  | openBytes (segments : List ByteSegment) :
      Means (.openBytes segments) (.bytes (segments.map Segment.content).flatten)
  | text (segment : TextSegment) : Means (.text segment) (.text segment.content)
  | openText (segments : List TextSegment) :
      Means (.openText segments) (.text (String.join (segments.map Segment.content)))
  | array {length : Length} {items : Fin length.count → Encoding} {found : Fin length.count → Item}
      (inside : ∀ i, Means (items i) (found i)) :
      Means (.array length items) (.array ((List.finRange _).map found))
  | map {length : Length} {keys values : Fin length.count → Encoding}
      {foundKeys found : Fin length.count → Item} (insideKeys : ∀ i, Means (keys i) (foundKeys i))
      (inside : ∀ i, Means (values i) (found i)) :
      Means (.map length keys values) (.map ((List.finRange _).map fun i => (foundKeys i, found i)))
  | positive {number : Argument} {segment : ByteSegment} (hnumber : number.value = Item.positiveTag)
      (hsize : segment.content.length ≤ bigIntegerSize) :
      Means (.tag number (.bytes segment)) (.ofInt (Bytes.toNat segment.content))
  | negated {number : Argument} {segment : ByteSegment} (hnumber : number.value = Item.negativeTag)
      (hsize : segment.content.length ≤ bigIntegerSize)
      (hbound : Bytes.toNat segment.content < 2 ^ 127) :
      Means (.tag number (.bytes segment)) (.ofInt (-1 - Bytes.toNat segment.content))
  | tag {number : Argument} {content : Encoding} {found : Item}
      (hother : isBigInteger number.value content = false) (inside : Means content found) :
      Means (.tag number content) (.tag number.value found)
  | no {number : Argument} {narrow : number.width.size ≤ 1} (h : number.value = 20) :
      Means (.simple number narrow) (.bool false)
  | yes {number : Argument} {narrow : number.width.size ≤ 1} (h : number.value = 21) :
      Means (.simple number narrow) (.bool true)
  | null {number : Argument} {narrow : number.width.size ≤ 1}
      (h : number.value = 22 ∨ number.value = 23) : Means (.simple number narrow) .null
  | double (bits : Argument) (wide : 1 < bits.width.size) :
      Means (.double bits wide) (.double bits.double)

/-- **Encodings that stand for nothing**: a simple value that is no boolean, null or undefined, a
big integer of at most sixteen bytes from `2 ^ 127` on under the tag of negative ones, or whatever
contains such a part. -/
inductive Meaningless : Encoding → Prop
  | simple {number : Argument} {narrow : number.width.size ≤ 1}
      (h : number.value ∉ [20, 21, 22, 23]) : Meaningless (.simple number narrow)
  | negated {number : Argument} {segment : ByteSegment} (hnumber : number.value = Item.negativeTag)
      (hsize : segment.content.length ≤ bigIntegerSize)
      (hbound : 2 ^ 127 ≤ Bytes.toNat segment.content) : Meaningless (.tag number (.bytes segment))
  | tag {number : Argument} {content : Encoding} (inside : Meaningless content) :
      Meaningless (.tag number content)
  | item {length : Length} {items : Fin length.count → Encoding} (i : Fin length.count)
      (inside : Meaningless (items i)) : Meaningless (.array length items)
  | key {length : Length} {keys values : Fin length.count → Encoding} (i : Fin length.count)
      (inside : Meaningless (keys i)) : Meaningless (.map length keys values)
  | value {length : Length} {keys values : Fin length.count → Encoding} (i : Fin length.count)
      (inside : Meaningless (values i)) : Meaningless (.map length keys values)

variable {number n : Nat} {length : Length} {content : Encoding}

/-! ## Depths -/

theorem not_depth_array_le_zero {items : Fin length.count → Encoding} :
    ¬depth (.array length items) ≤ 0 :=
  Nat.not_succ_le_zero _

theorem not_depth_map_le_zero {keys values : Fin length.count → Encoding} :
    ¬depth (.map length keys values) ≤ 0 :=
  Nat.not_succ_le_zero _

theorem depth_array_le_succ {items : Fin length.count → Encoding} :
    depth (.array length items) ≤ n + 1 ↔ ∀ i, (items i).depth ≤ n := by
  simp [depth]

theorem depth_map_le_succ {keys values : Fin length.count → Encoding} :
    depth (.map length keys values) ≤ n + 1 ↔ ∀ i, (keys i).depth ≤ n ∧ (values i).depth ≤ n := by
  simp [depth]

theorem depth_tag {number : Argument} (h : isBigInteger number.value content = false) :
    depth (.tag number content) = content.depth + 1 := by
  rw [depth, h, if_neg Bool.false_ne_true]

theorem depth_bigInteger {number : Argument} (h : isBigInteger number.value content = true) :
    depth (.tag number content) = 0 := by
  rw [depth, if_pos h]

/-! ## Meanings -/

theorem isBigInteger_iff : isBigInteger number content = true ↔
    ∃ segment, content = .bytes segment ∧
    (number = Item.positiveTag ∨ number = Item.negativeTag) ∧
      segment.content.length ≤ bigIntegerSize := by
  cases content <;> simp [isBigInteger]

/-- **Every encoding stands for something or for nothing.** -/
theorem means_or_meaningless (e : Encoding) : (∃ item, e.Means item) ∨ e.Meaningless := by
  induction e with
  | unsigned n => exact .inl ⟨_, .unsigned n⟩
  | negative n => exact .inl ⟨_, .negative n⟩
  | bytes segment => exact .inl ⟨_, .bytes segment⟩
  | openBytes segments => exact .inl ⟨_, .openBytes segments⟩
  | text segment => exact .inl ⟨_, .text segment⟩
  | openText segments => exact .inl ⟨_, .openText segments⟩
  | double bits wide => exact .inl ⟨_, .double bits wide⟩
  | array length items ih =>
    by_cases hnone : ∃ i, (items i).Meaningless
    · obtain ⟨i, hi⟩ := hnone
      exact .inr (.item i hi)
    · choose found hfound using fun i => (ih i).resolve_right fun hi => hnone ⟨i, hi⟩
      exact .inl ⟨_, .array hfound⟩
  | map length keys values ihKeys ihValues =>
    by_cases hkey : ∃ i, (keys i).Meaningless
    · obtain ⟨i, hi⟩ := hkey
      exact .inr (.key i hi)
    by_cases hvalue : ∃ i, (values i).Meaningless
    · obtain ⟨i, hi⟩ := hvalue
      exact .inr (.value i hi)
    choose foundKeys hfoundKeys using fun i => (ihKeys i).resolve_right fun hi => hkey ⟨i, hi⟩
    choose found hfound using fun i => (ihValues i).resolve_right fun hi => hvalue ⟨i, hi⟩
    exact .inl ⟨_, .map hfoundKeys hfound⟩
  | tag number content ih =>
    cases hbig : isBigInteger number.value content with
    | false =>
      rcases ih with ⟨item, hitem⟩ | hnone
      · exact .inl ⟨_, .tag hbig hitem⟩
      · exact .inr (.tag hnone)
    | true =>
      obtain ⟨segment, rfl, hpositive | hnegative, hsize⟩ := isBigInteger_iff.1 hbig
      · exact .inl ⟨_, .positive hpositive hsize⟩
      · by_cases hbound : Bytes.toNat segment.content < 2 ^ 127
        · exact .inl ⟨_, .negated hnegative hsize hbound⟩
        · exact .inr (.negated hnegative hsize (Nat.le_of_not_lt hbound))
  | simple number narrow =>
    by_cases hno : number.value = 20
    · exact .inl ⟨_, .no hno⟩
    by_cases hyes : number.value = 21
    · exact .inl ⟨_, .yes hyes⟩
    by_cases hnull : number.value = 22 ∨ number.value = 23
    · exact .inl ⟨_, .null hnull⟩
    · rw [not_or] at hnull
      exact .inr (.simple (by simp [hno, hyes, hnull.1, hnull.2]))

end Encoding

end Parcel.Cbor
