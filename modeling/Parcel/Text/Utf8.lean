import Parcel.Bytes

/-!
# Text as UTF-8 bytes

Keys, texts and identifiers travel as UTF-8. Strict reading refuses bytes that are no text; lossy
reading puts the replacement character U+FFFD in the place of each maximal part that starts like a
character and does not end like one.

## Main definitions

* `Utf8.bytes`, `Utf8.text?`: a text's bytes, and the text that given bytes hold
* `Utf8.step`: the first character of a byte string, or that there is none
* `Utf8.lossy`: the text of any bytes
* `Utf8.validLength`: how far bytes are text
* `Utf8.byteOrder`: texts ordered by their bytes
-/

namespace Parcel.Utf8

/-- The bytes of a text. -/
def bytes (s : String) : Bytes :=
  s.toByteArray.data.toList

/-- The text whose bytes are given, if they are the bytes of a text. -/
def text? (b : Bytes) : Option String :=
  String.fromUTF8? ⟨b.toArray⟩

@[simp] theorem text?_bytes (s : String) : text? (bytes s) = some s := by
  simp [text?, bytes, String.fromUTF8?, s.isValidUTF8]
  rfl

/-- Bytes that hold a text are the bytes of that text. -/
theorem bytes_of_text?_eq_some {b : Bytes} {s : String} (h : text? b = some s) : bytes s = b := by
  unfold text? String.fromUTF8? at h
  split at h
  · obtain rfl := Option.some.inj h
    simp [bytes, String.fromUTF8]
  · contradiction

/-- What stands at the front of a non-empty byte string. -/
inductive Front
  /-- A character, and the bytes behind it. -/
  | character (c : Char) (rest : Bytes)
  /-- Bytes that belong to no character, and the bytes behind the longest such part. -/
  | broken (rest : Bytes)
deriving Repr

/-- The payload of a continuation byte, whose two high bits are `10`. -/
def continuation? (byte : UInt8) : Option Nat :=
  if 0x80 ≤ byte ∧ byte ≤ 0xbf then some (byte.toNat - 0x80) else none

/-- A continuation byte whose payload is within bounds. -/
def bounded? (low high : Nat) (byte : UInt8) : Option Nat :=
  (continuation? byte).filter fun payload => low ≤ payload ∧ payload ≤ high

/-- The last continuation byte of a character whose payload so far is `payload`. -/
def finish (payload : Nat) : Bytes → Front
  | [] => .broken []
  | byte :: rest =>
    match continuation? byte with
    | some low => .character (Char.ofNat (64 * payload + low)) rest
    | none => .broken (byte :: rest)

/-- The last two continuation bytes of a character; the payload of the first lies within bounds. -/
def finishTwo (payload low high : Nat) : Bytes → Front
  | [] => .broken []
  | byte :: rest =>
    match bounded? low high byte with
    | some next => finish (64 * payload + next) rest
    | none => .broken (byte :: rest)

/-- The three continuation bytes of a character; the payload of the first lies within bounds. -/
def finishThree (payload low high : Nat) : Bytes → Front
  | [] => .broken []
  | byte :: rest =>
    match bounded? low high byte with
    | some next => finishTwo (64 * payload + next) 0 63 rest
    | none => .broken (byte :: rest)

/-- The front of `first :: rest`. The bounds on the second byte keep out longer forms than needed,
surrogates, and numbers beyond U+10FFFF. -/
def step (first : UInt8) (rest : Bytes) : Front :=
  let n := first.toNat
  if n < 0x80 then .character (Char.ofNat n) rest
  else if n < 0xc2 then .broken rest
  else if n < 0xe0 then finish (n - 0xc0) rest
  else if n = 0xe0 then finishTwo 0 0x20 63 rest
  else if n = 0xed then finishTwo 0xd 0 0x1f rest
  else if n < 0xf0 then finishTwo (n - 0xe0) 0 63 rest
  else if n = 0xf0 then finishThree 0 0x10 63 rest
  else if n < 0xf4 then finishThree (n - 0xf0) 0 63 rest
  else if n = 0xf4 then finishThree 4 0 0xf rest
  else .broken rest

/-- The bytes behind the front. -/
def Front.rest : Front → Bytes
  | .character _ rest => rest
  | .broken rest => rest

@[simp] theorem Front.rest_character (c : Char) (rest : Bytes) :
    (Front.character c rest).rest = rest := rfl

@[simp] theorem Front.rest_broken (rest : Bytes) : (Front.broken rest).rest = rest := rfl

theorem length_rest_finish (payload : Nat) (b : Bytes) :
    (finish payload b).rest.length ≤ b.length := by
  cases b with
  | nil => simp [finish]
  | cons byte rest =>
    simp only [finish]
    split <;> simp

theorem length_rest_finishTwo (payload low high : Nat) (b : Bytes) :
    (finishTwo payload low high b).rest.length ≤ b.length := by
  cases b with
  | nil => simp [finishTwo]
  | cons byte rest =>
    simp only [finishTwo]
    split
    · exact Nat.le_succ_of_le (length_rest_finish _ _)
    · simp

theorem length_rest_finishThree (payload low high : Nat) (b : Bytes) :
    (finishThree payload low high b).rest.length ≤ b.length := by
  cases b with
  | nil => simp [finishThree]
  | cons byte rest =>
    simp only [finishThree]
    split
    · exact Nat.le_succ_of_le (length_rest_finishTwo _ _ _ _)
    · simp

/-- A step takes at least one byte. -/
theorem length_rest_step (first : UInt8) (rest : Bytes) :
    (step first rest).rest.length ≤ rest.length := by
  simp only [step]
  repeat' split
  all_goals
    simp [length_rest_finish, length_rest_finishTwo, length_rest_finishThree]

/-- The character that stands for bytes that are no text. -/
def replacement : Char := '\ufffd'

/-- The characters of any bytes behind those already read, which come in reverse. -/
def lossyFrom (read : List Char) : Bytes → List Char
  | [] => read.reverse
  | first :: rest =>
    match h : step first rest with
    | .character c next =>
      have : next.length ≤ rest.length := by
        have := length_rest_step first rest
        rwa [h] at this
      lossyFrom (c :: read) next
    | .broken next =>
      have : next.length ≤ rest.length := by
        have := length_rest_step first rest
        rwa [h] at this
      lossyFrom (replacement :: read) next
termination_by b => b.length

/-- The text of any bytes, each broken part replaced. -/
def lossy (b : Bytes) : String :=
  String.ofList (lossyFrom [] b)

/-- How many bytes at the front are whole characters, behind `count` such bytes. -/
def validFrom (count : Nat) : Bytes → Nat
  | [] => count
  | first :: rest =>
    match h : step first rest with
    | .character _ next =>
      have : next.length ≤ rest.length := by
        have := length_rest_step first rest
        rwa [h] at this
      validFrom (count + (rest.length + 1 - next.length)) next
    | .broken _ => count
termination_by b => b.length

/-- How many bytes at the front are whole characters. -/
def validLength (b : Bytes) : Nat :=
  validFrom 0 b

/-- Whether one text comes before another, or is the same, when the bytes decide. -/
def byteOrder (s t : String) : Bool :=
  bytes s ≤ bytes t

end Parcel.Utf8
