import Parcel.Bytes
import Parcel.Text.Combining
import Parcel.Text.Unprintable

/-!
# Quoted text and bytes in messages

A text in a message stands in double quotes, and the bytes of an argument stand in a form that is
printable ASCII throughout.

## Main definitions

* `Quoted.text`: a text in quotes, what cannot be printed shown by its number
* `Quoted.bytes`: bytes with everything outside printable ASCII shown in hexadecimal
* `Quoted.hexadecimal`: a number with its `0x`
-/

namespace Parcel.Quoted

/-- Lower case hexadecimal digits. -/
def hexDigits (n : Nat) : List Char :=
  Nat.toDigits 16 n

/-- A number in hexadecimal, with `0x` before it. -/
def hexadecimal (n : Nat) : String :=
  String.ofList ('0' :: 'x' :: hexDigits n)

/-- A character inside a quoted text. -/
def character (c : Char) : List Char :=
  if c = '"' then ['\\', '"']
  else if c = '\\' then ['\\', '\\']
  else if c = '\n' then ['\\', 'n']
  else if c = '\r' then ['\\', 'r']
  else if c = '\t' then ['\\', 't']
  else if c.toNat = 0 then ['\\', '0']
  else if Combining.contains c || Unprintable.contains c then
    ['\\', 'u', '\x7b'] ++ hexDigits c.toNat ++ ['\x7d']
  else [c]

/-- A text in double quotes. -/
def text (s : String) : String :=
  String.ofList ('"' :: s.toList.flatMap character ++ ['"'])

/-- A byte of an argument. -/
def byte (b : UInt8) : List Char :=
  let c := Char.ofNat b.toNat
  if c = '\t' then ['\\', 't']
  else if c = '\r' then ['\\', 'r']
  else if c = '\n' then ['\\', 'n']
  else if c = '\x27' ∨ c = '"' ∨ c = '\\' then ['\\', c]
  else if 0x20 ≤ b ∧ b < 0x7f then [c]
  else ['\\', 'x', Nat.digitChar (b.toNat / 16), Nat.digitChar (b.toNat % 16)]

/-- The bytes of an argument in printable ASCII. -/
def bytes (b : Bytes) : String :=
  String.ofList (b.flatMap byte)

/-- A hexadecimal digit is a letter or a decimal digit. -/
theorem isPrintable_digitChar {d : Nat} (h : d < 16) :
    0x20 ≤ (Nat.digitChar d).toNat ∧ (Nat.digitChar d).toNat < 0x7f := by
  have printable :
      ∀ d < 16, 0x20 ≤ (Nat.digitChar d).toNat ∧ (Nat.digitChar d).toNat < 0x7f := by
    decide
  exact printable d h

/-- A quoted argument holds printable ASCII only. -/
theorem isPrintable_of_mem_byte {b : UInt8} {c : Char} (h : c ∈ byte b) :
    0x20 ≤ c.toNat ∧ c.toNat < 0x7f := by
  have hb : b.toNat < 256 := b.toNat_lt
  have high := isPrintable_digitChar (d := b.toNat / 16) (by omega)
  have low := isPrintable_digitChar (d := b.toNat % 16) (by omega)
  unfold byte at h
  dsimp only at h
  split at h
  · simp only [List.mem_cons, List.not_mem_nil, or_false] at h
    rcases h with rfl | rfl <;> decide
  split at h
  · simp only [List.mem_cons, List.not_mem_nil, or_false] at h
    rcases h with rfl | rfl <;> decide
  split at h
  · simp only [List.mem_cons, List.not_mem_nil, or_false] at h
    rcases h with rfl | rfl <;> decide
  split at h
  · next hmark =>
    simp only [List.mem_cons, List.not_mem_nil, or_false] at h
    rcases h with rfl | rfl
    · decide
    · rcases hmark with hc | hc | hc <;> rw [hc] <;> decide
  split at h
  · next hrange =>
    have hmem : c = Char.ofNat b.toNat := by simpa using h
    have hvalid : b.toNat.isValidChar := Or.inl (by omega)
    have hlow := UInt8.le_iff_toNat_le.1 hrange.1
    have hhigh := UInt8.lt_iff_toNat_lt.1 hrange.2
    rw [hmem, Char.ofNat, dif_pos hvalid]
    exact ⟨hlow, hhigh⟩
  · simp only [List.mem_cons, List.not_mem_nil, or_false] at h
    rcases h with rfl | rfl | rfl | rfl
    · decide
    · decide
    · exact high
    · exact low

end Parcel.Quoted
