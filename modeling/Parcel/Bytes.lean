/-!
# Byte strings

Arguments, encoded metadata and buffers are byte strings. They are lists, so that the readers and
writers recurse on them directly.

## Main definitions

* `Bytes`: a byte string
* `Bytes.bigEndian`, `Bytes.toNat`: fixed-width numbers, most significant byte first
* `Bytes.overlay`: a buffer after a writer filled its front
* `Bytes.cyclic`: a periodic pattern of a given length
-/

namespace Parcel

/-- A byte string. -/
abbrev Bytes := List UInt8

namespace Bytes

/-- The `width` low bytes of `n`, most significant first. -/
def bigEndian : (width n : Nat) → Bytes
  | 0, _ => []
  | width + 1, n => bigEndian width (n / 256) ++ [UInt8.ofNat n]

/-- The number whose big-endian digits are the given bytes. -/
def toNat (bytes : Bytes) : Nat :=
  bytes.foldl (fun n byte => 256 * n + byte.toNat) 0

/-- The least number of bytes that hold `n`: none for zero. -/
def width (n : Nat) : Nat :=
  if n = 0 then 0 else n.log2 / 8 + 1

/-- The shortest big-endian form of `n`, without leading zero bytes. -/
def minimal (n : Nat) : Bytes :=
  bigEndian (width n) n

/-- `size` zero bytes. -/
def zeros (size : Nat) : Bytes :=
  List.replicate size 0

/-- The buffer after a writer put `written` at its front: the length stays, what does not fit is
lost, and what lies behind stays as it was. -/
def overlay (buffer written : Bytes) : Bytes :=
  written.take buffer.length ++ buffer.drop written.length

/-- The buffer grown to `size` bytes by zeros at its end; a longer one stays. -/
def grow (buffer : Bytes) (size : Nat) : Bytes :=
  buffer ++ zeros (size - buffer.length)

/-- `size` bytes that count from 0 to 250 over and over. -/
def cyclic (size : Nat) : Bytes :=
  (List.range size).map fun i => UInt8.ofNat (i % 251)

@[simp] theorem length_bigEndian (width n : Nat) : (bigEndian width n).length = width := by
  induction width generalizing n with
  | zero => rfl
  | succ width ih => simp [bigEndian, ih]

@[simp] theorem length_zeros (size : Nat) : (zeros size).length = size := by
  simp [zeros]

@[simp] theorem length_overlay (buffer written : Bytes) :
    (overlay buffer written).length = buffer.length := by
  simp only [overlay, List.length_append, List.length_take, List.length_drop]
  omega

@[simp] theorem length_cyclic (size : Nat) : (cyclic size).length = size := by
  simp [cyclic]

end Bytes

end Parcel
