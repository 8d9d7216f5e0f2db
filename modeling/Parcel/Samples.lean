import Parcel.Command

/-!
# Sample objects

Objects for trying out encodings and transfers: small ones of every sort of value, one whose items
outgrow a first read, and families of any size. Tests and benchmarks build their inputs from them;
no result is about them.

## Main definitions

* `Samples.reference`, `Samples.mixed`, `Samples.mixedCommand`, `Samples.large`: single objects
* `Samples.profile`, `Samples.nested`: metadata of a given number of keys, or depth and width
* `Samples.payload`, `Samples.command`: objects of a given size
-/

namespace Parcel.Samples

/-- A natural number as a JSON value. -/
def number (n : Nat) : Json :=
  .integer n

/-- Three one-letter arguments and three numbers. -/
def reference : Command where
  interface := ⟨"x", by decide⟩
  operation := ⟨"y", by decide⟩
  payload := ⟨["a", "b", "c"].map Utf8.bytes, [("b", number 3), ("c", number 4), ("d", number 5)]⟩

/-- The double 3.25. -/
def threeAndAQuarter : Double :=
  .ofMagnitude false (BinaryFormat.double.nearest 13 4)

/-- The double 3.5. -/
def threeAndAHalf : Double :=
  .ofMagnitude false (BinaryFormat.double.nearest 7 2)

/-- A value of every sort, under keys that are not in order. -/
def mixed : Payload where
  args := [[], [0x00, 0xff, 0x7f], Utf8.bytes "plain"]
  metadata :=
    [("null", .null),
      ("flag", .bool true),
      ("neg", .integer (-17)),
      ("big", number (UInt64.size - 1)),
      ("pi", .double threeAndAQuarter),
      ("text", .text "héllo"),
      ("list", .array [number 1, .text "two", .array [.double threeAndAHalf],
        .object [("four", number 4)]]),
      ("nested", .object [("inner", .object [("deep", .array [.bool false, .null])])])]

/-- The same as a command. -/
def mixedCommand : Command where
  interface := ⟨"qx.backend", by decide⟩
  operation := ⟨"run:step_1", by decide⟩
  payload := mixed

/-- Arguments around the size of a first read, a long text, and a long array. -/
def large : Payload where
  args := [0, 255, 256, 257, 4096].map Bytes.cyclic
  metadata :=
    [("blob", .text (String.ofList (List.replicate 1000 'z'))),
      ("many", .array ((List.range 200).map number))]

/-- The value at a position of a profile: numbers, halves, texts, booleans and arrays take turns. -/
def profileValue (i : Nat) : Json :=
  match i % 5 with
  | 0 => number i
  | 1 => .double (.ofMagnitude false (BinaryFormat.double.nearest i 2))
  | 2 => .text ("value-" ++ toString i)
  | 3 => .bool (i % 2 == 0)
  | _ => .array [number i, number (i + 1), number (i + 2)]

/-- Metadata with a given number of keys. -/
def profile (keys : Nat) : Entries :=
  (List.range keys).map fun i => ("key_" ++ toString i, profileValue i)

/-- The numbers at one level, under keys of growing length, the longest first. -/
def level (d width : Nat) : Entries :=
  (List.range width).reverse.map fun w =>
    (String.ofList (List.replicate (w + 1) 'k') ++ toString w, number (d * width + w))

/-- Objects inside each other, each with numbers before the next. -/
def nested (depth width : Nat) : Entries :=
  (List.range depth).foldl (fun inner d => level d width ++ [("child", .object inner)]) []

/-- Arguments of one length, each of them one byte over and over, with a profile. -/
def payload (args length keys : Nat) : Except Error Payload :=
  Payload.ofParts ((List.range args).map fun i => List.replicate length (UInt8.ofNat i))
    (profile keys)

/-- A command around such a payload. -/
def command (args length keys : Nat) : Except Error Command :=
  (payload args length keys).map fun payload =>
    ⟨⟨"bench", by decide⟩, ⟨"step", by decide⟩, payload⟩

end Parcel.Samples
