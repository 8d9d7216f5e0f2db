import Parcel.Proofs.Cbor.Encoding
import Parcel.Proofs.Metadata.Written

/-!
# Well-formed encodings are read

The reader follows the structure of an encoding: a header in any width, the segments of a string one
by one, the elements of a container up to their number or to the break, each with one level less.
What stands behind the item stays unread. So with enough levels for its depth an encoding is read as
what it stands for. With too few it is found too deep, and nothing else, as all of its headers can
be read. A part that stands for nothing ends the reading with a fault of its own.

## Main definitions

* `Begins`: bytes that start with something else than a break
* `Length.close`: what is left to read behind the elements of a container

## Main results

* `Argument.read_header`: a header in any width
* `readString_byteSegments`, `readString_textSegments`: strings in one piece and in several
* `readElements_flatMap`: the elements of a container
* `read_of_means`: encodings that stand for an item
* `read_of_meaningless`: encodings that stand for none
-/

namespace Parcel.Cbor

/-! ## Headers -/

theorem Argument.additional_lt (argument : Argument) : argument.additional < 28 := by
  obtain ⟨width, value, fits⟩ := argument
  cases width with
  | immediate => exact Nat.lt_trans fits (by decide)
  | _ => simp [additional, Width.additional]

/-- **A header is read in any width.** -/
theorem Argument.read_header (argument : Argument) {major : Nat} (hmajor : major < 8)
    {header : Header}
    (hheader : Header.ofArgument major argument.additional (some argument.value) = .ok header)
    (rest : Bytes) : Header.read (argument.header major ++ rest) = .ok (header, rest) := by
  have hlt := argument.additional_lt
  refine Header.read_cons major _ hmajor (Nat.lt_trans hlt (by decide)) ?_ hheader
  obtain ⟨width, value, fits⟩ := argument
  cases width with
  | immediate =>
    have hfits : value < 24 := fits
    simp [additional, Width.additional, Width.size, Bytes.bigEndian, readArgument, hfits]
  | _ => exact readArgument_wide (by simp [additional, Width.additional, Width.size]) fits rest

/-- **A header that leaves the length open** is read. -/
theorem read_openHeader {major : Nat} (hmajor : major < 7) {header : Header}
    (hheader : Header.ofArgument major 31 none = .ok header) (rest : Bytes) :
    Header.read (openHeader major :: rest) = .ok (header, rest) :=
  Header.read_cons major 31 (Nat.lt_succ_of_lt hmajor) (by decide) rfl hheader

/-- The number of a simple value has no more than one byte of its own. -/
theorem Argument.read_simple (argument : Argument) (hnarrow : argument.width.size ≤ 1)
    (rest : Bytes) :
    Header.read (argument.header 7 ++ rest) = .ok (.simple argument.value, rest) := by
  refine argument.read_header (by decide) ?_ rest
  obtain ⟨width, value, fits⟩ := argument
  cases width with
  | immediate =>
    have hfits : value < 24 := fits
    have hfloat : value ≠ 25 ∧ value ≠ 26 ∧ value ≠ 27 := by omega
    simp [Header.ofArgument, additional, Width.additional, hfloat]
  | one => rfl
  | _ => simp [Width.size] at hnarrow

theorem Argument.read_double (argument : Argument) (hwide : 1 < argument.width.size)
    (rest : Bytes) :
    Header.read (argument.header 7 ++ rest) = .ok (.double argument.double, rest) := by
  refine argument.read_header (by decide) ?_ rest
  obtain ⟨width, value, fits⟩ := argument
  cases width with
  | immediate => simp [Width.size] at hwide
  | one => simp [Width.size] at hwide
  | _ => rfl

/-- **Bytes that do not start like a break.** -/
def Begins (bytes : Bytes) : Prop :=
  ∃ first later, bytes = first :: later ∧ first ≠ stopByte

theorem Begins.append {bytes : Bytes} (h : Begins bytes) (rest : Bytes) :
    Begins (bytes ++ rest) := by
  obtain ⟨first, later, rfl, hfirst⟩ := h
  exact ⟨first, later ++ rest, rfl, hfirst⟩

theorem Begins.ne_nil {bytes : Bytes} (h : Begins bytes) : bytes ≠ [] := by
  obtain ⟨first, later, rfl, -⟩ := h
  exact List.cons_ne_nil first later

theorem Argument.begins_header (argument : Argument) (major : Nat) :
    Begins (argument.header major) := by
  refine ⟨_, _, rfl, fun hstop => ?_⟩
  have hlt := argument.additional_lt
  have hfirst := congrArg UInt8.toNat hstop
  have hbreak : stopByte.toNat = 255 := rfl
  rw [UInt8.toNat_ofNat', hbreak] at hfirst
  omega

theorem begins_openHeader {major : Nat} (hmajor : major < 7) (rest : Bytes) :
    Begins (openHeader major :: rest) := by
  refine ⟨_, _, rfl, fun hstop => ?_⟩
  have hfirst := congrArg UInt8.toNat hstop
  have hbreak : stopByte.toNat = 255 := rfl
  rw [openHeader, UInt8.toNat_ofNat', hbreak] at hfirst
  omega

theorem Length.begins_enclose {major : Nat} (hmajor : major < 7) (length : Length)
    (contents : Bytes) : Begins (length.enclose major contents) := by
  cases length with
  | known count => exact (count.begins_header major).append contents
  | unknown count => exact begins_openHeader hmajor _

theorem Segment.begins_toBytes {α : Type} {payload : α → Bytes} (major : Nat)
    (segment : Segment payload) : Begins (segment.toBytes major) :=
  (segment.length.begins_header major).append _

/-- **Every item begins with something that is no break.** -/
theorem Encoding.begins_toBytes (e : Encoding) : Begins e.toBytes := by
  cases e with
  | unsigned n => exact n.begins_header 0
  | negative n => exact n.begins_header 1
  | bytes segment => exact segment.begins_toBytes 2
  | openBytes segments => exact begins_openHeader (by decide) _
  | text segment => exact segment.begins_toBytes 3
  | openText segments => exact begins_openHeader (by decide) _
  | array length items => exact length.begins_enclose (by decide) _
  | map length keys values => exact length.begins_enclose (by decide) _
  | tag number content => exact (number.begins_header 6).append _
  | simple number narrow => exact number.begins_header 7
  | double bits wide => exact bits.begins_header 7

/-! ## Strings -/

variable {α β : Type} {fault : Fault} {rest : Bytes}

/-- **Segments up to a break** are joined to one string. -/
theorem readSegments_flatMap {kind : StringKind β} {write : α → Bytes} {content : α → β}
    (segments : List α) {fuel : Nat} (hfuel : segments.length < fuel) (read : List β)
    (h : ∀ segment ∈ segments, ∀ rest, ∃ length behind,
      ∃ header ≠ Header.stop, Header.read (write segment ++ rest) = .ok (header, behind) ∧
      kind.length? header = some (some length) ∧
      kind.segment length behind = .ok (content segment, rest)) :
    readSegments kind fuel 0 read (segments.flatMap write ++ stopByte :: rest) =
      .ok (kind.join (read.reverse ++ segments.map content), rest) := by
  induction segments generalizing fuel read with
  | nil =>
    obtain ⟨fuel, rfl⟩ := Nat.exists_eq_succ_of_ne_zero (Nat.ne_of_gt hfuel)
    have hstop : Header.read (stopByte :: rest) = .ok (.stop, rest) := rfl
    simp [readSegments, hstop]
  | cons segment segments ih =>
    obtain ⟨fuel, rfl⟩ := Nat.exists_eq_succ_of_ne_zero (Nat.ne_of_gt (Nat.zero_lt_of_lt hfuel))
    rw [List.forall_mem_cons] at h
    -- a segment is read from its own header and leaves those behind it alone
    obtain ⟨length, behind, header, hheader, hread, hlength, hsegment⟩ :=
      h.1 (segments.flatMap write ++ stopByte :: rest)
    have hrest := ih (Nat.lt_of_succ_lt_succ hfuel) (content segment :: read) h.2
    rw [List.flatMap_cons, List.append_assoc, readSegments, hread]
    cases header with
    | stop => contradiction
    | _ => simp [hlength, hsegment, hrest]

theorem ByteSegment.read_header (segment : ByteSegment) (rest : Bytes) :
    Header.read (segment.toBytes 2 ++ rest) =
      .ok (.bytes (some segment.length.value), segment.content ++ rest) := by
  rw [Segment.toBytes, List.append_assoc]
  exact segment.length.read_header (by decide) rfl _

theorem ByteSegment.readBytes_content (segment : ByteSegment) (rest : Bytes) :
    readBytes segment.length.value (segment.content ++ rest) = .ok (segment.content, rest) := by
  have hfits : segment.content.length = segment.length.value := segment.fits
  rw [readBytes, ← hfits, List.take_left, List.drop_left, if_neg (Nat.lt_irrefl _)]

theorem TextSegment.read_header (segment : TextSegment) (rest : Bytes) :
    Header.read (segment.toBytes 3 ++ rest) =
      .ok (.text (some segment.length.value), Utf8.bytes segment.content ++ rest) := by
  rw [Segment.toBytes, List.append_assoc]
  exact segment.length.read_header (by decide) rfl _

theorem TextSegment.readText_content (segment : TextSegment) (rest : Bytes) :
    readText segment.length.value (Utf8.bytes segment.content ++ rest) =
      .ok (segment.content, rest) := by
  rw [← segment.fits, length_bytes, readText_bytes]

/-- Elements that take at least one byte each are no more than their bytes. -/
theorem length_le_flatMap {write : α → Bytes} (hwrite : ∀ a, write a ≠ []) (elements : List α) :
    elements.length ≤ (elements.flatMap write).length := by
  induction elements with
  | nil => exact Nat.le_refl _
  | cons a elements ih =>
    have hpos := List.length_pos_iff.2 (hwrite a)
    rw [List.flatMap_cons, List.length_cons, List.length_append]
    omega

/-- **A byte string in segments** is read as the segments one behind the other. -/
theorem readString_byteSegments (segments : List ByteSegment) (rest : Bytes) :
    readString byteStrings none (segments.flatMap (Segment.toBytes 2) ++ stopByte :: rest) =
      .ok ((segments.map Segment.content).flatten, rest) := by
  have hfuel : segments.length <
      (segments.flatMap (Segment.toBytes 2) ++ stopByte :: rest).length := by
    have hle :=
      length_le_flatMap (fun segment => (Segment.begins_toBytes 2 segment).ne_nil) segments
    rw [List.length_append, List.length_cons]
    omega
  refine readSegments_flatMap segments hfuel [] fun segment _ rest => ?_
  exact ⟨_, _, .bytes (some segment.length.value), nofun, ByteSegment.read_header segment rest, rfl,
    ByteSegment.readBytes_content segment rest⟩

/-- **A text in segments** is read as the segments one behind the other. -/
theorem readString_textSegments (segments : List TextSegment) (rest : Bytes) :
    readString textStrings none (segments.flatMap (Segment.toBytes 3) ++ stopByte :: rest) =
      .ok (String.join (segments.map Segment.content), rest) := by
  have hfuel : segments.length <
      (segments.flatMap (Segment.toBytes 3) ++ stopByte :: rest).length := by
    have hle :=
      length_le_flatMap (fun segment => (Segment.begins_toBytes 3 segment).ne_nil) segments
    rw [List.length_append, List.length_cons]
    omega
  refine readSegments_flatMap segments hfuel [] fun segment _ rest => ?_
  exact ⟨_, _, .text (some segment.length.value), nofun, TextSegment.read_header segment rest, rfl,
    TextSegment.readText_content segment rest⟩

/-! ## Containers -/

/-- A key and its value are read, or the first of them that is refused ends the reading. -/
theorem readPair_concat {element : Reader β} {key value : Bytes} {k v : β}
    {goodKey goodValue : Bool}
    (hkey : ∀ rest, element (key ++ rest) = if goodKey then .ok (k, rest) else .error fault)
    (hvalue : ∀ rest, element (value ++ rest) = if goodValue then .ok (v, rest) else .error fault)
    (rest : Bytes) : readPair element (key ++ value ++ rest) =
      if goodKey && goodValue then .ok ((k, v), rest) else .error fault := by
  rw [readPair, List.append_assoc, hkey]
  cases goodKey with
  | false => rfl
  | true =>
    simp only [if_true, hvalue]
    cases goodValue <;> rfl

/-- **Elements up to a break** are all read, or the first that is refused ends the reading. None of
them starts like a break. -/
theorem readUntilStop_flatMap {element : Reader β} {write : α → Bytes} {good : α → Bool}
    {item : α → β} (elements : List α) {fuel : Nat} (hfuel : elements.length < fuel) (read : List β)
    (hstart : ∀ a ∈ elements, Begins (write a))
    (h : ∀ a ∈ elements, ∀ rest, element (write a ++ rest) =
      if good a then .ok (item a, rest) else .error fault) :
    readUntilStop element fuel read (elements.flatMap write ++ stopByte :: rest) =
      if elements.all good then .ok (read.reverse ++ elements.map item, rest)
      else .error fault := by
  induction elements generalizing fuel read with
  | nil =>
    obtain ⟨fuel, rfl⟩ := Nat.exists_eq_succ_of_ne_zero (Nat.ne_of_gt hfuel)
    simp [readUntilStop]
  | cons a elements ih =>
    obtain ⟨fuel, rfl⟩ := Nat.exists_eq_succ_of_ne_zero (Nat.ne_of_gt (Nat.zero_lt_of_lt hfuel))
    rw [List.forall_mem_cons] at hstart h
    -- no element begins with the stop byte, so none is taken for the end
    obtain ⟨first, later, hwrite, hfirst⟩ := hstart.1
    have hread := h.1 (elements.flatMap write ++ stopByte :: rest)
    have hrest := ih (Nat.lt_of_succ_lt_succ hfuel) (item a :: read) hstart.2 h.2
    rw [hwrite, List.cons_append] at hread
    rw [List.flatMap_cons, List.append_assoc, hwrite, List.cons_append, readUntilStop,
      if_neg hfirst, hread]
    cases hgood : good a with
    | false => simp [hgood]
    | true => simp [hgood, hrest]

/-- What follows the contents of a container: the break if its length was left open, and then the
rest. -/
def Length.close (rest : Bytes) : Length → Bytes
  | .known _ => rest
  | .unknown _ => stopByte :: rest

/-- **The header of a container** announces its length or leaves it open. -/
theorem Length.read_enclose (length : Length) {major : Nat} (hmajor : major < 7)
    {header : Option Nat → Header}
    (hheader : ∀ additional announced,
      Header.ofArgument major additional announced = .ok (header announced))
    (contents rest : Bytes) : Header.read (length.enclose major contents ++ rest) =
      .ok (header length.announced, contents ++ length.close rest) := by
  cases length with
  | known count =>
    rw [enclose, List.append_assoc]
    exact count.read_header (Nat.lt_succ_of_lt hmajor) (hheader _ _) _
  | unknown count =>
    rw [enclose, List.cons_append, List.append_assoc]
    exact read_openHeader hmajor (hheader _ _) _

/-- **The elements of a container** are all read, or the first that is refused ends the reading. -/
theorem readElements_flatMap {element : Reader β} {length : Length}
    {write : Fin length.count → Bytes} {good : Fin length.count → Bool}
    {item : Fin length.count → β} (hstart : ∀ i, Begins (write i))
    (h : ∀ i rest, element (write i ++ rest) = if good i then .ok (item i, rest) else .error fault)
    (rest : Bytes) :
    readElements element length.announced ((List.finRange _).flatMap write ++ length.close rest) =
      if (List.finRange _).all good then .ok ((List.finRange _).map item, rest)
      else .error fault := by
  cases length with
  | known count =>
    have hread :=
      readMany_flatMap element write good item fault (List.finRange _) [] rest fun i _ => h i
    rwa [List.length_finRange] at hread
  | unknown count =>
    refine readUntilStop_flatMap _ ?_ [] (fun i _ => hstart i) fun i _ => h i
    have hle := length_le_flatMap (fun i => (hstart i).ne_nil) (List.finRange _)
    rw [Length.close, List.length_append, List.length_cons]
    omega

/-! ## Items -/

open Encoding

variable {levels : Nat} {length : Length}

theorem read_header_array {items : Fin length.count → Encoding} (rest : Bytes) :
    Header.read ((Encoding.array length items).toBytes ++ rest) =
      .ok (.array length.announced,
        (List.finRange _).flatMap (fun i => (items i).toBytes) ++ length.close rest) :=
  length.read_enclose (by decide) (fun _ _ => rfl) _ rest

theorem read_header_map {keys values : Fin length.count → Encoding} (rest : Bytes) :
    Header.read ((Encoding.map length keys values).toBytes ++ rest) =
      .ok (.map length.announced,
        (List.finRange _).flatMap (fun i => (keys i).toBytes ++ (values i).toBytes) ++
          length.close rest) :=
  length.read_enclose (by decide) (fun _ _ => rfl) _ rest

theorem read_header_tag {number : Argument} {content : Encoding} (rest : Bytes) :
    Header.read ((Encoding.tag number content).toBytes ++ rest) =
      .ok (.tag number.value, content.toBytes ++ rest) := by
  change Header.read (number.header 6 ++ content.toBytes ++ rest) = _
  rw [List.append_assoc]
  exact number.read_header (by decide) rfl _

/-- **An array** is read if all of its items are, and refused with the first that is not. -/
theorem read_array {items : Fin length.count → Encoding} {Good : Fin length.count → Prop}
    [DecidablePred Good] {found : Fin length.count → Item}
    (h : ∀ i rest, Item.read levels ((items i).toBytes ++ rest) =
      if Good i then .ok (found i, rest) else .error fault) (rest : Bytes) :
    Item.read (levels + 1) ((Encoding.array length items).toBytes ++ rest) =
      if ∀ i, Good i then .ok (.array ((List.finRange _).map found), rest) else .error fault := by
  have hdecide : ∀ i rest, Item.read levels ((items i).toBytes ++ rest) =
      if decide (Good i) then .ok (found i, rest) else .error fault := by simpa using h
  have helements := readElements_flatMap (fun i => (items i).begins_toBytes) hdecide rest
  have hall : ((List.finRange _).all fun i => decide (Good i)) = true ↔ ∀ i, Good i := by simp
  rw [Item.read.eq_def, read_header_array]
  simp only [helements, hall]
  split <;> rfl

/-- **A map** is read if all of its keys and values are, and refused with the first that is not. -/
theorem read_map {keys values : Fin length.count → Encoding}
    {GoodKey Good : Fin length.count → Prop} [DecidablePred GoodKey] [DecidablePred Good]
    {foundKeys found : Fin length.count → Item}
    (hkeys : ∀ i rest, Item.read levels ((keys i).toBytes ++ rest) =
      if GoodKey i then .ok (foundKeys i, rest) else .error fault)
    (hvalues : ∀ i rest, Item.read levels ((values i).toBytes ++ rest) =
      if Good i then .ok (found i, rest) else .error fault) (rest : Bytes) :
    Item.read (levels + 1) ((Encoding.map length keys values).toBytes ++ rest) =
      if ∀ i, GoodKey i ∧ Good i then
        .ok (.map ((List.finRange _).map fun i => (foundKeys i, found i)), rest)
      else .error fault := by
  have hpair : ∀ i rest,
      readPair (Item.read levels) ((keys i).toBytes ++ (values i).toBytes ++ rest) =
      if decide (GoodKey i) && decide (Good i) then .ok ((foundKeys i, found i), rest)
      else .error fault :=
    fun i => readPair_concat (by simpa using hkeys i) (by simpa using hvalues i)
  have helements := readElements_flatMap
    (fun i => (keys i).begins_toBytes.append (values i).toBytes) hpair rest
  have hall : ((List.finRange _).all fun i => decide (GoodKey i) && decide (Good i)) = true ↔
      ∀ i, GoodKey i ∧ Good i := by simp
  rw [Item.read.eq_def, read_header_map]
  simp only [helements, hall]
  split <;> rfl

theorem read_array_zero {items : Fin length.count → Encoding} (rest : Bytes) :
    Item.read 0 ((Encoding.array length items).toBytes ++ rest) = .error .tooDeep := by
  rw [Item.read.eq_def, read_header_array]

theorem read_map_zero {keys values : Fin length.count → Encoding} (rest : Bytes) :
    Item.read 0 ((Encoding.map length keys values).toBytes ++ rest) = .error .tooDeep := by
  rw [Item.read.eq_def, read_header_map]

/-- The header of an item announces a byte string that a tag makes a big integer only if the item is
such a byte string. -/
theorem Encoding.exists_read_header (e : Encoding) (rest : Bytes) :
    ∃ header inside, Header.read (e.toBytes ++ rest) = .ok (header, inside) ∧
      ∀ number, isBigInteger number e = false → bigIntegerLength? number header = none := by
  cases e with
  | unsigned n => exact ⟨_, _, n.read_header (by decide) rfl rest, fun _ _ => rfl⟩
  | negative n => exact ⟨_, _, n.read_header (by decide) rfl rest, fun _ _ => rfl⟩
  | bytes segment =>
    refine ⟨_, _, ByteSegment.read_header segment rest, fun number hbig => ?_⟩
    -- the header holds the length of the content, so both are short enough for an integer or
    -- neither is
    have hfits : segment.content.length = segment.length.value := segment.fits
    rw [isBigInteger, decide_eq_false_iff_not, hfits] at hbig
    exact if_neg hbig
  | openBytes segments => exact ⟨_, _, read_openHeader (by decide) rfl _, fun _ _ => rfl⟩
  | text segment => exact ⟨_, _, TextSegment.read_header segment rest, fun _ _ => rfl⟩
  | openText segments => exact ⟨_, _, read_openHeader (by decide) rfl _, fun _ _ => rfl⟩
  | array length items => exact ⟨_, _, read_header_array rest, fun _ _ => rfl⟩
  | map length keys values => exact ⟨_, _, read_header_map rest, fun _ _ => rfl⟩
  | tag number content => exact ⟨_, _, read_header_tag rest, fun _ _ => rfl⟩
  | simple number narrow =>
    refine ⟨_, _, number.read_simple narrow rest, fun _ _ => rfl⟩
  | double bits wide =>
    refine ⟨_, _, bits.read_double wide rest, fun _ _ => rfl⟩

/-- **A tag** whose content is no big integer is read if its content is. -/
theorem read_tag {number : Argument} {content : Encoding}
    (hother : isBigInteger number.value content = false) (rest : Bytes) :
    Item.read (levels + 1) ((Encoding.tag number content).toBytes ++ rest) =
      (Item.read levels (content.toBytes ++ rest)).map (Prod.map (.tag number.value) id) := by
  obtain ⟨header, inside, hheader, hnone⟩ := content.exists_read_header rest
  rw [Item.read.eq_def, read_header_tag]
  simp only [readTagged, hheader, hnone _ hother]
  cases Item.read levels (content.toBytes ++ rest) <;> rfl

theorem read_tag_zero {number : Argument} {content : Encoding}
    (hother : isBigInteger number.value content = false) (rest : Bytes) :
    Item.read 0 ((Encoding.tag number content).toBytes ++ rest) = .error .tooDeep := by
  obtain ⟨header, inside, hheader, hnone⟩ := content.exists_read_header rest
  rw [Item.read.eq_def, read_header_tag]
  simp only [readTagged, hheader, hnone _ hother]

/-- **A big integer** takes no level. -/
theorem read_bigInteger {number : Argument} {segment : ByteSegment}
    (hnumber : number.value = Item.positiveTag ∨ number.value = Item.negativeTag)
    (hsize : segment.content.length ≤ bigIntegerSize) (rest : Bytes) :
    Item.read levels ((Encoding.tag number (.bytes segment)).toBytes ++ rest) =
      (bigInteger number.value segment.content).map fun item => (item, rest) := by
  have hfits : segment.content.length = segment.length.value := segment.fits
  have hlength : bigIntegerLength? number.value (.bytes (some segment.length.value)) =
      some segment.length.value := if_pos ⟨hnumber, hfits ▸ hsize⟩
  have htagged : ∀ content, readTagged content number.value (segment.toBytes 2 ++ rest) =
      (bigInteger number.value segment.content).map fun item => (item, rest) := fun content => by
    simp only [readTagged, ByteSegment.read_header, hlength, ByteSegment.readBytes_content]
  rw [Item.read.eq_def, read_header_tag]
  cases levels with
  | zero => exact htagged none
  | succ levels => exact htagged _

theorem read_simple {number : Argument} {narrow : number.width.size ≤ 1} (rest : Bytes) :
    Item.read levels ((Encoding.simple number narrow).toBytes ++ rest) =
      (simpleItem number.value).map fun item => (item, rest) := by
  have hheader : Header.read ((Encoding.simple number narrow).toBytes ++ rest) =
      .ok (.simple number.value, rest) := number.read_simple narrow rest
  rw [Item.read.eq_def, hheader]

/-- **What stands for an item is read as this item**, and nothing behind it is touched. If the
levels do not suffice for its depth, that is the only thing found wrong. -/
theorem read_of_means {e : Encoding} {item : Item} (h : e.Means item) (levels : Nat)
    (rest : Bytes) :
    Item.read levels (e.toBytes ++ rest) =
      if e.depth ≤ levels then .ok (item, rest) else .error .tooDeep := by
  -- tags and containers take a level away; nothing else looks at the levels
  induction h generalizing levels rest with
  | unsigned n =>
    have hheader : Header.read (n.header 0 ++ rest) = .ok (.unsigned n.value, rest) :=
      n.read_header (by decide) rfl rest
    simp [toBytes, Item.read.eq_def, hheader, depth]
  | negative n =>
    have hheader : Header.read (n.header 1 ++ rest) = .ok (.negative n.value, rest) :=
      n.read_header (by decide) rfl rest
    simp [toBytes, Item.read.eq_def, hheader, depth]
  | double bits wide => simp [toBytes, Item.read.eq_def, bits.read_double wide, depth]
  | bytes segment =>
    simp [toBytes, Item.read.eq_def, ByteSegment.read_header, readString, byteStrings,
      ByteSegment.readBytes_content, depth, Except.map]
  | text segment =>
    simp [toBytes, Item.read.eq_def, TextSegment.read_header, readString, textStrings,
      TextSegment.readText_content, depth, Except.map]
  | openBytes segments =>
    have hheader : ∀ behind, Header.read (openHeader 2 :: behind) = .ok (.bytes none, behind) :=
      read_openHeader (by decide) rfl
    simp [toBytes, Item.read.eq_def, hheader, readString_byteSegments, depth, Except.map]
  | openText segments =>
    have hheader : ∀ behind, Header.read (openHeader 3 :: behind) = .ok (.text none, behind) :=
      read_openHeader (by decide) rfl
    simp [toBytes, Item.read.eq_def, hheader, readString_textSegments, depth, Except.map]
  | no h => simp [read_simple, simpleItem, h, depth, Except.map]
  | yes h => simp [read_simple, simpleItem, h, depth, Except.map]
  | null h => rcases h with h | h <;> simp [read_simple, simpleItem, h, depth, Except.map]
  | positive hnumber hsize =>
    have hdepth := depth_bigInteger (isBigInteger_iff.2 ⟨_, rfl, .inl hnumber, hsize⟩)
    simp [read_bigInteger (.inl hnumber) hsize, bigInteger, hnumber, hdepth, Except.map]
  | negated hnumber hsize hbound =>
    have hdepth := depth_bigInteger (isBigInteger_iff.2 ⟨_, rfl, .inr hnumber, hsize⟩)
    have hother : Item.negativeTag ≠ Item.positiveTag := by decide
    have hlt : Bytes.toNat _ < negativeBound := hbound
    simp [read_bigInteger (.inr hnumber) hsize, bigInteger, hnumber, hother, hlt, hdepth,
      Except.map]
  | tag hother inside ih =>
    rw [depth_tag hother]
    cases levels with
    | zero => rw [read_tag_zero hother, if_neg (Nat.not_succ_le_zero _)]
    | succ levels =>
      rw [read_tag hother, ih]
      simp only [Nat.succ_le_succ_iff]
      split <;> rfl
  | array inside ih =>
    cases levels with
    | zero => rw [read_array_zero, if_neg not_depth_array_le_zero]
    | succ levels =>
      rw [read_array fun i => ih i levels]
      exact if_congr depth_array_le_succ.symm rfl rfl
  | map insideKeys inside ihKeys ih =>
    cases levels with
    | zero => rw [read_map_zero, if_neg not_depth_map_le_zero]
    | succ levels =>
      rw [read_map (fun i => ihKeys i levels) fun i => ih i levels]
      exact if_congr depth_map_le_succ.symm rfl rfl

open scoped Classical in
/-- If what stands for nothing is refused as such, one item is found in all other cases. -/
theorem exists_read_eq_ite {e : Encoding}
    (h : e.Meaningless → ∀ rest, Item.read levels (e.toBytes ++ rest) = .error .meaningless)
    (hdepth : e.depth ≤ levels) :
    ∃ found, ∀ rest, Item.read levels (e.toBytes ++ rest) =
      if ¬e.Meaningless then .ok (found, rest) else .error .meaningless := by
  by_cases hnone : e.Meaningless
  · exact ⟨.null, fun rest => by rw [h hnone, if_neg (not_not_intro hnone)]⟩
  · obtain ⟨item, hitem⟩ := e.means_or_meaningless.resolve_right hnone
    exact ⟨item, fun rest => by rw [read_of_means hitem, if_pos hdepth, if_pos hnone]⟩

open scoped Classical in
/-- **What stands for nothing is refused as such**, if the levels suffice for its depth. -/
theorem read_of_meaningless {e : Encoding} (h : e.Meaningless) {levels : Nat}
    (hdepth : e.depth ≤ levels) (rest : Bytes) :
    Item.read levels (e.toBytes ++ rest) = .error .meaningless := by
  -- by the structure of the encoding: what stands beside the offending part may offend as well
  induction e generalizing levels rest with
  | array length items ih =>
    cases levels with
    | zero => exact absurd hdepth not_depth_array_le_zero
    | succ levels =>
      rw [depth_array_le_succ] at hdepth
      -- every item is read or refused, and the parser stops at the first that is refused
      choose found hfound using fun i =>
        exists_read_eq_ite (fun hnone => ih i hnone (hdepth i)) (hdepth i)
      rw [read_array hfound, if_neg]
      cases h with
      | item i inside => exact fun hall => hall i inside
  | map length keys values ihKeys ih =>
    cases levels with
    | zero => exact absurd hdepth not_depth_map_le_zero
    | succ levels =>
      rw [depth_map_le_succ] at hdepth
      choose foundKeys hfoundKeys using fun i =>
        exists_read_eq_ite (fun hnone => ihKeys i hnone (hdepth i).1) (hdepth i).1
      choose found hfound using fun i =>
        exists_read_eq_ite (fun hnone => ih i hnone (hdepth i).2) (hdepth i).2
      rw [read_map hfoundKeys hfound, if_neg]
      cases h with
      | key i inside => exact fun hall => (hall i).1 inside
      | value i inside => exact fun hall => (hall i).2 inside
  | tag number content ih =>
    cases h with
    | negated hnumber hsize hbound =>
      have hother : Item.negativeTag ≠ Item.positiveTag := by decide
      have hnot : ¬Bytes.toNat _ < negativeBound := Nat.not_lt.2 hbound
      simp [read_bigInteger (.inr hnumber) hsize, bigInteger, hnumber, hother, hnot, Except.map]
    | tag inside =>
      have hother : isBigInteger number.value content = false := by
        by_contra hbig
        obtain ⟨segment, rfl, -⟩ := isBigInteger_iff.1 (Bool.eq_true_of_not_eq_false hbig)
        cases inside
      rw [depth_tag hother] at hdepth
      cases levels with
      | zero => exact absurd hdepth (Nat.not_succ_le_zero _)
      | succ levels =>
        rw [read_tag hother, ih inside (Nat.le_of_succ_le_succ hdepth)]
        rfl
  | simple number narrow =>
    cases h with
    | simple h =>
      simp only [List.mem_cons, List.not_mem_nil, or_false, not_or] at h
      simp [read_simple, simpleItem, h, Except.map]
  | _ => cases h

/-- Nothing stands for an item and for nothing at once. -/
theorem Encoding.Means.not_meaningless {e : Encoding} {item : Item} (h : e.Means item) :
    ¬e.Meaningless := by
  intro hnone
  have hread := read_of_means h e.depth []
  rw [if_pos (Nat.le_refl _), read_of_meaningless hnone (Nat.le_refl _)] at hread
  nomatch hread

end Parcel.Cbor
