import Parcel.Cbor.Reader

/-!
# Readers take what they read

An item is no larger than the bytes it was read from: each text took its bytes, and each item of an
array and each key and value of a map took at least one byte. So all lengths that are read are
bounded by the length of the input, also those of strings in segments and of containers of open
length, which no header announces.

## Main definitions

* `total`: the sizes of all elements of a list together
* `Sized`: a reader whose result is no larger than the bytes it takes
* `Item.extent`: the least number of bytes of an item

## Main results

* `Sized.bind`, `Sized.map`: readers that are made of others
* `sized_readSegments`, `sized_readMany`, `sized_readUntilStop`: loops
* `sized_read`: items of all kinds, at every number of levels
-/

namespace Parcel.Cbor

variable {α β : Type} {given : Nat} {size : α → Nat}

/-- The sizes of all elements together. -/
def total (size : α → Nat) : List α → Nat
  | [] => 0
  | a :: rest => size a + total size rest

theorem total_append (as bs : List α) : total size (as ++ bs) = total size as + total size bs := by
  induction as with
  | nil => simp [total]
  | cons a rest ih => rw [List.cons_append, total, total, ih, Nat.add_assoc]

theorem total_reverse (as : List α) : total size as.reverse = total size as := by
  induction as with
  | nil => rfl
  | cons a rest ih =>
    rw [List.reverse_cons, total_append, ih]
    simp only [total]
    omega

/-- An element is no larger than all of them. -/
theorem size_le_total (size : α → Nat) {as : List α} {a : α} (h : a ∈ as) :
    size a ≤ total size as := by
  induction as with
  | nil => contradiction
  | cons first rest ih =>
    rw [total]
    rcases List.mem_cons.1 h with rfl | h
    · omega
    · have := ih h
      omega

/-- Elements that have a size are no more than their sizes together. -/
theorem length_le_total (hsize : ∀ a, 0 < size a) (as : List α) : as.length ≤ total size as := by
  induction as with
  | nil => exact Nat.le_refl _
  | cons a rest ih =>
    have := hsize a
    rw [List.length_cons, total]
    omega

/-- **Readers that take what they read**: the result is no larger than the bytes that were taken,
together with what was given before. -/
def Sized (given : Nat) (size : α → Nat) (reader : Reader α) : Prop :=
  ∀ bytes ⦃a rest⦄, reader bytes = .ok (a, rest) → size a + rest.length ≤ given + bytes.length

namespace Sized

variable {reader : Reader α}

theorem pure (size : α → Nat) {a : α} (h : size a ≤ given) :
    Sized given size fun bytes => .ok (a, bytes) := by
  intro bytes a rest hread
  cases hread
  omega

theorem fail (fault : Fault) : Sized given size fun _ => .error fault := by
  intro bytes a rest hread
  contradiction

theorem ofResult (size : α → Nat) {result : Except Fault α}
    (h : ∀ a, result = .ok a → size a ≤ given) :
    Sized given size fun bytes => result.map fun a => (a, bytes) := by
  cases result with
  | error fault => exact .fail fault
  | ok a => exact .pure size (h a rfl)

/-- What a reader takes is added to what was given. -/
theorem from_given (h : Sized 0 size reader) (given : Nat) (size' : α → Nat)
    (hsize : ∀ a, size' a ≤ given + size a) : Sized given size' reader := by
  intro bytes a rest hread
  have := h bytes hread
  have := hsize a
  omega

/-- **One reader after another.** -/
theorem bind {size' : β → Nat} {next : α → Reader β} (h : Sized given size reader)
    (hnext : ∀ a, Sized (size a) size' (next a)) :
    Sized given size' fun bytes => match reader bytes with
      | .error fault => .error fault
      | .ok (a, rest) => next a rest := by
  intro bytes b rest hread
  dsimp only at hread
  cases hfirst : reader bytes with
  | error fault => simp [hfirst] at hread
  | ok found =>
    obtain ⟨a, between⟩ := found
    rw [hfirst] at hread
    have := h bytes hfirst
    have := hnext a between hread
    omega

theorem map {size' : β → Nat} (h : Sized given size reader) {f : α → β}
    (hf : ∀ a, size' (f a) ≤ size a) :
    Sized given size' fun bytes => (reader bytes).map fun (a, rest) => (f a, rest) := by
  intro bytes b rest hread
  dsimp only at hread
  cases hfirst : reader bytes with
  | error fault => simp [hfirst, Except.map] at hread
  | ok found =>
    rw [hfirst] at hread
    cases hread
    have := h bytes hfirst
    have := hf found.1
    omega

end Sized

/-! ## Strings and headers -/

theorem sized_readBytes (length : Nat) : Sized 0 List.length (readBytes length) := by
  intro bytes found rest hread
  rw [readBytes] at hread
  split at hread
  · contradiction
  · cases hread
    rw [List.length_take, List.length_drop]
    omega

theorem sized_readText (length : Nat) : Sized 0 String.utf8ByteSize (readText length) := by
  intro bytes s rest hread
  rw [readText] at hread
  split at hread
  · split at hread <;> contradiction
  · split at hread
    · next hall s htext =>
      cases hread
      -- the text has just the bytes that were decoded
      have hsize : s.utf8ByteSize = (bytes.take length).length :=
        congrArg List.length (Utf8.bytes_of_text?_eq_some htext)
      rw [List.length_take] at hsize
      rw [List.length_drop]
      omega
    · contradiction

theorem sized_readNumber (width : Nat) : Sized 0 (fun _ => 0) (readNumber width) := by
  intro bytes n rest hread
  rw [readNumber] at hread
  split at hread
  · contradiction
  · cases hread
    rw [List.length_drop]
    exact Nat.add_le_add_left (Nat.sub_le _ _) 0

theorem sized_readArgument (additional : Nat) : Sized 0 (fun _ => 0) (readArgument additional) := by
  -- wider arguments are numbers of one, two, four or eight bytes
  have hwide (width : Nat) {reader : Reader (Option Nat)}
      (hreader : ∀ bytes, reader bytes =
        (readNumber width bytes).map fun found => (some found.1, found.2)) :
      Sized 0 (fun _ => 0) reader := by
    obtain rfl := funext hreader
    exact (sized_readNumber width).map (f := some) fun _ => Nat.le_refl 0
  unfold readArgument
  dsimp only
  split
  · exact .pure _ (Nat.le_refl 0)
  · split
    · exact hwide 1 fun bytes => by cases readNumber 1 bytes <;> rfl
    · split
      · exact hwide 2 fun bytes => by cases readNumber 2 bytes <;> rfl
      · split
        · exact hwide 4 fun bytes => by cases readNumber 4 bytes <;> rfl
        · split
          · exact hwide 8 fun bytes => by cases readNumber 8 bytes <;> rfl
          · split
            · exact .pure _ (Nat.le_refl 0)
            · exact .fail _

/-- A header takes at least one byte. -/
theorem length_lt_of_read_header {header : Header} {bytes rest : Bytes}
    (h : Header.read bytes = .ok (header, rest)) : rest.length < bytes.length := by
  cases bytes with
  | nil => contradiction
  | cons first later =>
    rw [Header.read] at h
    split at h
    · contradiction
    · next argument between hargument =>
      have hle := sized_readArgument _ later hargument
      split at h
      · contradiction
      · cases h
        rw [List.length_cons]
        omega

/-- **Segments up to a break** take the bytes of the string that they are joined to. -/
theorem sized_readSegments {kind : StringKind α}
    (hsegment : ∀ length, Sized 0 size (kind.segment length))
    (hjoin : ∀ as a, size (kind.join (as ++ [a])) ≤ size (kind.join as) + size a)
    (fuel opened : Nat) (read : List α) :
    Sized (size (kind.join read.reverse)) size (readSegments kind fuel opened read) := by
  -- each header takes a byte, and each segment the bytes by which it makes the string longer
  induction fuel generalizing opened read with
  | zero => exact .fail _
  | succ fuel ih =>
    intro bytes string rest hread
    rw [readSegments] at hread
    split at hread
    · contradiction
    · next later hstop =>
      have hheader := length_lt_of_read_header hstop
      cases opened with
      | zero =>
        cases hread
        omega
      | succ opened =>
        have := ih opened read later hread
        omega
    · next header later hother hheader =>
      have hheader := length_lt_of_read_header hheader
      cases hlength : kind.length? header with
      | none => simp [hlength] at hread
      | some length =>
        rw [hlength] at hread
        cases length with
        | none =>
          have := ih (opened + 1) read later hread
          omega
        | some length =>
          dsimp only at hread
          split at hread
          · contradiction
          · next segment between hfound =>
            have hfound := hsegment length later hfound
            have hrest := ih opened (segment :: read) between hread
            rw [List.reverse_cons] at hrest
            have := hjoin read.reverse segment
            omega

theorem sized_readString {kind : StringKind α}
    (hsegment : ∀ length, Sized 0 size (kind.segment length)) (hempty : size (kind.join []) = 0)
    (hjoin : ∀ as a, size (kind.join (as ++ [a])) ≤ size (kind.join as) + size a)
    (length : Option Nat) : Sized 0 size (readString kind length) := by
  cases length with
  | some length => exact hsegment length
  | none =>
    intro bytes string rest hread
    have := sized_readSegments hsegment hjoin bytes.length 0 [] bytes hread
    rwa [List.reverse_nil, hempty] at this

theorem sized_readString_text (length : Option Nat) :
    Sized 0 String.utf8ByteSize (readString textStrings length) := by
  refine sized_readString sized_readText rfl ?_ length
  intro as a
  simp [textStrings, String.join, List.foldl_append]

theorem sized_readString_bytes (length : Option Nat) :
    Sized 0 List.length (readString byteStrings length) := by
  refine sized_readString sized_readBytes rfl ?_ length
  intro as a
  simp [byteStrings]

/-! ## Containers -/

theorem sized_readMany {element : Reader α} (h : Sized 0 size element) (count : Nat)
    (read : List α) : Sized (total size read) (total size) (readMany element count read) := by
  induction count generalizing read with
  | zero => exact .pure _ (Nat.le_of_eq (total_reverse read))
  | succ count ih =>
    refine (h.from_given _ (fun found => total size (found :: read)) ?_).bind
      fun found => ih (found :: read)
    intro found
    rw [total]
    omega

theorem sized_readUntilStop {element : Reader α} (h : Sized 0 size element) (fuel : Nat)
    (read : List α) : Sized (total size read) (total size) (readUntilStop element fuel read) := by
  induction fuel generalizing read with
  | zero => exact .fail _
  | succ fuel ih =>
    intro bytes elements rest hread
    cases bytes with
    | nil => contradiction
    | cons first later =>
      rw [readUntilStop] at hread
      split at hread
      · -- the stop byte is taken away and counts for no element
        cases hread
        rw [total_reverse, List.length_cons]
        omega
      · split at hread
        · contradiction
        · next found between hfound =>
          have hfound := h (first :: later) hfound
          have hrest := ih (found :: read) between hread
          rw [total] at hrest
          omega

theorem sized_readElements {element : Reader α} (h : Sized 0 size element) (length : Option Nat) :
    Sized 0 (total size) (readElements element length) := by
  cases length with
  | some count => exact sized_readMany h count []
  | none =>
    intro bytes elements rest hread
    exact sized_readUntilStop h bytes.length [] bytes hread

theorem sized_readPair {element : Reader α} (h : Sized 0 size element) :
    Sized 0 (fun pair => size pair.1 + size pair.2) (readPair element) :=
  h.bind fun key =>
    (h.from_given _ (fun value => size key + size value) fun _ => Nat.le_refl _).bind fun _ =>
      .pure _ (Nat.le_refl _)

/-! ## Items -/

namespace Item

mutual

/-- The least number of bytes of an item: one for each item in it, and the bytes of its texts. What
is in a tagged item does not count. -/
def extent : Item → Nat
  | .text s => s.utf8ByteSize + 1
  | .array items => extentOfItems items + 1
  | .map entries => extentOfEntries entries + 1
  | _ => 1

/-- The extents of the items of an array together. -/
def extentOfItems : List Item → Nat
  | [] => 0
  | item :: rest => extent item + extentOfItems rest

/-- The extents of the keys and values of a map together. -/
def extentOfEntries : List (Item × Item) → Nat
  | [] => 0
  | (key, value) :: rest => extent key + extent value + extentOfEntries rest

end

theorem extent_pos (item : Item) : 0 < item.extent := by
  cases item <;> simp [extent]

theorem extent_array (items : List Item) : extent (.array items) = total extent items + 1 := by
  have hitems : extentOfItems items = total extent items := by
    induction items with
    | nil => rfl
    | cons item rest ih => rw [extentOfItems, total, ih]
  rw [extent, hitems]

theorem extent_map (entries : List (Item × Item)) :
    extent (.map entries) = total (fun entry => entry.1.extent + entry.2.extent) entries + 1 := by
  have hentries : extentOfEntries entries =
      total (fun entry => entry.1.extent + entry.2.extent) entries := by
    induction entries with
    | nil => rfl
    | cons entry rest ih => rw [extentOfEntries, total, ih]
  rw [extent, hentries]

theorem extent_tag (number : Nat) (content : Item) : extent (.tag number content) = 1 := rfl

theorem extent_ofInt (n : Int) : (ofInt n).extent = 1 := by
  rw [ofInt]
  split
  · rfl
  · split <;> rfl

end Item

open Item

theorem extent_of_simpleItem {number : Nat} {item : Item} (h : simpleItem number = .ok item) :
    item.extent = 1 := by
  unfold simpleItem at h
  repeat' split at h
  all_goals cases h <;> rfl

theorem extent_of_bigInteger {number : Nat} {bytes : Bytes} {item : Item}
    (h : bigInteger number bytes = .ok item) : item.extent = 1 := by
  unfold bigInteger at h
  dsimp only at h
  split at h
  · rw [← Except.ok.inj h]
    exact extent_ofInt _
  · split at h
    · rw [← Except.ok.inj h]
      exact extent_ofInt _
    · contradiction

theorem sized_readTagged {content : Option (Reader Item)}
    (h : ∀ reader ∈ content, Sized 0 extent reader)
    (number : Nat) : Sized 1 extent (readTagged content number) := by
  intro bytes item rest hread
  unfold readTagged at hread
  split at hread
  · contradiction
  · next header later hheader =>
    have hheader := length_lt_of_read_header hheader
    split at hread
    · -- a big integer goes on behind the header
      next length _ =>
      split at hread
      · contradiction
      · next found between hfound =>
        have hfound := sized_readBytes length later hfound
        have hbig := Sized.ofResult extent
          (fun item hitem => Nat.le_of_eq (extent_of_bigInteger hitem)) between hread
        omega
    · -- any other item begins with the header again
      split at hread
      · contradiction
      · next reader =>
        split at hread
        · contradiction
        · next found between hfound =>
          have hfound := h reader rfl bytes hfound
          cases hread
          rw [extent_tag]
          omega

/-- **An item takes its extent**, whatever its form. -/
theorem sized_read (levels : Nat) : Sized 0 extent (Item.read levels) := by
  -- the contents of containers and tags are read with one level less
  induction levels using Nat.strongRecOn with
  | _ levels ih =>
    intro bytes item rest hread
    unfold Item.read at hread
    split at hread
    · contradiction
    · next header later hheader =>
      have hheader := length_lt_of_read_header hheader
      -- the byte of the header is what is given for the rest of the item
      suffices h : extent item + rest.length ≤ 1 + later.length by omega
      cases header with
      | unsigned n => exact Sized.pure extent (Nat.le_refl 1) later hread
      | negative n => exact Sized.pure extent (Nat.le_refl 1) later hread
      | bytes length =>
        have hstring := (sized_readString_bytes length).from_given 1 (fun b => b.length + 1)
          fun _ => by omega
        exact (hstring.map (f := Item.bytes) fun _ => Nat.le_add_left 1 _) later hread
      | text length =>
        have hstring := (sized_readString_text length).from_given 1 (fun s => s.utf8ByteSize + 1)
          fun _ => by omega
        exact (hstring.map (f := Item.text) fun _ => Nat.le_refl _) later hread
      | array length =>
        cases levels with
        | zero => contradiction
        | succ levels =>
          have hitems :=
            (sized_readElements (ih levels (Nat.lt_succ_self levels)) length).from_given
            1 (fun items => total extent items + 1) fun _ => by omega
          exact (hitems.map (f := Item.array) fun items => Nat.le_of_eq (extent_array items))
            later hread
      | map length =>
        cases levels with
        | zero => contradiction
        | succ levels =>
          have hpair := sized_readPair (ih levels (Nat.lt_succ_self levels))
          have hentries := (sized_readElements hpair length).from_given 1
            (fun entries => total (fun entry => entry.1.extent + entry.2.extent) entries + 1)
            fun _ => by omega
          exact (hentries.map (f := Item.map) fun entries => Nat.le_of_eq (extent_map entries))
            later hread
      | tag number =>
        cases levels with
        | zero => exact sized_readTagged (by simp) number later hread
        | succ levels =>
          have hcontent := ih levels (Nat.lt_succ_self levels)
          exact sized_readTagged (by simpa using hcontent) number later hread
      | simple number =>
        exact Sized.ofResult extent
          (fun item hitem => Nat.le_of_eq (extent_of_simpleItem hitem)) later hread
      | double value => exact Sized.pure extent (Nat.le_refl 1) later hread
      | stop => contradiction

end Parcel.Cbor
