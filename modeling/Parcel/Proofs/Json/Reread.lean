import Parcel.Proofs.Json.Canonical
import Parcel.Proofs.Json.Depth
import Parcel.Proofs.Json.Digits
import Parcel.Proofs.Json.Parts
import Parcel.Proofs.Json.Quoted

/-!
# Reading what was written

The text of a value is read back as the value, with what was made of its doubles. Nothing that is
written starts with a blank, every number is ended by a separator, and a separator says which part
comes next, so each part is read by the reader for its sort, at the level at which it was written.

## Main definitions

* `Json.mapDoubles f`: a value with `f` applied to its doubles
* `Json.Reread f`: every double `x` in a value is written as a number that is read as `f x`

## Main results

* `Json.readValue?_render`: a value at the front of a text
* `Json.parse?_toText`: a value that is the whole text
* `Json.mapDoubles_eq_self`, `Json.mapDoubles_of_withoutDoubles`: values that stay as they are
-/

namespace Parcel.Json

open Numeral

/-! ## Values with other doubles -/

mutual

/-- **A value with other doubles**: the same containers, keys and scalars, and `f x` for each double
`x`. -/
def mapDoubles (f : Double → Double) : Json → Json
  | .double x => .double (f x)
  | .array items => .array (mapDoublesOfItems f items)
  | .object entries => .object (mapDoublesOfEntries f entries)
  | scalar => scalar

/-- The items of an array with other doubles. -/
def mapDoublesOfItems (f : Double → Double) : List Json → List Json
  | [] => []
  | item :: rest => mapDoubles f item :: mapDoublesOfItems f rest

/-- The entries of an object with other doubles, in their order. -/
def mapDoublesOfEntries (f : Double → Double) : List (String × Json) → List (String × Json)
  | [] => []
  | (key, value) :: rest => (key, mapDoubles f value) :: mapDoublesOfEntries f rest

end

variable {f : Double → Double} {v : Json} {items : List Json} {entries : Entries}

theorem mapDoublesOfItems_eq_map (items : List Json) :
    mapDoublesOfItems f items = items.map (mapDoubles f) := by
  induction items with
  | nil => rfl
  | cons item rest ih => rw [mapDoublesOfItems, ih, List.map_cons]

theorem mapDoublesOfEntries_eq_map (entries : Entries) :
    mapDoublesOfEntries f entries = entries.map fun entry => (entry.1, mapDoubles f entry.2) := by
  induction entries with
  | nil => rfl
  | cons entry rest ih => rw [mapDoublesOfEntries, ih, List.map_cons]

theorem keys_mapDoublesOfEntries (entries : Entries) :
    Entries.keys (mapDoublesOfEntries f entries) = Entries.keys entries := by
  simp [mapDoublesOfEntries_eq_map, Entries.keys]

/-- What is made of doubles leaves the depth alone. -/
theorem depth_mapDoubles_le_iff (n : Nat) : (v.mapDoubles f).depth ≤ n ↔ v.depth ≤ n := by
  induction v using inductionOn generalizing n with
  | array items ih =>
    cases n with
    | zero => exact iff_of_false not_depth_array_le_zero not_depth_array_le_zero
    | succ n =>
      rw [mapDoubles, mapDoublesOfItems_eq_map, depth_array_le_succ, depth_array_le_succ,
        List.forall_mem_map]
      exact forall₂_congr fun item hmem => ih item hmem n
  | object entries ih =>
    cases n with
    | zero => exact iff_of_false not_depth_object_le_zero not_depth_object_le_zero
    | succ n =>
      rw [mapDoubles, mapDoublesOfEntries_eq_map, depth_object_le_succ, depth_object_le_succ,
        List.forall_mem_map]
      exact forall₂_congr fun entry hmem => ih entry hmem n
  | _ => simp [mapDoubles, depth]

/-! ## Values without doubles -/

/-- Anything but a double. -/
def WithoutDoublesHere : Json → Prop
  | .double _ => False
  | _ => True

instance : DecidablePred WithoutDoublesHere
  | .double _ => isFalse id
  | .null | .bool _ | .integer _ | .text _ | .array _ | .object _ => isTrue trivial

/-- **Values without doubles**, at every level. -/
abbrev WithoutDoubles : Json → Prop := Every WithoutDoublesHere

/-- A double that is kept. -/
def KeptHere (f : Double → Double) : Json → Prop
  | .double x => f x = x
  | _ => True

/-- **A value whose doubles are kept** stays as it is. -/
theorem mapDoubles_eq_self (hv : Every (KeptHere f) v) : v.mapDoubles f = v := by
  induction v using inductionOn with
  | double x => exact congrArg Json.double ((every_of_not_isContainer rfl).1 hv)
  | array items ih =>
    have hinside := (every_array.1 hv).2
    rw [mapDoubles, mapDoublesOfItems_eq_map]
    exact congrArg Json.array
      ((List.map_congr_left fun item hmem => ih item hmem (hinside item hmem)).trans
        (List.map_id items))
  | object entries ih =>
    have hinside := (every_object.1 hv).2
    rw [mapDoubles, mapDoublesOfEntries_eq_map]
    exact congrArg Json.object
      ((List.map_congr_left fun entry hmem =>
        congrArg (Prod.mk entry.1) (ih entry hmem (hinside entry hmem))).trans
          (List.map_id entries))
  | _ => rfl

/-- **A value without doubles stays as it is**, whatever is made of doubles. -/
theorem mapDoubles_of_withoutDoubles (hv : WithoutDoubles v) : v.mapDoubles f = v := by
  refine mapDoubles_eq_self (hv.imp fun v hhere => ?_)
  cases v with
  | double x => exact absurd hhere id
  | _ => trivial

/-! ## Numbers that are read -/

/-- A double that is read as `f x`. -/
def RereadHere (f : Double → Double) : Json → Prop
  | .double x => IsNumber (doubleStyle.text x) (.double (f x))
  | _ => True

/-- **Reread values**: every double `x` in a value is written as a number that is read as `f x`. -/
abbrev Reread (f : Double → Double) : Json → Prop := Every (RereadHere f)

theorem reread_double {x : Double} :
    Reread f (.double x) ↔ IsNumber (doubleStyle.text x) (.double (f x)) :=
  every_of_not_isContainer rfl

theorem reread_of_withoutDoubles (hv : WithoutDoubles v) : Reread f v := by
  refine hv.imp fun v hhere => ?_
  cases v with
  | double x => exact absurd hhere id
  | _ => trivial

/-! ## The front of a text -/

variable {c : Char} {cs rest : List Char} {levels : Nat}

theorem skipBlanks_cons (hc : isBlank c = false) : skipBlanks (c :: cs) = c :: cs :=
  List.dropWhile_cons_of_neg (by simp [hc])

/-- A character that is neither a minus sign nor a digit starts no number. -/
theorem ne_of_starts {d : Char} (hc : c = '-' ∨ c.isDigit = true) (hsign : d ≠ '-')
    (hdigit : d.isDigit = false) : c ≠ d := by
  rintro rfl
  rcases hc with hc | hc
  · exact hsign hc
  · simp [hdigit] at hc

theorem isBlank_eq_false_of_starts (hc : c = '-' ∨ c.isDigit = true) : isBlank c = false := by
  have hspace := ne_of_starts (d := ' ') hc (by decide) (by decide)
  have htab := ne_of_starts (d := '\t') hc (by decide) (by decide)
  have hline := ne_of_starts (d := '\n') hc (by decide) (by decide)
  have hreturn := ne_of_starts (d := '\r') hc (by decide) (by decide)
  simp [isBlank, hspace, htab, hline, hreturn]

/-- Only a number starts with a minus sign or a digit. -/
theorem readValue?_of_starts (hstart : c = '-' ∨ c.isDigit = true) :
    readValue? levels (c :: cs) = (Numeral.read? (c :: cs)).bind fun found =>
      found.1.value?.map fun v => (v, found.2) := by
  rw [readValue?.eq_def, skipBlanks_cons (isBlank_eq_false_of_starts hstart)]
  split
  · contradiction
  · next heq => exact absurd (List.cons.inj heq).1 (ne_of_starts hstart (by decide) (by decide))
  · next heq => exact absurd (List.cons.inj heq).1 (ne_of_starts hstart (by decide) (by decide))
  · next heq => exact absurd (List.cons.inj heq).1 (ne_of_starts hstart (by decide) (by decide))
  · next heq => exact absurd (List.cons.inj heq).1 (ne_of_starts hstart (by decide) (by decide))
  · next heq => exact absurd (List.cons.inj heq).1 (ne_of_starts hstart (by decide) (by decide))
  · next heq => exact absurd (List.cons.inj heq).1 (ne_of_starts hstart (by decide) (by decide))
  · cases Numeral.read? (c :: cs) <;> rfl

/-- **A number at the front of a text** is read up to what ends it. -/
theorem readValue?_number {text : List Char} (h : IsNumber text v) (hrest : Ends rest) :
    readValue? levels (text ++ rest) = some (v, rest) := by
  obtain ⟨c, hc, hstart⟩ := h.starts
  obtain ⟨cs, rfl⟩ := List.head?_eq_some_iff.1 hc
  obtain ⟨numeral, hread, hvalue⟩ := h.reads rest hrest
  rw [List.cons_append] at hread ⊢
  rw [readValue?_of_starts hstart, hread, Option.bind_some, hvalue, Option.map_some]

/-- What is written for a value starts with something that is no blank and no closing bracket. -/
theorem exists_render_eq_cons (hv : Proper v) (hreread : Reread f v) :
    ∃ c cs, render v = c :: cs ∧ isBlank c = false ∧ c ≠ ']' := by
  have hnumber {text : List Char} {w : Json} (h : IsNumber text w) :
      ∃ c cs, text = c :: cs ∧ isBlank c = false ∧ c ≠ ']' := by
    obtain ⟨c, hc, hstart⟩ := h.starts
    obtain ⟨cs, rfl⟩ := List.head?_eq_some_iff.1 hc
    exact ⟨c, cs, rfl, isBlank_eq_false_of_starts hstart,
      ne_of_starts hstart (by decide) (by decide)⟩
  cases v with
  | null => exact ⟨'n', _, rfl, by decide, by decide⟩
  | bool b => cases b <;> exact ⟨_, _, rfl, by decide, by decide⟩
  | integer n => exact hnumber (isNumber_integerText (proper_integer.1 hv))
  | double x => exact hnumber (reread_double.1 hreread)
  | text s => exact ⟨'"', _, rfl, by decide, by decide⟩
  | array items => cases items <;> exact ⟨'[', _, rfl, by decide, by decide⟩
  | object entries =>
    rcases entries with - | ⟨⟨key, value⟩, entries⟩ <;> exact ⟨'\x7b', _, rfl, by decide, by decide⟩

/-! ## Containers -/

variable {readItem? : List Char → Option (Json × List Char)} {g : Json → Json} {fuel : Nat}

theorem ends_cons (hdigit : c.isDigit = false) (hpoint : c ≠ '.') (hlower : c ≠ 'e')
    (hupper : c ≠ 'E') : Ends (c :: cs) := by
  intro d hd
  obtain rfl := Option.some.inj hd
  exact ⟨hdigit, hpoint, hlower, hupper⟩

/-- Behind an item of an array there is a comma or a closing bracket. -/
theorem ends_renderItems (items : List Json) (rest : List Char) :
    Ends (renderItems items ++ rest) := by
  cases items <;> exact ends_cons (by decide) (by decide) (by decide) (by decide)

theorem ends_renderEntries (entries : Entries) (rest : List Char) :
    Ends (renderEntries entries ++ rest) := by
  rcases entries with - | ⟨⟨key, value⟩, entries⟩ <;>
    exact ends_cons (by decide) (by decide) (by decide) (by decide)

/-- **The items of an array** are read one by one, if each of them is read. -/
theorem readItems?_render {first : Json} (read : List Json) (rest : List Char)
    (hfuel : items.length < fuel) (h : ∀ item ∈ first :: items, ∀ rest, Ends rest →
      readItem? (render item ++ rest) = some (g item, rest)) :
    readItems? readItem? fuel read (render first ++ (renderItems items ++ rest)) =
      some (read.reverse ++ (first :: items).map g, rest) := by
  induction items generalizing first fuel read with
  | nil =>
    obtain ⟨fuel, rfl⟩ := Nat.exists_eq_succ_of_ne_zero (Nat.ne_of_gt hfuel)
    rw [readItems?, h first List.mem_cons_self _ (ends_renderItems [] rest)]
    simp [renderItems, skipBlanks_cons, isBlank]
  | cons item items ih =>
    obtain ⟨fuel, rfl⟩ := Nat.exists_eq_succ_of_ne_zero (Nat.ne_of_gt (Nat.zero_lt_of_lt hfuel))
    rw [List.forall_mem_cons] at h
    have hrest := ih (g first :: read) (Nat.lt_of_succ_lt_succ hfuel) h.2
    rw [readItems?, h.1 _ (ends_renderItems (item :: items) rest)]
    simp only [renderItems, List.cons_append, List.append_assoc]
    rw [skipBlanks_cons (by decide)]
    simpa using hrest

/-- A key in quotes, and behind it the value. -/
theorem readEntry?_render {key : String} {value w : Json} {cs : List Char}
    (h : readItem? (render value ++ cs) = some (w, rest)) :
    readEntry? readItem? (quoted key ++ ':' :: (render value ++ cs)) =
      some ((key, w), rest) := by
  obtain ⟨text, hquoted, htext⟩ := readText?_quoted key (':' :: (render value ++ cs))
  have hquote : skipBlanks ('"' :: text) = '"' :: text := skipBlanks_cons (by decide)
  have hcolon : skipBlanks (':' :: (render value ++ cs)) = ':' :: (render value ++ cs) :=
    skipBlanks_cons (by decide)
  rw [hquoted]
  unfold readEntry?
  simp [hquote, htext, hcolon, h]

theorem not_mem_keys_of_nodup {before behind : Entries} {entry : String × Json}
    (hnodup : (Entries.keys (before ++ entry :: behind)).Nodup) :
    entry.1 ∉ Entries.keys before := by
  rw [Entries.keys, List.map_append, List.map_cons] at hnodup
  exact fun hmem => List.disjoint_of_nodup_append hnodup hmem List.mem_cons_self

/-- **The entries of an object** are read one by one, if their values are read, and inserted into
those before them. Their keys are new there, so they stay as they come. -/
theorem readEntries?_render {key : String} {value : Json} (read : Entries) (rest : List Char)
    (hfuel : entries.length < fuel)
    (hnodup : (Entries.keys (read ++ (key, value) :: entries)).Nodup)
    (h : ∀ entry ∈ (key, value) :: entries, ∀ rest, Ends rest →
      readItem? (render entry.2 ++ rest) = some (g entry.2, rest)) :
    readEntries? readItem? fuel read
        (quoted key ++ ':' :: (render value ++ (renderEntries entries ++ rest))) =
      some (read ++ ((key, value) :: entries).map fun entry => (entry.1, g entry.2), rest) := by
  induction entries generalizing key value fuel read with
  | nil =>
    obtain ⟨fuel, rfl⟩ := Nat.exists_eq_succ_of_ne_zero (Nat.ne_of_gt hfuel)
    have hvalue := h _ List.mem_cons_self _ (ends_renderEntries [] rest)
    have hnew := not_mem_keys_of_nodup hnodup
    rw [readEntries?, readEntry?_render hvalue]
    simp [renderEntries, skipBlanks_cons, isBlank, Entries.insert_of_not_mem hnew]
  | cons entry entries ih =>
    obtain ⟨other, following⟩ := entry
    obtain ⟨fuel, rfl⟩ := Nat.exists_eq_succ_of_ne_zero (Nat.ne_of_gt (Nat.zero_lt_of_lt hfuel))
    rw [List.forall_mem_cons] at h
    have hvalue := h.1 _ (ends_renderEntries ((other, following) :: entries) rest)
    have hnew := not_mem_keys_of_nodup hnodup
    -- the entry goes to the end of those before it, and the rest follows
    have hrest := ih (read ++ [(key, g value)]) (Nat.lt_of_succ_lt_succ hfuel)
      (by simpa [Entries.keys] using hnodup) h.2
    rw [readEntries?, readEntry?_render hvalue]
    simp only [renderEntries, List.cons_append, List.append_assoc]
    rw [skipBlanks_cons (by decide)]
    simpa [Entries.insert_of_not_mem hnew] using hrest

/-! ## Values -/

theorem length_lt_renderItems (items : List Json) : items.length < (renderItems items).length := by
  induction items with
  | nil => simp [renderItems]
  | cons item items ih =>
    simp only [renderItems, List.length_cons, List.length_append]
    omega

theorem length_lt_renderEntries (entries : Entries) :
    entries.length < (renderEntries entries).length := by
  induction entries with
  | nil => simp [renderEntries]
  | cons entry entries ih =>
    obtain ⟨key, value⟩ := entry
    simp only [renderEntries, List.length_cons, List.length_append]
    omega

theorem readValue?_array (hc : isBlank c = false) (hclose : c ≠ ']')
    (h : readItems? (readValue? levels) (c :: cs).length [] (c :: cs) = some (items, rest)) :
    readValue? (levels + 1) ('[' :: c :: cs) = some (.array items, rest) := by
  have hopen : skipBlanks ('[' :: c :: cs) = '[' :: c :: cs := skipBlanks_cons (by decide)
  rw [readValue?.eq_def, hopen]
  rw [List.length_cons] at h
  simp [skipBlanks_cons hc, hclose, h]

theorem readValue?_object
    (h : readEntries? (readValue? levels) ('"' :: cs).length [] ('"' :: cs) =
      some (entries, rest)) :
    readValue? (levels + 1) ('\x7b' :: '"' :: cs) = some (.object entries, rest) := by
  have hopen : skipBlanks ('\x7b' :: '"' :: cs) = '\x7b' :: '"' :: cs :=
    skipBlanks_cons (by decide)
  have hquote : skipBlanks ('"' :: cs) = '"' :: cs := skipBlanks_cons (by decide)
  rw [readValue?.eq_def, hopen]
  rw [List.length_cons] at h
  simp [hquote, h]

/-- An array is read back with one level more than its items need. -/
theorem readValue?_render_array (hproper : ∀ item ∈ items, Proper item)
    (hreread : ∀ item ∈ items, Reread f item)
    (h : ∀ item ∈ items, ∀ rest, Ends rest →
      readValue? levels (render item ++ rest) = some (item.mapDoubles f, rest)) (rest : List Char) :
    readValue? (levels + 1) (render (.array items) ++ rest) =
      some ((Json.array items).mapDoubles f, rest) := by
  cases items with
  | nil =>
    rw [readValue?.eq_def, render]
    simp [skipBlanks_cons, isBlank, mapDoubles, mapDoublesOfItems]
  | cons first items =>
    obtain ⟨c, cs, hfirst, hblank, hclose⟩ := exists_render_eq_cons
      (hproper first List.mem_cons_self) (hreread first List.mem_cons_self)
    have hfuel : items.length < (render first ++ (renderItems items ++ rest)).length := by
      have := length_lt_renderItems items
      simp only [List.length_append]
      omega
    have hitems := readItems?_render [] rest hfuel h
    rw [hfirst, List.cons_append] at hitems
    rw [render, List.append_assoc, List.cons_append, hfirst, List.cons_append,
      readValue?_array hblank hclose hitems, mapDoubles, mapDoublesOfItems_eq_map]
    rfl

theorem readValue?_render_object (hnodup : (Entries.keys entries).Nodup)
    (h : ∀ entry ∈ entries, ∀ rest, Ends rest →
      readValue? levels (render entry.2 ++ rest) = some (entry.2.mapDoubles f, rest))
    (rest : List Char) : readValue? (levels + 1) (render (.object entries) ++ rest) =
      some ((Json.object entries).mapDoubles f, rest) := by
  rcases entries with - | ⟨⟨key, value⟩, entries⟩
  · rw [readValue?.eq_def, render]
    simp [skipBlanks_cons, isBlank, mapDoubles, mapDoublesOfEntries]
  · have hfuel : entries.length <
        (quoted key ++ ':' :: (render value ++ (renderEntries entries ++ rest))).length := by
      have := length_lt_renderEntries entries
      simp only [List.length_append, List.length_cons]
      omega
    have hentries := readEntries?_render [] rest hfuel hnodup h
    -- the quote in front of the first key says that there is an entry
    obtain ⟨cs, hquoted, -⟩ :=
      readText?_quoted key (':' :: (render value ++ (renderEntries entries ++ rest)))
    rw [hquoted] at hentries
    have hobject := readValue?_object hentries
    rw [← hquoted] at hobject
    simpa [render, mapDoubles, mapDoublesOfEntries_eq_map] using hobject

/-- **The value at the front of a text** is read back, with what is made of its doubles, whatever
ends it, if the levels suffice for its depth. -/
theorem readValue?_render (hproper : Proper v) (hreread : Reread f v) (hdepth : v.depth ≤ levels)
    (hrest : Ends rest) : readValue? levels (render v ++ rest) = some (v.mapDoubles f, rest) := by
  induction v using inductionOn generalizing levels rest with
  | null =>
    rw [readValue?.eq_def, render]
    simp [skipBlanks_cons, isBlank, readLiteral?, mapDoubles]
  | bool b =>
    cases b <;>
    · rw [readValue?.eq_def, render]
      simp [skipBlanks_cons, isBlank, readLiteral?, mapDoubles]
  | integer n => exact readValue?_number (isNumber_integerText (proper_integer.1 hproper)) hrest
  | double x => exact readValue?_number (reread_double.1 hreread) hrest
  | text s =>
    obtain ⟨cs, hquoted, htext⟩ := readText?_quoted s rest
    have hquote : skipBlanks ('"' :: cs) = '"' :: cs := skipBlanks_cons (by decide)
    rw [readValue?.eq_def, render, hquoted, hquote]
    simp [htext, mapDoubles]
  | array items ih =>
    have hproper' := proper_array.1 hproper
    have hreread' := (every_array.1 hreread).2
    obtain ⟨levels, rfl⟩ : ∃ n, levels = n + 1 :=
      Nat.exists_eq_succ_of_ne_zero fun hzero => not_depth_array_le_zero (hzero ▸ hdepth)
    have hdepth' := depth_array_le_succ.1 hdepth
    exact readValue?_render_array hproper' hreread' (fun item hmem _ hrest =>
      ih item hmem (hproper' item hmem) (hreread' item hmem) (hdepth' item hmem) hrest) rest
  | object entries ih =>
    obtain ⟨hnodup, hproper'⟩ := proper_object.1 hproper
    have hreread' := (every_object.1 hreread).2
    obtain ⟨levels, rfl⟩ : ∃ n, levels = n + 1 :=
      Nat.exists_eq_succ_of_ne_zero fun hzero => not_depth_object_le_zero (hzero ▸ hdepth)
    have hdepth' := depth_object_le_succ.1 hdepth
    exact readValue?_render_object hnodup (fun entry hmem _ hrest =>
      ih entry hmem (hproper' entry hmem) (hreread' entry hmem) (hdepth' entry hmem) hrest) rest

/-- **The value that is the whole text** is read back, with what is made of its doubles. -/
theorem parse?_toText (hproper : Proper v) (hreread : Reread f v)
    (hdepth : v.depth ≤ parserLevels) :
    parse? v.toText = some (v.mapDoubles f) := by
  have hread := @readValue?_render f v [] parserLevels hproper hreread hdepth fun _ h => nomatch h
  rw [List.append_nil] at hread
  rw [parse?, toText, String.toList_ofList, hread]
  rfl

/-! ## No controls -/

theorem space_le_of_mem_renderItems (h : ∀ item ∈ items, ∀ c ∈ render item, 0x20 ≤ c.toNat) :
    ∀ c ∈ renderItems items, 0x20 ≤ c.toNat := by
  induction items with
  | nil => simp [renderItems]
  | cons item items ih =>
    rw [List.forall_mem_cons] at h
    simp only [renderItems, List.forall_mem_append, List.forall_mem_cons]
    exact ⟨⟨by decide, h.1⟩, ih h.2⟩

theorem space_le_of_mem_renderEntries
    (h : ∀ entry ∈ entries, ∀ c ∈ render entry.2, 0x20 ≤ c.toNat) :
    ∀ c ∈ renderEntries entries, 0x20 ≤ c.toNat := by
  induction entries with
  | nil => simp [renderEntries]
  | cons entry entries ih =>
    obtain ⟨key, value⟩ := entry
    rw [List.forall_mem_cons] at h
    simp only [renderEntries, List.forall_mem_append, List.forall_mem_cons]
    exact ⟨⟨⟨by decide, space_le_of_mem_quoted⟩, by decide, h.1⟩, ih h.2⟩

/-- **No controls are written**, so a text can be given with a terminator behind it. -/
theorem space_le_of_mem_render (hproper : Proper v) (hreread : Reread f v) :
    ∀ c ∈ render v, 0x20 ≤ c.toNat := by
  induction v using inductionOn with
  | null => simp [render]
  | bool b => cases b <;> simp [render]
  | integer n => exact (isNumber_integerText (proper_integer.1 hproper)).visible
  | double x => exact (reread_double.1 hreread).visible
  | text s => exact space_le_of_mem_quoted
  | array items ih =>
    have hitems : ∀ item ∈ items, ∀ c ∈ render item, 0x20 ≤ c.toNat := fun item hmem =>
      ih item hmem (proper_array.1 hproper item hmem) ((every_array.1 hreread).2 item hmem)
    cases items with
    | nil => simp [render]
    | cons first items =>
      rw [List.forall_mem_cons] at hitems
      simp only [render, List.forall_mem_append, List.forall_mem_cons]
      exact ⟨⟨by decide, hitems.1⟩, space_le_of_mem_renderItems hitems.2⟩
  | object entries ih =>
    have hentries : ∀ entry ∈ entries, ∀ c ∈ render entry.2, 0x20 ≤ c.toNat := fun entry hmem =>
      ih entry hmem ((proper_object.1 hproper).2 entry hmem) ((every_object.1 hreread).2 entry hmem)
    rcases entries with - | ⟨⟨key, value⟩, entries⟩
    · simp [render]
    · rw [List.forall_mem_cons] at hentries
      simp only [render, List.forall_mem_append, List.forall_mem_cons]
      exact ⟨⟨⟨by decide, space_le_of_mem_quoted⟩, by decide, hentries.1⟩,
        space_le_of_mem_renderEntries hentries.2⟩

end Parcel.Json
