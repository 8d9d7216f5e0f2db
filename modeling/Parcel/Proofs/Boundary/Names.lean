import Parcel.Proofs.Boundary.Interchange
import Parcel.Proofs.Text.Lossy

/-!
# Names of commands come in as bytes

Who makes a command from outside passes two terminated strings of bytes. They are read lossily, and
only then compared with the grammar of identifiers, which is one of characters. Still it is the
bytes that decide: identifiers are written with one byte for each character, and a replaced part is
never one of their characters. So the names of a command are those that were passed, byte by byte,
and bytes that are no text are no name.

A caller who died while it held the store is beyond all this, since nobody gets hold of the store
after that.

## Main definitions

* `isNameByte`, `IsName`: the grammar of identifiers, as one of bytes
* `Shared.Named`: a new command with its names

## Main results

* `isName_iff_exists`: names are the bytes of identifiers
* `isIdentifier_lossy_iff`: which bytes are read as identifiers
* `commands_take_names`: every pair of terminated strings, in every shared store
* `names_do_not_help_when_poisoned`: names that are refused after a caller died
-/

namespace Parcel

variable {a b : Bytes} {c : Char} {byte : UInt8}

/-! ## Names as bytes -/

/-- Whether names may hold a byte: it is that of a letter, of a digit, or of one of four marks. -/
def isNameByte (byte : UInt8) : Bool :=
  (0x41 ≤ byte && byte ≤ 0x5a) || (0x61 ≤ byte && byte ≤ 0x7a) ||
    (0x30 ≤ byte && byte ≤ 0x39) ||
    byte == 0x5f || byte == 0x2d || byte == 0x2e || byte == 0x3a

/-- **Bytes that name** an interface or an operation. -/
structure IsName (b : Bytes) : Prop where
  nonempty : b ≠ []
  isNameByte : ∀ byte ∈ b, isNameByte byte = true

instance : DecidablePred IsName := fun b =>
  decidable_of_iff (b ≠ [] ∧ b.all isNameByte = true)
    ⟨fun ⟨nonempty, hbytes⟩ => ⟨nonempty, List.all_eq_true.1 hbytes⟩,
      fun ⟨nonempty, hbytes⟩ => ⟨nonempty, List.all_eq_true.2 hbytes⟩⟩

theorem toNat_lt_of_isIdentifierCharacter (hc : isIdentifierCharacter c = true) :
    c.toNat < 0x80 := by
  have hle (high : Char) (hhigh : high.toNat < 0x80) (hc : c.val ≤ high.val) : c.toNat < 0x80 :=
    Nat.lt_of_le_of_lt (UInt32.le_iff_toNat_le.1 hc) hhigh
  simp only [isIdentifierCharacter, Bool.or_eq_true, decide_eq_true_eq] at hc
  rcases hc with (((halphanum | rfl) | rfl) | rfl) | rfl
  · -- letters of both cases and digits are ranges
    rcases Bool.or_eq_true_iff.1 halphanum with halpha | hdigit
    · rcases Bool.or_eq_true_iff.1 halpha with hupper | hlower
      · exact hle 'Z' (by decide) (of_decide_eq_true hupper).2
      · exact hle 'z' (by decide) (of_decide_eq_true (Bool.and_eq_true_iff.1 hlower).2)
    · exact hle '9' (by decide) (of_decide_eq_true (Bool.and_eq_true_iff.1 hdigit).2)
  all_goals decide

theorem toNat_lt_of_isNameByte (hbyte : isNameByte byte = true) : byte.toNat < 0x80 := by
  simp only [isNameByte, Bool.or_eq_true, Bool.and_eq_true, decide_eq_true_eq, beq_iff_eq,
    UInt8.le_iff_toNat_le, ← UInt8.toNat_inj, UInt8.reduceToNat] at hbyte
  omega

/-- The two grammars agree on the characters that are written with one byte. -/
theorem isIdentifierCharacter_ofNat :
    ∀ n < 0x80, isIdentifierCharacter (Char.ofNat n) = isNameByte (UInt8.ofNat n) := by
  decide

/-- A character of identifiers is written with one byte of names. -/
theorem exists_utf8EncodeChar (hc : isIdentifierCharacter c = true) :
    ∃ byte, String.utf8EncodeChar c = [byte] ∧ isNameByte byte = true := by
  have hlt := toNat_lt_of_isIdentifierCharacter hc
  refine ⟨UInt8.ofNat c.toNat, ?_, ?_⟩
  · rw [← Utf8.utf8EncodeChar_one hlt, Char.ofNat_toNat]
  · rw [← isIdentifierCharacter_ofNat _ hlt, Char.ofNat_toNat, hc]

/-- A byte of names is what a character of identifiers is written with. -/
theorem utf8EncodeChar_of_isNameByte (hbyte : isNameByte byte = true) :
    isIdentifierCharacter (Char.ofNat byte.toNat) = true ∧
      String.utf8EncodeChar (Char.ofNat byte.toNat) = [byte] := by
  have hlt := toNat_lt_of_isNameByte hbyte
  constructor
  · rw [isIdentifierCharacter_ofNat _ hlt, UInt8.ofNat_toNat, hbyte]
  · rw [Utf8.utf8EncodeChar_one hlt, UInt8.ofNat_toNat]

/-- **Names are the bytes of identifiers.** -/
theorem isName_iff_exists : IsName b ↔ ∃ text, isIdentifier text = true ∧ Utf8.bytes text = b := by
  constructor
  · rintro ⟨hnonempty, hbytes⟩
    -- each byte stands for a character of its own
    have hencoded (byte : UInt8) (hmem : byte ∈ b) :=
      utf8EncodeChar_of_isNameByte (hbytes byte hmem)
    refine ⟨String.ofList (b.map fun byte => Char.ofNat byte.toNat), ?_, ?_⟩
    · simp only [isIdentifier, String.toList_ofList, Bool.and_eq_true, List.all_eq_true,
        List.forall_mem_map]
      refine ⟨?_, fun byte hmem => (hencoded byte hmem).1⟩
      rw [List.isEmpty_map, Bool.not_eq_true', List.isEmpty_eq_false_iff]
      exact hnonempty
    · rw [Utf8.bytes_eq_flatMap, String.toList_ofList, List.flatMap_map,
        List.flatMap_congr fun byte hmem => (hencoded byte hmem).2, List.flatMap_singleton']
  · rintro ⟨text, htext, rfl⟩
    rw [isIdentifier, Bool.and_eq_true, List.all_eq_true, Bool.not_eq_true',
      List.isEmpty_eq_false_iff] at htext
    obtain ⟨hnonempty, hall⟩ := htext
    rw [Utf8.bytes_eq_flatMap]
    constructor
    · intro hnil
      obtain ⟨c, hc⟩ := List.exists_mem_of_ne_nil _ hnonempty
      obtain ⟨byte, hencode, -⟩ := exists_utf8EncodeChar (hall c hc)
      simp [List.flatMap_eq_nil_iff.1 hnil c hc] at hencode
    · intro byte hmem
      obtain ⟨c, hc, hbyte⟩ := List.mem_flatMap.1 hmem
      obtain ⟨byte', hencode, hname⟩ := exists_utf8EncodeChar (hall c hc)
      rw [hencode, List.mem_singleton] at hbyte
      rw [hbyte, hname]

/-- What is read as an identifier is written with the bytes that it was read from: a part that was
replaced would show. -/
theorem bytes_lossy_of_isIdentifier (hb : isIdentifier (Utf8.lossy b) = true) :
    Utf8.bytes (Utf8.lossy b) = b := by
  refine (Utf8.bytes_lossy_or_mem b).resolve_right fun hmem => ?_
  rw [isIdentifier, Bool.and_eq_true, List.all_eq_true] at hb
  exact absurd (hb.2 _ hmem) (by decide)

/-- **Bytes are read as an identifier** exactly if they are a name. -/
theorem isIdentifier_lossy_iff : isIdentifier (Utf8.lossy b) = true ↔ IsName b := by
  rw [isName_iff_exists]
  constructor
  · intro hb
    exact ⟨_, hb, bytes_lossy_of_isIdentifier hb⟩
  · rintro ⟨text, htext, rfl⟩
    rwa [Utf8.lossy_bytes]

theorem IsName.bytes_lossy (hb : IsName b) : Utf8.bytes (Utf8.lossy b) = b :=
  bytes_lossy_of_isIdentifier (isIdentifier_lossy_iff.2 hb)

/-- Bytes that are no text are no name. -/
theorem not_isName_of_text?_eq_none (hb : Utf8.text? b = none) : ¬ IsName b :=
  fun hname => Utf8.text?_eq_none_iff.1 hb hname.bytes_lossy

/-! ## New commands -/

variable {shared : Shared} {s : Store} {h : Handle} {text : String}

/-- A text is delivered into every buffer that has room for its bytes and a terminator. -/
theorem Target.deliverText_bytes {contents : Bytes}
    (hroom : (Utf8.bytes text).length < contents.length) :
    Target.deliverText ⟨.bytes contents, true⟩ text =
      ⟨.ok, some (Utf8.bytes text).length,
        .bytes (Utf8.bytes text ++ terminator ::
          contents.drop ((Utf8.bytes text).length + 1))⟩ := by
  have husable : Target.isUsable ⟨.bytes contents, true⟩ = true := rfl
  have hsize : text.utf8ByteSize = (Utf8.bytes text).length := rfl
  have hlength : (Utf8.bytes text ++ [terminator]).length = (Utf8.bytes text).length + 1 :=
    List.length_append
  have hfits : (Utf8.bytes text ++ [terminator]).length ≤ contents.length := by omega
  rw [deliverText, deliver, husable, Bool.not_true, if_neg (by decide), Memory.length,
    if_neg (Nat.not_lt.2 hfits), Memory.write, Bytes.overlay, List.take_of_length_le hfits, hlength,
    hsize, List.append_assoc, List.singleton_append]

/-- **A command with the given names**, each of which is delivered into every buffer that has room
for it and a terminator. -/
structure Shared.Named (shared : Shared) (h : Handle) (interface operation : Bytes) : Prop where
  kind : (Call.kind h true).run shared = (.kind .ok (some .command), shared)
  interface : ∀ contents : Bytes, interface.length < contents.length →
    (Call.getInterface h ⟨.bytes contents, true⟩).run shared =
      (.delivery ⟨.ok, some interface.length,
        .bytes (interface ++ terminator :: contents.drop (interface.length + 1))⟩, shared)
  operation : ∀ contents : Bytes, operation.length < contents.length →
    (Call.getOperation h ⟨.bytes contents, true⟩).run shared =
      (.delivery ⟨.ok, some operation.length,
        .bytes (operation ++ terminator :: contents.drop (operation.length + 1))⟩, shared)

theorem named_of_object {stored : StoredObject} {interface operation : String}
    (hstored : s.object h = .ok stored) (hnames : stored.names = some (interface, operation)) :
    (Shared.ofStore s).Named h (Utf8.bytes interface) (Utf8.bytes operation) where
  kind := by
    rw [Call.run_kind hstored, StoredObject.kind, hnames]
    rfl
  interface contents hroom := by
    rw [Call.run_getInterface hstored, hnames]
    dsimp only
    rw [Target.deliverText_bytes hroom]
  operation contents hroom := by
    rw [Call.run_getOperation hstored, hnames]
    dsimp only
    rw [Target.deliverText_bytes hroom]

/-- A store behind the boundary refuses an object exactly if it is full. -/
theorem Shared.Reached.insert_eq_error_iff (hs : shared.Reached) {object : StoredObject}
    {error : Error} : shared.store.insert object = .error error ↔ shared.store.Full error := by
  obtain ⟨limit, s₀, requests, hlimit, hstore⟩ := hs.exists_run
  rw [hstore]
  exact Store.insert_eq_error_iff (Store.sound_run hlimit requests).advance.wellFormed
    (Store.size_eq_length_liveHandles hlimit requests)

/-- Names that are no identifiers are refused before there is any need of room. -/
theorem insertCommand_of_not_isIdentifier {interface operation : String}
    (hnames : ¬ (isIdentifier interface = true ∧ isIdentifier operation = true)) (s : Store) :
    ∃ text, s.insertCommand interface operation = .error (.invalidIdentifier text) := by
  rw [Store.insertCommand, Store.checkNames, Identifier.validate, Identifier.validate]
  by_cases hinterface : isIdentifier interface = true
  · have hoperation : ¬ isIdentifier operation = true := fun h => hnames ⟨hinterface, h⟩
    simp only [if_pos hinterface, if_neg hoperation]
    exact ⟨operation, rfl⟩
  · simp only [if_neg hinterface]
    exact ⟨interface, rfl⟩

/-- **A new command gets the names that were passed**, byte by byte. -/
theorem run_newCommand_of_isName (hs : shared.Reached) (hlive : shared.poisoned = false)
    (hroom : ∀ error, ¬ shared.store.Full error) {first second : Option Bytes}
    (hfirst : readText? first = some (Utf8.lossy a))
    (hsecond : readText? second = some (Utf8.lossy b)) (ha : IsName a) (hb : IsName b) :
    ∃ h created, (Call.newCommand first second true).run shared =
        (.handle .ok (some h), created) ∧
      (∀ stored, shared.store.object h ≠ .ok stored) ∧ created.Named h a b ∧
      ∀ k ≠ h, created.store.object k = shared.store.object k := by
  obtain ⟨allotted, hsound⟩ := hs.sound
  have hcheck := Store.checkNames_eq_ok_iff.2
    ⟨isIdentifier_lossy_iff.2 ha, isIdentifier_lossy_iff.2 hb⟩
  cases hi : shared.store.insert (.empty (some (Utf8.lossy a, Utf8.lossy b))) with
  | error error => exact absurd (hs.insert_eq_error_iff.1 hi) (hroom error)
  | ok found =>
    obtain ⟨h, s'⟩ := found
    obtain ⟨hnew, hobject⟩ := Store.object_insert hsound.advance.wellFormed hi
    have hcreated := named_of_object (hobject h ▸ if_pos rfl) rfl
    -- names are ASCII, so their bytes come back from the text
    rw [ha.bytes_lossy, hb.bytes_lossy] at hcreated
    refine ⟨h, .ofStore s', ?_, hnew, hcreated, fun k hk => (hobject k).trans (if_neg hk)⟩
    rw [Shared.eq_ofStore hlive, Call.run_newCommand hfirst hsecond, Store.insertCommand, hcheck]
    dsimp only
    rw [hi]
    rfl

/-- **The bytes of its names decide about a new command**, in every shared store that callers can
lead to and for all strings without a terminator, whatever lies behind them. In a store that is
neither poisoned nor full the call succeeds exactly if both strings are names. Then it gives out a
handle that was not live, under which there is a command with these very names, and all other
objects are as before. Otherwise the call reports a bad identifier, brings no handle and changes
nothing, whether there is room or not; so it is for all bytes that are no text. In a poisoned store
the call fails for that. -/
theorem commands_take_names (hs : shared.Reached) (ha : terminator ∉ a) (hb : terminator ∉ b)
    (behind behind' : Bytes) :
    let call := Call.newCommand (some (a ++ terminator :: behind))
      (some (b ++ terminator :: behind')) true
    (shared.poisoned = false → (∀ error, ¬ shared.store.Full error) →
      ((call.run shared).1.status = .ok ↔ IsName a ∧ IsName b)) ∧
    (shared.poisoned = false → (∀ error, ¬ shared.store.Full error) → IsName a → IsName b →
      ∃ h created, call.run shared = (.handle .ok (some h), created) ∧
        (∀ stored, shared.store.object h ≠ .ok stored) ∧ created.Named h a b ∧
        ∀ k ≠ h, created.store.object k = shared.store.object k) ∧
    (shared.poisoned = false → ¬ (IsName a ∧ IsName b) →
      call.run shared = (.handle .invalidIdentifier none, shared)) ∧
    (shared.poisoned = false → Utf8.text? a = none ∨ Utf8.text? b = none →
      call.run shared = (.handle .invalidIdentifier none, shared)) ∧
    (shared.poisoned = true → call.run shared = (.handle .internalError none, shared)) := by
  intro call
  have hfirst := readText?_terminated ha behind
  have hsecond := readText?_terminated hb behind'
  have hmade (hlive : shared.poisoned = false) (hroom : ∀ error, ¬ shared.store.Full error)
      (ha : IsName a) (hb : IsName b) :=
    run_newCommand_of_isName hs hlive hroom hfirst hsecond ha hb
  -- the strings are read lossily first, which leaves names alone and makes no name of anything else
  have hrefused (hlive : shared.poisoned = false) (hnames : ¬ (IsName a ∧ IsName b)) :
      call.run shared = (.handle .invalidIdentifier none, shared) := by
    rw [← isIdentifier_lossy_iff, ← isIdentifier_lossy_iff] at hnames
    obtain ⟨text, hinsert⟩ := insertCommand_of_not_isIdentifier hnames shared.store
    rw [Shared.eq_ofStore hlive, Call.run_newCommand hfirst hsecond]
    simp only [Shared.ofStore, hinsert]
    rfl
  refine ⟨fun hlive hroom => ⟨fun hstatus => ?_, fun hnames => ?_⟩, hmade, hrefused,
    fun hlive hnone => hrefused hlive fun hnames => ?_, fun hdead => ?_⟩
  · -- a call that succeeds was not refused
    by_contra hnames
    rw [hrefused hlive hnames] at hstatus
    contradiction
  · obtain ⟨h, created, hrun, -⟩ := hmade hlive hroom hnames.1 hnames.2
    rw [hrun]
    rfl
  · rcases hnone with hnone | hnone
    · exact not_isName_of_text?_eq_none hnone hnames.1
    · exact not_isName_of_text?_eq_none hnone hnames.2
  · simp only [call, Call.run, hfirst, hsecond, Shared.request_poisoned hdead]

/-- The names of a lamp and of its switch, and a byte that is no text, in a store where data was
made before. -/
theorem commands_take_names_lamp :
    let shared := ((Call.newData true).run (.ofStore .empty)).2
    let lamp : Bytes := [0x6c, 0x61, 0x6d, 0x70]
    let switch : Bytes := [0x73, 0x77, 0x3a, 0x31]
    let broken : Bytes := [0x61, 0xff]
    shared.Reached ∧ terminator ∉ lamp ∧ terminator ∉ switch ∧ terminator ∉ broken ∧
      (∃ h created, (Call.newCommand (some (lamp ++ [terminator]))
          (some (switch ++ [terminator, 7])) true).run shared = (.handle .ok (some h), created) ∧
        created.Named h lamp switch) ∧
      (Call.newCommand (some (lamp ++ [terminator])) (some (broken ++ [terminator])) true).run
        shared = (.handle .invalidIdentifier none, shared) := by
  intro shared lamp switch broken
  have hs : shared.Reached := .call Shared.reached_empty (.newData true)
  have hroom : ∀ error, ¬ shared.store.Full error := Store.not_full_of_lt rfl (by decide)
  have hlamp : terminator ∉ lamp := by decide
  have hswitch : terminator ∉ switch := by decide
  have hbroken : terminator ∉ broken := by decide
  obtain ⟨-, hmade, -⟩ := commands_take_names hs hlamp hswitch [] [7]
  obtain ⟨-, -, -, hrefused, -⟩ := commands_take_names hs hlamp hbroken [] []
  obtain ⟨h, created, hrun, -, hnamed, -⟩ := hmade rfl hroom (by decide) (by decide)
  exact ⟨hs, hlamp, hswitch, hbroken, ⟨h, created, hrun, hnamed⟩, hrefused rfl (.inr (by decide))⟩

/-- **Names do not help when the store is poisoned**: there is room for a command, and both strings
are names, but the call fails. -/
theorem names_do_not_help_when_poisoned :
    let shared := (Shared.ofStore .empty).poison.2
    let call := Call.newCommand (some [0x61, terminator]) (some [0x62, terminator]) true
    shared.Reached ∧ (∀ error, ¬ shared.store.Full error) ∧ IsName [0x61] ∧ IsName [0x62] ∧
      call.run shared = (.handle .internalError none, shared) := by
  intro shared call
  exact ⟨.poison Shared.reached_empty, Store.not_full_of_lt rfl (by decide), by decide, by decide,
    rfl⟩

end Parcel
