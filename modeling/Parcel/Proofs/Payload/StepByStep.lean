import Mathlib.Data.List.Forall2
import Mathlib.Data.List.Induction
import Parcel.Command

/-!
# At once or step by step

A payload can be made of arguments and typed values at once, or an empty one is given the arguments
and then the values one after the other. The first way keeps the entries to itself until all values
were accepted, while the second makes a new payload with each of them. Both end with the same
payload or with the same error: that of the first value that is refused, whether it cannot be turned
into a data item at all or turns out to be no metadata, and whatever comes behind it.

The names of a command are looked at before any of the values.

## Main definitions

* `Payload.stepByStep`: an empty payload that is given arguments and then typed values
* `Payload.Accepted`, `Payload.Refused`: what becomes of typed values

## Main results

* `Entries.keys_ofPairs`: where a repeated key ends up
* `Payload.foldlM_withEntry`: values given one after the other to any payload
* `Payload.ofOffers_eq_ok_iff`, `Payload.ofOffers_eq_error_iff`: what all values at once lead to
* `Payload.at_once_or_step_by_step`: both ways lead to the same
-/

namespace Parcel

/-! ## Repeated keys -/

namespace Entries

variable {pairs : List (String × Json)} {m : Entries} {key : String} {value : Json}

theorem ofPairs_concat : ofPairs (pairs ++ [(key, value)]) = insert (ofPairs pairs) key value :=
  List.foldl_append

/-- **A repeated key** is listed where it stood first. -/
theorem keys_ofPairs (pairs : List (String × Json)) :
    keys (ofPairs pairs) = (pairs.map Prod.fst).eraseDups := by
  induction pairs using List.reverseRecOn with
  | nil => rfl
  | append_singleton pairs pair ih =>
    obtain ⟨key, value⟩ := pair
    rw [ofPairs_concat, keys_insert, ih, List.map_append, List.eraseDups_append]
    by_cases hmem : key ∈ pairs.map Prod.fst
    · rw [if_pos (List.mem_eraseDups.2 hmem)]
      simp [List.removeAll, hmem]
    · rw [if_neg (mt List.mem_eraseDups.1 hmem)]
      simp [List.removeAll, hmem, List.eraseDups_cons]

/-- What is inserted under other keys leaves the value of a key alone. -/
theorem get?_foldl_insert (hkey : key ∉ pairs.map Prod.fst) :
    get? (pairs.foldl (fun entries pair => insert entries pair.1 pair.2) m) key = get? m key := by
  induction pairs generalizing m with
  | nil => rfl
  | cons pair rest ih =>
    rw [List.map_cons, List.mem_cons, not_or] at hkey
    rw [List.foldl_cons, ih hkey.2, get?_insert, if_neg hkey.1]

end Entries

namespace Payload

variable {p : Payload} {args : List Bytes} {entries front : List (String × Offer)}
  {pairs : List (String × Json)} {key : String} {offer : Offer} {value : Json} {error : Error}

/-- **A payload that is built step by step**: an empty one is given the arguments, and then the
typed values one after the other until one is refused. -/
def stepByStep (args : List Bytes) (entries : List (String × Offer)) : Except Error Payload :=
  entries.foldlM (fun p entry => p.withEntry entry.1 entry.2) (args.foldl withArg .empty)

/-! ## What becomes of typed values -/

/-- **Typed values that are accepted**, each with the metadata value that it is. -/
def Accepted (entries : List (String × Offer)) (pairs : List (String × Json)) : Prop :=
  List.Forall₂ (fun entry pair => entry.1 = pair.1 ∧ entry.2.toMetadata = .ok pair.2) entries pairs

/-- **Typed values of which one is refused**, with the error of the first such. -/
def Refused (entries : List (String × Offer)) (error : Error) : Prop :=
  ∃ front key offer rest, entries = front ++ (key, offer) :: rest ∧
    (∃ pairs, Accepted front pairs) ∧ offer.toMetadata = .error error

theorem exists_accepted_iff :
    (∃ pairs, Accepted entries pairs) ↔
      ∀ entry ∈ entries, ∃ value, entry.2.toMetadata = .ok value := by
  induction entries with
  | nil => exact iff_of_true ⟨[], .nil⟩ (fun _ hmem => nomatch hmem)
  | cons entry rest ih =>
    rw [List.forall_mem_cons, ← ih]
    constructor
    · rintro ⟨_, hpairs⟩
      cases hpairs with
      | cons hpair hrest => exact ⟨⟨_, hpair.2⟩, _, hrest⟩
    · rintro ⟨⟨value, hvalue⟩, pairs, hrest⟩
      exact ⟨(entry.1, value) :: pairs, .cons ⟨rfl, hvalue⟩ hrest⟩

/-- What is accepted keeps its keys. -/
theorem Accepted.map_fst_eq (h : Accepted entries pairs) :
    entries.map Prod.fst = pairs.map Prod.fst := by
  induction h with
  | nil => rfl
  | cons hpair _ ih => rw [List.map_cons, List.map_cons, hpair.1, ih]

theorem Refused.cons (hvalue : offer.toMetadata = .ok value) (h : Refused entries error) :
    Refused ((key, offer) :: entries) error := by
  obtain ⟨front, other, refused, rest, rfl, ⟨pairs, hfront⟩, herror⟩ := h
  exact ⟨(key, offer) :: front, other, refused, rest, rfl,
    ⟨(key, value) :: pairs, .cons ⟨rfl, hvalue⟩ hfront⟩, herror⟩

/-- Either all typed values are accepted, or there is a first that is refused. -/
theorem accepted_or_refused (entries : List (String × Offer)) :
    (∃ pairs, Accepted entries pairs) ∨ ∃ error, Refused entries error := by
  induction entries with
  | nil => exact .inl ⟨[], .nil⟩
  | cons entry rest ih =>
    obtain ⟨key, offer⟩ := entry
    cases hoffer : offer.toMetadata with
    | error error => exact .inr ⟨error, [], key, offer, rest, rfl, ⟨[], .nil⟩, hoffer⟩
    | ok value =>
      rcases ih with ⟨pairs, hpairs⟩ | ⟨error, herror⟩
      · exact .inl ⟨(key, value) :: pairs, .cons ⟨rfl, hoffer⟩ hpairs⟩
      · exact .inr ⟨error, herror.cons hoffer⟩

/-! ## All values at once -/

/-- Accepted values are inserted one after the other, and then those behind them. -/
theorem insertOffers_append (h : Accepted front pairs) (m : Entries)
    (rest : List (String × Offer)) : insertOffers m (front ++ rest) =
      insertOffers (pairs.foldl (fun entries pair => entries.insert pair.1 pair.2) m) rest := by
  induction h generalizing m with
  | nil => rfl
  | @cons entry pair _ _ hpair _ ih =>
    obtain ⟨key, offer⟩ := entry
    obtain ⟨hkey, hvalue⟩ := hpair
    dsimp only at hkey hvalue
    rw [List.cons_append, insertOffers, hvalue, List.foldl_cons, ← hkey]
    exact ih _

theorem insertOffers_of_accepted (h : Accepted entries pairs) (m : Entries) :
    insertOffers m entries =
      .ok (pairs.foldl (fun entries pair => entries.insert pair.1 pair.2) m) := by
  have happend := insertOffers_append h m []
  rwa [List.append_nil, insertOffers] at happend

theorem ofOffers_of_accepted (h : Accepted entries pairs) (args : List Bytes) :
    ofOffers args entries = .ok ⟨args, Entries.ofPairs pairs⟩ := by
  rw [ofOffers, insertOffers_of_accepted h]
  rfl

theorem ofOffers_of_refused (h : Refused entries error) (args : List Bytes) :
    ofOffers args entries = .error error := by
  obtain ⟨front, key, offer, rest, rfl, ⟨pairs, hfront⟩, herror⟩ := h
  rw [ofOffers, insertOffers_append hfront, insertOffers, herror]

/-- **All values are accepted** if there is a payload in the end, and only then. -/
theorem ofOffers_eq_ok_iff : ofOffers args entries = .ok p ↔
    ∃ pairs, Accepted entries pairs ∧ p = ⟨args, Entries.ofPairs pairs⟩ := by
  constructor
  · intro h
    rcases accepted_or_refused entries with ⟨pairs, hpairs⟩ | ⟨error, herror⟩
    · rw [ofOffers_of_accepted hpairs] at h
      exact ⟨pairs, hpairs, (Except.ok.inj h).symm⟩
    · rw [ofOffers_of_refused herror] at h
      contradiction
  · rintro ⟨pairs, hpairs, rfl⟩
    exact ofOffers_of_accepted hpairs args

/-- **The first value that is refused** gives the error. -/
theorem ofOffers_eq_error_iff : ofOffers args entries = .error error ↔ Refused entries error := by
  constructor
  · intro h
    rcases accepted_or_refused entries with ⟨pairs, hpairs⟩ | ⟨other, hother⟩
    · rw [ofOffers_of_accepted hpairs] at h
      contradiction
    · rw [ofOffers_of_refused hother] at h
      exact Except.error.inj h ▸ hother
  · intro h
    exact ofOffers_of_refused h args

/-- **A repeated key** has the value that was offered for it last: nothing behind it is inserted
under the key. -/
theorem get?_of_ofOffers {rest : List (String × Offer)}
    (h : ofOffers args (front ++ (key, offer) :: rest) = .ok p) (hlast : key ∉ rest.map Prod.fst) :
    ∃ value, offer.toMetadata = .ok value ∧ p.metadata.get? key = some value := by
  obtain ⟨pairs, hpairs, rfl⟩ := ofOffers_eq_ok_iff.1 h
  have haccepted := exists_accepted_iff.1 ⟨pairs, hpairs⟩
  rw [List.forall_mem_append, List.forall_mem_cons] at haccepted
  obtain ⟨hfront, ⟨value, hvalue⟩, hrest⟩ := haccepted
  obtain ⟨before, hbefore⟩ := exists_accepted_iff.2 hfront
  obtain ⟨behind, hbehind⟩ := exists_accepted_iff.2 hrest
  refine ⟨value, hvalue, ?_⟩
  -- the value is inserted behind those before it, and no key behind it takes its place
  have hinsert := insertOffers_of_accepted hpairs []
  rw [insertOffers_append hbefore, insertOffers, hvalue] at hinsert
  dsimp only at hinsert
  rw [insertOffers_of_accepted hbehind, Except.ok.injEq] at hinsert
  rw [hbehind.map_fst_eq] at hlast
  rw [Entries.ofPairs, ← hinsert, Entries.get?_foldl_insert hlast, Entries.get?_insert, if_pos rfl]

/-! ## Step by step -/

theorem foldl_withArg (p : Payload) (args : List Bytes) :
    args.foldl withArg p = { p with args := p.args ++ args } := by
  induction args generalizing p with
  | nil => rw [List.foldl_nil, List.append_nil]
  | cons arg rest ih =>
    rw [List.foldl_cons, ih, withArg, push, List.append_assoc, List.singleton_append]

theorem withEntry_of_error (h : offer.toMetadata = .error error) (p : Payload) (key : String) :
    p.withEntry key offer = .error error := by
  rw [withEntry, set, h]
  rfl

theorem withEntry_of_ok (h : offer.toMetadata = .ok value) (p : Payload) (key : String) :
    p.withEntry key offer = .ok { p with metadata := p.metadata.insert key value } := by
  rw [withEntry, set, h]
  rfl

/-- **Values given one after the other** to any payload change it as the insertion of all of them
changes its metadata: after each step the values that are left are inserted into what is there by
then. -/
theorem foldlM_withEntry (p : Payload) (entries : List (String × Offer)) :
    entries.foldlM (fun p entry => p.withEntry entry.1 entry.2) p =
      (insertOffers p.metadata entries).map fun metadata => { p with metadata := metadata } := by
  induction entries generalizing p with
  | nil => rfl
  | cons entry rest ih =>
    obtain ⟨key, offer⟩ := entry
    rw [List.foldlM_cons, insertOffers]
    cases hoffer : offer.toMetadata with
    | error error =>
      rw [withEntry_of_error hoffer]
      rfl
    | ok value =>
      rw [withEntry_of_ok hoffer]
      exact ih _

theorem ofOffers_eq_stepByStep (args : List Bytes) (entries : List (String × Offer)) :
    ofOffers args entries = stepByStep args entries := by
  have hargs : args.foldl withArg .empty = ⟨args, []⟩ := foldl_withArg .empty args
  rw [stepByStep, hargs, foldlM_withEntry, ofOffers]
  cases insertOffers [] entries <;> rfl

end Payload

/-! ## Commands -/

namespace Command

variable {args : List Bytes} {entries : List (String × Offer)}

theorem ofString_of_not_isIdentifier {s : String} (h : isIdentifier s = false) :
    Identifier.ofString s = .error (.invalidIdentifier s) :=
  dif_neg (by simp [h])

/-- The interface is looked at first. -/
theorem ofOffers_of_interface {interface : String} (h : isIdentifier interface = false)
    (operation : String) :
    ofOffers interface operation args entries = .error (.invalidIdentifier interface) := by
  simp only [ofOffers, ofNames, ofPayload, ofString_of_not_isIdentifier h]

/-- The operation is looked at next. -/
theorem ofOffers_of_operation (interface : Identifier) {operation : String}
    (h : isIdentifier operation = false) :
    ofOffers interface.text operation args entries = .error (.invalidIdentifier operation) := by
  simp only [ofOffers, ofNames, ofPayload, Identifier.ofString_text, ofString_of_not_isIdentifier h]

/-- With two identifiers everything depends on the payload. -/
theorem ofOffers_text (interface operation : Identifier) :
    ofOffers interface.text operation.text args entries =
      (Payload.ofOffers args entries).map fun p => ⟨interface, operation, p⟩ := by
  simp only [ofOffers, ofNames, ofPayload, Identifier.ofString_text]
  cases Payload.ofOffers args entries <;> rfl

end Command

namespace Payload

/-- **At once or step by step.** Arguments and typed values lead to the same result whether the
payload is made of them at once, or an empty one is given the arguments and then the values, one
after the other. There is a payload exactly if all values are accepted; it has the arguments in
their order, each key where it stood first, and the value that was offered for the key last.
Otherwise the error is that of the first value that is refused. For a command the error is that of
the interface if that is no identifier, else that of the operation, whatever the values are; with
two identifiers the command is made around the same payload, or there is the same error. -/
theorem at_once_or_step_by_step (args : List Bytes) (entries : List (String × Offer)) :
    ofOffers args entries = stepByStep args entries ∧
      ((∃ p, stepByStep args entries = .ok p) ↔
        ∀ entry ∈ entries, ∃ value, entry.2.toMetadata = .ok value) ∧
      (∀ p, stepByStep args entries = .ok p →
        p.args = args ∧ p.metadata.keys = (entries.map Prod.fst).eraseDups ∧
          ∀ front key offer rest, entries = front ++ (key, offer) :: rest →
            key ∉ rest.map Prod.fst →
            ∃ value, offer.toMetadata = .ok value ∧ p.metadata.get? key = some value) ∧
      (∀ error, stepByStep args entries = .error error ↔
        ∃ front key offer rest, entries = front ++ (key, offer) :: rest ∧
          (∀ entry ∈ front, ∃ value, entry.2.toMetadata = .ok value) ∧
          offer.toMetadata = .error error) ∧
      (∀ interface operation, isIdentifier interface = false →
        Command.ofOffers interface operation args entries = .error (.invalidIdentifier interface)) ∧
      (∀ (interface : Identifier) operation, isIdentifier operation = false →
        Command.ofOffers interface.text operation args entries =
          .error (.invalidIdentifier operation)) ∧
      ∀ interface operation : Identifier,
        Command.ofOffers interface.text operation.text args entries =
          (stepByStep args entries).map fun p => ⟨interface, operation, p⟩ := by
  rw [← ofOffers_eq_stepByStep]
  refine ⟨rfl, ?_, ?_, ?_, ?_, ?_, Command.ofOffers_text⟩
  · rw [← exists_accepted_iff]
    constructor
    · rintro ⟨p, hp⟩
      obtain ⟨pairs, hpairs, -⟩ := ofOffers_eq_ok_iff.1 hp
      exact ⟨pairs, hpairs⟩
    · rintro ⟨pairs, hpairs⟩
      exact ⟨_, ofOffers_of_accepted hpairs args⟩
  · intro p hp
    obtain ⟨pairs, hpairs, heq⟩ := ofOffers_eq_ok_iff.1 hp
    refine ⟨heq ▸ rfl, ?_, ?_⟩
    · rw [heq, hpairs.map_fst_eq]
      exact Entries.keys_ofPairs pairs
    · rintro front key offer rest rfl hlast
      exact get?_of_ofOffers hp hlast
  · intro error
    simp only [ofOffers_eq_error_iff, Refused, exists_accepted_iff]
  · intro interface operation hinterface
    exact Command.ofOffers_of_interface hinterface operation
  · intro interface operation hoperation
    exact Command.ofOffers_of_operation interface hoperation

/-- A key is offered twice with another key between, and a value that is no metadata ends it; a name
that is no identifier comes first. -/
theorem at_once_or_step_by_step_repeated :
    let offer (datum : Datum) : Offer := ⟨"T", datum⟩
    let good : List (String × Offer) :=
      [("a", offer (.integer 1)), ("b", offer .unit), ("a", offer (.text "x"))]
    let bad := good ++ [("c", offer (.failing "no")), ("d", offer (.bytes []))]
    (∃ p, stepByStep [[7]] good = .ok p ∧ p.args = [[7]] ∧ p.metadata.keys = ["a", "b"] ∧
        p.metadata.get? "a" = some (.text "x")) ∧
      stepByStep [[7]] bad = .error (.invalidMetadata "T" "Custom(\"no\")") ∧
      Command.ofOffers "a b" "" [[7]] bad = .error (.invalidIdentifier "a b") ∧
      Command.ofOffers "lamp" "" [[7]] bad = .error (.invalidIdentifier "") := by
  intro offer good bad
  have hgood : ∀ entry ∈ good, ∃ value, entry.2.toMetadata = .ok value := by
    simp only [good, List.forall_mem_cons]
    exact ⟨⟨.integer 1, rfl⟩, ⟨.null, rfl⟩, ⟨.text "x", rfl⟩, nofun⟩
  have hrefused : (offer (.failing "no")).toMetadata =
      .error (.invalidMetadata "T" "Custom(\"no\")") := by
    have hquoted : "Custom(" ++ Quoted.text "no" ++ ")" = "Custom(\"no\")" := by decide +kernel
    rw [← hquoted]
    rfl
  obtain ⟨-, hexists, hresult, -⟩ := at_once_or_step_by_step [[7]] good
  obtain ⟨-, -, -, herror, hinterface, hoperation, -⟩ := at_once_or_step_by_step [[7]] bad
  obtain ⟨p, hp⟩ := hexists.2 hgood
  obtain ⟨hargs, hkeys, hlast⟩ := hresult p hp
  obtain ⟨value, hvalue, hget⟩ :=
    hlast [("a", offer (.integer 1)), ("b", offer .unit)] "a" (offer (.text "x")) [] rfl nofun
  cases hvalue
  exact ⟨⟨p, hp, hargs, hkeys.trans (by decide), hget⟩,
    (herror _).2 ⟨good, "c", offer (.failing "no"), [("d", offer (.bytes []))],
      rfl, hgood, hrefused⟩,
    hinterface "a b" "" (by decide), hoperation ⟨"lamp", by decide⟩ "" (by decide)⟩

end Payload

end Parcel
