import Parcel.Cbor.Reader

/-!
# Reading is stable

What a reader takes off the front of a byte string depends on the bytes it takes and on nothing
behind them: it takes the same when more bytes come behind, and leaves these untouched. So no reader
takes the front of what it took before for something complete. Loops that count what is left of the
input may take more turns on longer input, but never a different one.

## Main definitions

* `Extends`: a reader that reads on longer input what another one read
* `Stable`: a reader that extends itself

## Main results

* `Extends.bind`, `Extends.map`: readers that are made of others
* `extends_readSegments`, `extends_readUntilStop`: loops up to a break
* `stable_read`: items of all kinds, at every number of levels
-/

namespace Parcel.Cbor

variable {α β : Type}

/-- **Readers that go further**: what the first one reads, the second one reads as well when more
bytes come behind. -/
def Extends (reader reader' : Reader α) : Prop :=
  ∀ bytes behind ⦃a rest⦄, reader bytes = .ok (a, rest) →
    reader' (bytes ++ behind) = .ok (a, rest ++ behind)

/-- **Stable readers**: what is read from bytes does not change when more bytes come behind. -/
abbrev Stable (reader : Reader α) : Prop := Extends reader reader

namespace Extends

variable {reader reader' : Reader α}

theorem pure (a : α) : Stable fun bytes => .ok (a, bytes) := by
  intro bytes behind a rest hread
  cases hread
  rfl

theorem fail (fault : Fault) : Extends (fun _ => .error fault) reader := by
  intro bytes behind a rest hread
  contradiction

theorem ofResult (result : Except Fault α) :
    Stable fun bytes => result.map fun a => (a, bytes) := by
  cases result with
  | error fault => exact .fail fault
  | ok a => exact .pure a

/-- **One reader after another.** -/
theorem bind {next next' : α → Reader β} (h : Extends reader reader')
    (hnext : ∀ a, Extends (next a) (next' a)) :
    Extends
      (fun bytes => match reader bytes with
        | .error fault => .error fault
        | .ok (a, rest) => next a rest)
      (fun bytes => match reader' bytes with
        | .error fault => .error fault
        | .ok (a, rest) => next' a rest) := by
  intro bytes behind b rest hread
  dsimp only at hread ⊢
  cases hfirst : reader bytes with
  | error fault => simp [hfirst] at hread
  | ok found =>
    obtain ⟨a, between⟩ := found
    rw [hfirst] at hread
    rw [h bytes behind hfirst]
    exact hnext a between behind hread

theorem map (h : Extends reader reader') (f : α → β) :
    Extends (fun bytes => (reader bytes).map fun (a, rest) => (f a, rest))
      (fun bytes => (reader' bytes).map fun (a, rest) => (f a, rest)) := by
  intro bytes behind b rest hread
  dsimp only at hread ⊢
  cases hfirst : reader bytes with
  | error fault => simp [hfirst, Except.map] at hread
  | ok found =>
    rw [hfirst] at hread
    rw [h bytes behind hfirst]
    cases hread
    rfl

end Extends

/-! ## Strings and headers -/

/-- Bytes at the front that are all there stay when more come behind. -/
theorem take_drop_append {length : Nat} {bytes : Bytes}
    (h : ¬ (bytes.take length).length < length) (behind : Bytes) :
    (bytes ++ behind).take length = bytes.take length ∧
      (bytes ++ behind).drop length = bytes.drop length ++ behind := by
  rw [List.length_take] at h
  have hle : length ≤ bytes.length := by omega
  exact ⟨List.take_append_of_le_length hle, List.drop_append_of_le_length hle⟩

theorem stable_readNumber (width : Nat) : Stable (readNumber width) := by
  intro bytes behind n rest hread
  rw [readNumber] at hread
  split at hread
  · contradiction
  · next hall =>
    obtain ⟨htake, hdrop⟩ := take_drop_append hall behind
    cases hread
    rw [readNumber, htake, hdrop, if_neg hall]

theorem stable_readBytes (length : Nat) : Stable (readBytes length) := by
  intro bytes behind found rest hread
  rw [readBytes] at hread
  split at hread
  · contradiction
  · next hall =>
    obtain ⟨htake, hdrop⟩ := take_drop_append hall behind
    cases hread
    rw [readBytes, htake, hdrop, if_neg hall]

theorem stable_readText (length : Nat) : Stable (readText length) := by
  intro bytes behind s rest hread
  rw [readText] at hread
  split at hread
  · split at hread <;> contradiction
  · next hall =>
    obtain ⟨htake, hdrop⟩ := take_drop_append hall behind
    split at hread
    · next htext =>
      cases hread
      simp only [readText, htake, hdrop, if_neg hall, htext]
    · contradiction

theorem stable_readArgument (additional : Nat) : Stable (readArgument additional) := by
  -- wider arguments are numbers of one, two, four or eight bytes
  have hwide (width : Nat) {reader : Reader (Option Nat)}
      (hreader : ∀ bytes, reader bytes =
        (readNumber width bytes).map fun found => (some found.1, found.2)) : Stable reader := by
    obtain rfl := funext hreader
    exact (stable_readNumber width).map some
  unfold readArgument
  dsimp only
  split
  · exact .pure _
  · split
    · exact hwide 1 fun bytes => by cases readNumber 1 bytes <;> rfl
    · split
      · exact hwide 2 fun bytes => by cases readNumber 2 bytes <;> rfl
      · split
        · exact hwide 4 fun bytes => by cases readNumber 4 bytes <;> rfl
        · split
          · exact hwide 8 fun bytes => by cases readNumber 8 bytes <;> rfl
          · split
            · exact .pure _
            · exact .fail _

theorem stable_read_header : Stable Header.read := by
  intro bytes behind header rest hread
  cases bytes with
  | nil => contradiction
  | cons first later =>
    rw [Header.read] at hread
    rw [List.cons_append, Header.read]
    split at hread
    · contradiction
    · next argument between hargument =>
      rw [stable_readArgument _ later behind hargument]
      dsimp only at hread ⊢
      split at hread
      · contradiction
      · cases hread
        rfl

/-- **Segments up to a break** are the same on longer input, where there is more fuel. -/
theorem extends_readSegments {kind : StringKind α} (hkind : ∀ length, Stable (kind.segment length))
    {fuel fuel' : Nat} (hfuel : fuel ≤ fuel') (opened : Nat) (read : List α) :
    Extends (readSegments kind fuel opened read) (readSegments kind fuel' opened read) := by
  -- without fuel nothing is read, and each header takes one unit of both
  induction fuel generalizing fuel' opened read with
  | zero => exact .fail _
  | succ fuel ih =>
    obtain ⟨fuel', rfl⟩ : ∃ n, fuel' = n + 1 := ⟨fuel' - 1, by omega⟩
    have hfuel : fuel ≤ fuel' := by omega
    intro bytes behind string rest hread
    rw [readSegments] at hread
    split at hread
    · contradiction
    · next later hstop =>
      rw [readSegments, stable_read_header bytes behind hstop]
      cases opened with
      | zero =>
        cases hread
        rfl
      | succ opened => exact ih hfuel opened read later behind hread
    · next header later hother hheader =>
      simp only [readSegments, stable_read_header bytes behind hheader]
      cases hlength : kind.length? header with
      | none => simp [hlength] at hread
      | some length =>
        rw [hlength] at hread
        cases length with
        | none => exact ih hfuel (opened + 1) read later behind hread
        | some length =>
          exact (hkind length).bind (fun segment => ih hfuel opened (segment :: read)) later behind
            hread

theorem stable_readString {kind : StringKind α} (hkind : ∀ length, Stable (kind.segment length))
    (length : Option Nat) : Stable (readString kind length) := by
  cases length with
  | some length => exact hkind length
  | none =>
    intro bytes behind string rest hread
    exact extends_readSegments hkind (by simp) 0 [] bytes behind hread

/-! ## Containers -/

theorem stable_readMany {element : Reader α} (h : Stable element) (count : Nat) (read : List α) :
    Stable (readMany element count read) := by
  induction count generalizing read with
  | zero => exact .pure _
  | succ count ih => exact h.bind fun found => ih (found :: read)

/-- **Elements up to a break** are the same on longer input, where there is more fuel. -/
theorem extends_readUntilStop {element : Reader α} (h : Stable element) {fuel fuel' : Nat}
    (hfuel : fuel ≤ fuel') (read : List α) :
    Extends (readUntilStop element fuel read) (readUntilStop element fuel' read) := by
  -- each element takes one unit of both, and the break none
  induction fuel generalizing fuel' read with
  | zero => exact .fail _
  | succ fuel ih =>
    obtain ⟨fuel', rfl⟩ : ∃ n, fuel' = n + 1 := ⟨fuel' - 1, by omega⟩
    have hfuel : fuel ≤ fuel' := by omega
    intro bytes behind elements rest hread
    cases bytes with
    | nil => contradiction
    | cons first later =>
      rw [readUntilStop] at hread
      rw [List.cons_append, readUntilStop]
      split at hread
      · next hstop =>
        cases hread
        rw [if_pos hstop]
      · next hstop =>
        rw [if_neg hstop]
        exact h.bind (fun found => ih hfuel (found :: read)) (first :: later) behind hread

theorem stable_readElements {element : Reader α} (h : Stable element) (length : Option Nat) :
    Stable (readElements element length) := by
  cases length with
  | some count => exact stable_readMany h count []
  | none =>
    intro bytes behind elements rest hread
    exact extends_readUntilStop h (by simp) [] bytes behind hread

theorem stable_readPair {element : Reader α} (h : Stable element) : Stable (readPair element) :=
  h.bind fun key => h.bind fun value => .pure (key, value)

/-! ## Items -/

/-- What is behind a tag is looked at twice: its header first, and then, unless a big integer was
announced, all of it as an item. -/
theorem stable_readTagged {content : Option (Reader Item)} (h : ∀ reader ∈ content, Stable reader)
    (number : Nat) : Stable (readTagged content number) := by
  intro bytes behind item rest hread
  unfold readTagged at hread ⊢
  split at hread
  · contradiction
  · next header later hheader =>
    rw [stable_read_header bytes behind hheader]
    dsimp only at hread ⊢
    split at hread
    · -- a big integer goes on behind the header
      next length _ =>
      split at hread
      · contradiction
      · next found between hfound =>
        rw [stable_readBytes length later behind hfound]
        exact Extends.ofResult (bigInteger number found) between behind hread
    · -- any other item begins with the header again
      split at hread
      · contradiction
      · next reader =>
        split at hread
        · contradiction
        · next item between hitem =>
          rw [h reader rfl bytes behind hitem]
          cases hread
          rfl

/-- **Reading an item is stable**, whatever its form. -/
theorem stable_read (levels : Nat) : Stable (Item.read levels) := by
  -- the contents of containers and tags are read with one level less
  induction levels using Nat.strongRecOn with
  | _ levels ih =>
    intro bytes behind item rest hread
    unfold Item.read at hread ⊢
    split at hread
    · contradiction
    · next header later hheader =>
      rw [stable_read_header bytes behind hheader]
      cases header with
      | unsigned n => exact Extends.pure _ later behind hread
      | negative n => exact Extends.pure _ later behind hread
      | bytes length =>
        exact (stable_readString stable_readBytes length).map Item.bytes later behind hread
      | text length =>
        exact (stable_readString stable_readText length).map Item.text later behind hread
      | array length =>
        cases levels with
        | zero => contradiction
        | succ levels =>
          have hcontent := ih levels (Nat.lt_succ_self levels)
          exact (stable_readElements hcontent length).map Item.array later behind hread
      | map length =>
        cases levels with
        | zero => contradiction
        | succ levels =>
          have hcontent := stable_readPair (ih levels (Nat.lt_succ_self levels))
          exact (stable_readElements hcontent length).map Item.map later behind hread
      | tag number =>
        cases levels with
        | zero => exact stable_readTagged (by simp) number later behind hread
        | succ levels =>
          have hcontent := ih levels (Nat.lt_succ_self levels)
          exact stable_readTagged (by simpa using hcontent) number later behind hread
      | simple number => exact Extends.ofResult (simpleItem number) later behind hread
      | double value => exact Extends.pure _ later behind hread
      | stop => contradiction

end Parcel.Cbor
