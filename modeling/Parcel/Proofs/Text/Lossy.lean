import Parcel.Proofs.Text.Utf8

/-!
# Bytes that are no text

Lossy reading takes any bytes and always gives a text. What it finds as a character is written by
exactly the bytes that were taken for it, so a text without a single replacement character was read
from its own bytes. Of bytes that are no text something is therefore always replaced, and the
replacement character shows it.

## Main definitions

* `Reads`: bytes with the characters that are read from them

## Main results

* `eq_append_of_step`: the bytes that are taken for a character are those that it is written with
* `reads_lossy`: bytes are read part by part
* `bytes_lossy_or_mem`: bytes are those of the text that they are read as, unless a part is replaced
* `text?_eq_none_iff`: bytes that are no text are those that are not given back
-/

namespace Parcel.Utf8

variable {n k low high payload : Nat} {first byte : UInt8} {b rest next : Bytes} {c : Char}

/-! ## Characters in their bytes

A character is written with one byte up to U+007F, with two up to U+07FF, with three up to U+FFFF
and with four beyond; each byte but the first holds six bits of its number. -/

theorem val_ofNat (hn : n.isValidChar) : (Char.ofNat n).val.toNat = n := by
  rw [Char.ofNat, dif_pos hn]
  rfl

theorem utf8EncodeChar_one (hn : n < 0x80) :
    String.utf8EncodeChar (Char.ofNat n) = [UInt8.ofNat n] := by
  have hval := val_ofNat (n := n) (by unfold Nat.isValidChar; omega)
  rw [String.utf8EncodeChar, hval, if_pos (by omega)]

theorem utf8EncodeChar_two (hlow : 2 ≤ payload) (hhigh : payload < 32) (hk : k < 64) :
    String.utf8EncodeChar (Char.ofNat (64 * payload + k)) =
      [UInt8.ofNat (payload + 0xc0), UInt8.ofNat (k + 0x80)] := by
  have hval := val_ofNat (n := 64 * payload + k) (by unfold Nat.isValidChar; omega)
  have hfirst : (64 * payload + k) / 64 % 32 = payload := by omega
  have hlast : (64 * payload + k) % 64 = k := by omega
  rw [String.utf8EncodeChar, hval, if_neg (by omega), if_pos (by omega), hfirst, hlast]

theorem utf8EncodeChar_three {j : Nat} (hpayload : payload < 16) (hj : j < 64) (hk : k < 64)
    (hlow : 0x800 ≤ 64 * (64 * payload + j) + k)
    (hvalid : (64 * (64 * payload + j) + k).isValidChar) :
    String.utf8EncodeChar (Char.ofNat (64 * (64 * payload + j) + k)) =
      [UInt8.ofNat (payload + 0xe0), UInt8.ofNat (j + 0x80), UInt8.ofNat (k + 0x80)] := by
  have hfirst : (64 * (64 * payload + j) + k) / 4096 % 16 = payload := by omega
  have hsecond : (64 * (64 * payload + j) + k) / 64 % 64 = j := by omega
  have hlast : (64 * (64 * payload + j) + k) % 64 = k := by omega
  rw [String.utf8EncodeChar, val_ofNat hvalid, if_neg (by omega), if_neg (by omega),
    if_pos (by omega), hfirst, hsecond, hlast]

theorem utf8EncodeChar_four {i j : Nat} (hi : i < 64) (hj : j < 64) (hk : k < 64)
    (hlow : 0x10000 ≤ 64 * (64 * (64 * payload + i) + j) + k)
    (hhigh : 64 * (64 * (64 * payload + i) + j) + k < 0x110000) :
    String.utf8EncodeChar (Char.ofNat (64 * (64 * (64 * payload + i) + j) + k)) =
      [UInt8.ofNat (payload + 0xf0), UInt8.ofNat (i + 0x80), UInt8.ofNat (j + 0x80),
        UInt8.ofNat (k + 0x80)] := by
  have hval := val_ofNat (n := 64 * (64 * (64 * payload + i) + j) + k)
    (by unfold Nat.isValidChar; omega)
  have hfirst : (64 * (64 * (64 * payload + i) + j) + k) / 262144 % 8 = payload := by omega
  have hsecond : (64 * (64 * (64 * payload + i) + j) + k) / 4096 % 64 = i := by omega
  have hthird : (64 * (64 * (64 * payload + i) + j) + k) / 64 % 64 = j := by omega
  have hlast : (64 * (64 * (64 * payload + i) + j) + k) % 64 = k := by omega
  rw [String.utf8EncodeChar, hval, if_neg (by omega), if_neg (by omega), if_neg (by omega),
    hfirst, hsecond, hthird, hlast]

/-! ## What a step takes -/

theorem eq_ofNat_of_continuation? (h : continuation? byte = some k) :
    k < 64 ∧ byte = UInt8.ofNat (k + 0x80) := by
  rw [continuation?] at h
  split at h
  · next hbyte =>
    obtain ⟨hlow, hhigh⟩ := hbyte
    rw [UInt8.le_iff_toNat_le] at hlow hhigh
    have hlow : 0x80 ≤ byte.toNat := hlow
    have hhigh : byte.toNat ≤ 0xbf := hhigh
    obtain rfl := Option.some.inj h
    refine ⟨by omega, ?_⟩
    rw [Nat.sub_add_cancel hlow, UInt8.ofNat_toNat]
  · contradiction

theorem exists_of_finish (h : finish payload b = .character c next) :
    ∃ k < 64, b = UInt8.ofNat (k + 0x80) :: next ∧ c = Char.ofNat (64 * payload + k) := by
  cases b with
  | nil => contradiction
  | cons byte rest =>
    rw [finish] at h
    split at h
    · next k hk =>
      obtain ⟨hlt, rfl⟩ := eq_ofNat_of_continuation? hk
      cases h
      exact ⟨k, hlt, rfl, rfl⟩
    · contradiction

theorem exists_of_bounded? {result : Nat → Front} {stuck : Front}
    (h : (match bounded? low high byte with
      | some k => result k
      | none => stuck) = .character c next) (hstuck : stuck ≠ .character c next) :
    ∃ k < 64, low ≤ k ∧ k ≤ high ∧ byte = UInt8.ofNat (k + 0x80) ∧
      result k = .character c next := by
  split at h
  · next k hk =>
    obtain ⟨hcontinuation, hbounds⟩ := Option.filter_eq_some_iff.1 hk
    obtain ⟨hlt, rfl⟩ := eq_ofNat_of_continuation? hcontinuation
    simp only [decide_eq_true_eq] at hbounds
    exact ⟨k, hlt, hbounds.1, hbounds.2, rfl, h⟩
  · exact absurd h hstuck

theorem exists_of_finishTwo (h : finishTwo payload low high b = .character c next) :
    ∃ j < 64, low ≤ j ∧ j ≤ high ∧ ∃ k < 64,
      b = UInt8.ofNat (j + 0x80) :: UInt8.ofNat (k + 0x80) :: next ∧
        c = Char.ofNat (64 * (64 * payload + j) + k) := by
  cases b with
  | nil => contradiction
  | cons byte rest =>
    rw [finishTwo] at h
    obtain ⟨j, hj, hlow, hhigh, rfl, hfinish⟩ := exists_of_bounded? h (by simp)
    obtain ⟨k, hk, rfl, rfl⟩ := exists_of_finish hfinish
    exact ⟨j, hj, hlow, hhigh, k, hk, rfl, rfl⟩

theorem exists_of_finishThree (h : finishThree payload low high b = .character c next) :
    ∃ i < 64, low ≤ i ∧ i ≤ high ∧ ∃ j < 64, ∃ k < 64,
      b = UInt8.ofNat (i + 0x80) :: UInt8.ofNat (j + 0x80) :: UInt8.ofNat (k + 0x80) :: next ∧
        c = Char.ofNat (64 * (64 * (64 * payload + i) + j) + k) := by
  cases b with
  | nil => contradiction
  | cons byte rest =>
    rw [finishThree] at h
    obtain ⟨i, hi, hlow, hhigh, rfl, hfinish⟩ := exists_of_bounded? h (by simp)
    obtain ⟨j, hj, -, -, k, hk, rfl, rfl⟩ := exists_of_finishTwo hfinish
    exact ⟨i, hi, hlow, hhigh, j, hj, k, hk, rfl, rfl⟩

/-- A character of three bytes, if the bounds of the second one keep out longer forms than needed
and halves of pairs. -/
theorem eq_append_of_finishTwo (h : finishTwo payload low high rest = .character c next)
    (hpayload : payload < 16) (hlow : 32 ≤ 64 * payload + low)
    (hvalid : 64 * payload + high < 864 ∨ 896 ≤ 64 * payload) :
    UInt8.ofNat (payload + 0xe0) :: rest = String.utf8EncodeChar c ++ next := by
  obtain ⟨j, hj, hlow', hhigh, k, hk, rfl, rfl⟩ := exists_of_finishTwo h
  rw [utf8EncodeChar_three hpayload hj hk (by omega) (by unfold Nat.isValidChar; omega)]
  rfl

/-- A character of four bytes, if the bounds of the second one keep out longer forms than needed and
numbers beyond the last character. -/
theorem eq_append_of_finishThree (h : finishThree payload low high rest = .character c next)
    (hlow : 16 ≤ 64 * payload + low) (hhigh : 64 * payload + high < 272) :
    UInt8.ofNat (payload + 0xf0) :: rest = String.utf8EncodeChar c ++ next := by
  obtain ⟨i, hi, hlow', hhigh', j, hj, k, hk, rfl, rfl⟩ := exists_of_finishThree h
  rw [utf8EncodeChar_four hi hj hk (by omega) (by omega)]
  rfl

/-- **The bytes that are taken for a character** are those that it is written with. -/
theorem eq_append_of_step (h : step first rest = .character c next) :
    first :: rest = String.utf8EncodeChar c ++ next := by
  obtain ⟨n, hn⟩ : ∃ n, first.toNat = n := ⟨_, rfl⟩
  have hfirst (p : Nat) (hp : n = p) : first = UInt8.ofNat p := by
    rw [← hp, ← hn, UInt8.ofNat_toNat]
  simp only [step, hn] at h
  -- one case for each range of first bytes, with the bounds of the byte behind it
  repeat' split at h
  · cases h
    rw [utf8EncodeChar_one ‹_›, hfirst n rfl]
    rfl
  · contradiction
  · obtain ⟨k, hk, rfl, rfl⟩ := exists_of_finish h
    rw [utf8EncodeChar_two (by omega) (by omega) hk, Nat.sub_add_cancel (by omega), hfirst n rfl]
    rfl
  · rw [hfirst (0 + 0xe0) (by omega)]
    exact eq_append_of_finishTwo h (by omega) (by omega) (by omega)
  · rw [hfirst (0xd + 0xe0) (by omega)]
    exact eq_append_of_finishTwo h (by omega) (by omega) (by omega)
  · rw [hfirst (n - 0xe0 + 0xe0) (by omega)]
    exact eq_append_of_finishTwo h (by omega) (by omega) (by omega)
  · rw [hfirst (0 + 0xf0) (by omega)]
    exact eq_append_of_finishThree h (by omega) (by omega)
  · rw [hfirst (n - 0xf0 + 0xf0) (by omega)]
    exact eq_append_of_finishThree h (by omega) (by omega)
  · rw [hfirst (4 + 0xf0) (by omega)]
    exact eq_append_of_finishThree h (by omega) (by omega)
  · contradiction

theorem suffix_finish (payload : Nat) (b : Bytes) : (finish payload b).rest <:+ b := by
  cases b with
  | nil => exact List.suffix_refl _
  | cons byte rest =>
    rw [finish]
    split
    · exact List.suffix_cons _ _
    · exact List.suffix_refl _

theorem suffix_finishTwo (payload low high : Nat) (b : Bytes) :
    (finishTwo payload low high b).rest <:+ b := by
  cases b with
  | nil => exact List.suffix_refl _
  | cons byte rest =>
    rw [finishTwo]
    split
    · exact (suffix_finish _ rest).trans (List.suffix_cons _ _)
    · exact List.suffix_refl _

theorem suffix_finishThree (payload low high : Nat) (b : Bytes) :
    (finishThree payload low high b).rest <:+ b := by
  cases b with
  | nil => exact List.suffix_refl _
  | cons byte rest =>
    rw [finishThree]
    split
    · exact (suffix_finishTwo _ _ _ rest).trans (List.suffix_cons _ _)
    · exact List.suffix_refl _

/-- **What a step leaves** stands at the end of the bytes, behind the first one at least. -/
theorem suffix_step (first : UInt8) (rest : Bytes) : (step first rest).rest <:+ rest := by
  simp only [step]
  repeat' split
  all_goals
    simp [suffix_finish, suffix_finishTwo, suffix_finishThree]

/-! ## Reading part by part -/

/-- **Bytes are read part by part**: as characters, each from the bytes that it is written with, and
as replacements of the other parts. -/
inductive Reads : Bytes → List Char → Prop
  | nil : Reads [] []
  | character {b : Bytes} {cs : List Char} (c : Char) (h : Reads b cs) :
      Reads (String.utf8EncodeChar c ++ b) (c :: cs)
  | broken {b : Bytes} {cs : List Char} (part : Bytes) (hpart : part ≠ []) (h : Reads b cs) :
      Reads (part ++ b) (replacement :: cs)

theorem exists_reads_lossyFrom (read : List Char) (b : Bytes) :
    ∃ cs, lossyFrom read b = read.reverse ++ cs ∧ Reads b cs := by
  -- what was read stands in front, and the step decides about what comes next
  fun_induction lossyFrom read b with
  | case1 read => exact ⟨[], (List.append_nil _).symm, .nil⟩
  | case2 read first rest c next hstep hle ih =>
    obtain ⟨cs, hcs, hreads⟩ := ih
    refine ⟨c :: cs, by simp [hcs], ?_⟩
    rw [eq_append_of_step hstep]
    exact .character c hreads
  | case3 read first rest next hstep hle ih =>
    obtain ⟨cs, hcs, hreads⟩ := ih
    obtain ⟨part, hpart⟩ := suffix_step first rest
    rw [hstep, Front.rest_broken] at hpart
    refine ⟨replacement :: cs, by simp [hcs], ?_⟩
    rw [← hpart]
    exact .broken (first :: part) (List.cons_ne_nil _ _) hreads

/-- **Lossy reading** goes part by part. -/
theorem reads_lossy (b : Bytes) : Reads b (lossy b).toList := by
  obtain ⟨cs, hcs, hreads⟩ := exists_reads_lossyFrom [] b
  rwa [lossy, String.toList_ofList, hcs]

/-- Where nothing is replaced, all bytes belong to characters. -/
theorem Reads.eq_flatMap_or_mem {cs : List Char} (h : Reads b cs) :
    cs.flatMap String.utf8EncodeChar = b ∨ replacement ∈ cs := by
  induction h with
  | nil => exact .inl rfl
  | character c h ih =>
    exact ih.imp (fun hbytes => by rw [List.flatMap_cons, hbytes]) (List.mem_cons_of_mem _)
  | broken part hpart h ih => exact .inr List.mem_cons_self

/-- Characters that replace nothing stand in the bytes. -/
theorem Reads.mem_of_mem {cs : List Char} (h : Reads b cs) (hc : c ∈ cs)
    (hne : c ≠ replacement) : ∀ byte ∈ String.utf8EncodeChar c, byte ∈ b := by
  induction h with
  | nil => contradiction
  | character d h ih =>
    intro byte hbyte
    rcases List.mem_cons.1 hc with rfl | hrest
    · exact List.mem_append_left _ hbyte
    · exact List.mem_append_right _ (ih hrest byte hbyte)
  | broken part hpart h ih =>
    intro byte hbyte
    exact List.mem_append_right _ (ih ((List.mem_cons.1 hc).resolve_left hne) byte hbyte)

/-- **What is read from bytes is written with these bytes**, unless some part is replaced. -/
theorem bytes_lossy_or_mem (b : Bytes) : bytes (lossy b) = b ∨ replacement ∈ (lossy b).toList := by
  rw [bytes_eq_flatMap]
  exact (reads_lossy b).eq_flatMap_or_mem

/-- **Bytes that are no text** are not those of the text that they are read as. -/
theorem text?_eq_none_iff : text? b = none ↔ bytes (lossy b) ≠ b := by
  constructor
  · intro hnone hb
    rw [← hb, text?_bytes] at hnone
    contradiction
  · intro hb
    cases htext : text? b with
    | none => rfl
    | some s =>
      -- a text is read from its bytes
      obtain rfl := bytes_of_text?_eq_some htext
      rw [lossy_bytes] at hb
      exact absurd rfl hb

/-- Something is replaced in bytes that are no text. -/
theorem replacement_mem_lossy (h : text? b = none) : replacement ∈ (lossy b).toList :=
  (bytes_lossy_or_mem b).resolve_left (text?_eq_none_iff.1 h)

end Parcel.Utf8
