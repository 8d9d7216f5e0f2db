import Parcel.Text.Utf8

/-!
# Reading the bytes of a text

The characters of a text follow each other in its bytes, each written as up to four of them, and
reading finds them one by one. So lossy reading, which takes any bytes, gives a text back from its
bytes, and replaces nothing.

## Main results

* `exists_step_utf8EncodeChar`: the first character is found in front of any bytes
* `lossy_bytes`: a text is read from its bytes
* `le_of_mem_bytes`: lower bounds of characters are those of bytes
* `forall_ne_zero`: only the zero character is written with a zero byte
-/

namespace Parcel.Utf8

variable {n k low high : Nat} {rest : Bytes}

/-! ## One character -/

theorem continuation?_ofNat (hk : k < 64) : continuation? (UInt8.ofNat (k + 0x80)) = some k := by
  have hbyte : (UInt8.ofNat (k + 0x80)).toNat = k + 0x80 :=
    UInt8.toNat_ofNat_of_lt' (show _ < 256 by omega)
  rw [continuation?, if_pos, hbyte]
  · simp
  · rw [UInt8.le_iff_toNat_le, UInt8.le_iff_toNat_le, hbyte]
    exact ⟨by simp, by simp; omega⟩

theorem bounded?_ofNat (hk : k < 64) (hlow : low ≤ k) (hhigh : k ≤ high) :
    bounded? low high (UInt8.ofNat (k + 0x80)) = some k := by
  rw [bounded?, continuation?_ofNat hk]
  simp [hlow, hhigh]

theorem finish_ofNat (hk : k < 64) :
    finish n (UInt8.ofNat (k + 0x80) :: rest) = .character (Char.ofNat (64 * n + k)) rest := by
  rw [finish, continuation?_ofNat hk]

theorem finishTwo_ofNat (hk : k < 64) (hlow : low ≤ k) (hhigh : k ≤ high) :
    finishTwo n low high (UInt8.ofNat (k + 0x80) :: rest) = finish (64 * n + k) rest := by
  rw [finishTwo, bounded?_ofNat hk hlow hhigh]

theorem finishThree_ofNat (hk : k < 64) (hlow : low ≤ k) (hhigh : k ≤ high) :
    finishThree n low high (UInt8.ofNat (k + 0x80) :: rest) =
      finishTwo (64 * n + k) 0 63 rest := by
  rw [finishThree, bounded?_ofNat hk hlow hhigh]

theorem step_one (hn : n < 0x80) : step (UInt8.ofNat n) rest = .character (Char.ofNat n) rest := by
  have hfirst : (UInt8.ofNat n).toNat = n :=
    UInt8.toNat_ofNat_of_lt' (show _ < 256 by omega)
  simp only [step, hfirst, if_pos hn]

theorem step_two (hlow : 0x80 ≤ n) (hhigh : n < 0x800) :
    step (UInt8.ofNat (n / 64 + 0xc0)) (UInt8.ofNat (n % 64 + 0x80) :: rest) =
      .character (Char.ofNat n) rest := by
  have hfirst : (UInt8.ofNat (n / 64 + 0xc0)).toNat = n / 64 + 0xc0 :=
    UInt8.toNat_ofNat_of_lt' (show _ < 256 by omega)
  simp only [step, hfirst]
  rw [if_neg (by omega), if_neg (by omega), if_pos (by omega), finish_ofNat (by omega),
    Nat.add_sub_cancel, Nat.div_add_mod]

theorem step_three (hlow : 0x800 ≤ n) (hhigh : n < 0x10000) (hscalar : n < 0xd800 ∨ 0xdfff < n) :
    step (UInt8.ofNat (n / 4096 + 0xe0))
      (UInt8.ofNat (n / 64 % 64 + 0x80) :: UInt8.ofNat (n % 64 + 0x80) :: rest) =
      .character (Char.ofNat n) rest := by
  have hfirst : (UInt8.ofNat (n / 4096 + 0xe0)).toNat = n / 4096 + 0xe0 :=
    UInt8.toNat_ofNat_of_lt' (show _ < 256 by omega)
  have hfinish (m : Nat) (hm : m = n / 4096) : finish (64 * m + n / 64 % 64)
      (UInt8.ofNat (n % 64 + 0x80) :: rest) = .character (Char.ofNat n) rest := by
    rw [finish_ofNat (by omega)]
    congr 2
    omega
  simp only [step, hfirst]
  rw [if_neg (by omega), if_neg (by omega), if_neg (by omega)]
  -- after the first bytes `e0` and `ed` the second one has bounds of its own
  split
  · rw [finishTwo_ofNat (by omega) (by omega) (by omega), hfinish 0 (by omega)]
  · split
    · rw [finishTwo_ofNat (by omega) (by omega) (by omega), hfinish 0xd (by omega)]
    · rw [if_pos (by omega), finishTwo_ofNat (by omega) (by omega) (by omega), hfinish _ (by omega)]

theorem step_four (hlow : 0x10000 ≤ n) (hhigh : n < 0x110000) :
    step (UInt8.ofNat (n / 262144 + 0xf0)) (UInt8.ofNat (n / 4096 % 64 + 0x80) ::
      UInt8.ofNat (n / 64 % 64 + 0x80) :: UInt8.ofNat (n % 64 + 0x80) :: rest) =
      .character (Char.ofNat n) rest := by
  have hfirst : (UInt8.ofNat (n / 262144 + 0xf0)).toNat = n / 262144 + 0xf0 :=
    UInt8.toNat_ofNat_of_lt' (show _ < 256 by omega)
  have hfinish (m : Nat) (hm : m = n / 262144) : finishTwo (64 * m + n / 4096 % 64) 0 63
      (UInt8.ofNat (n / 64 % 64 + 0x80) :: UInt8.ofNat (n % 64 + 0x80) :: rest) =
      .character (Char.ofNat n) rest := by
    rw [finishTwo_ofNat (by omega) (by omega) (by omega), finish_ofNat (by omega)]
    congr 2
    omega
  simp only [step, hfirst]
  rw [if_neg (by omega), if_neg (by omega), if_neg (by omega), if_neg (by omega),
    if_neg (by omega), if_neg (by omega)]
  -- after the first bytes `f0` and `f4` the second one has bounds of its own
  split
  · rw [finishThree_ofNat (by omega) (by omega) (by omega), hfinish 0 (by omega)]
  · split
    · rw [finishThree_ofNat (by omega) (by omega) (by omega), hfinish _ (by omega)]
    · rw [if_pos (by omega), finishThree_ofNat (by omega) (by omega) (by omega),
        hfinish 4 (by omega)]

/-- **The first character** is found in front of any bytes. -/
theorem exists_step_utf8EncodeChar (c : Char) (rest : Bytes) : ∃ first behind,
    String.utf8EncodeChar c = first :: behind ∧
      step first (behind ++ rest) = .character c rest := by
  have hvalid : c.toNat < 0xd800 ∨ 0xdfff < c.toNat ∧ c.toNat < 0x110000 := c.valid
  have hc : Char.ofNat c.toNat = c := Char.ofNat_toNat c
  have hval : c.val.toNat = c.toNat := rfl
  rw [String.utf8EncodeChar, hval]
  -- one case for each number of bytes
  split
  · refine ⟨_, _, rfl, ?_⟩
    rw [List.nil_append, step_one (by omega), hc]
  · split
    · refine ⟨_, _, rfl, ?_⟩
      rw [Nat.mod_eq_of_lt (by omega), List.singleton_append, step_two (by omega) (by omega), hc]
    · split
      · refine ⟨_, _, rfl, ?_⟩
        rw [Nat.mod_eq_of_lt (a := c.toNat / 4096) (by omega), List.cons_append,
          List.singleton_append, step_three (by omega) (by omega) (by omega), hc]
      · refine ⟨_, _, rfl, ?_⟩
        rw [Nat.mod_eq_of_lt (a := c.toNat / 262144) (by omega), List.cons_append,
          List.cons_append, List.singleton_append, step_four (by omega) (by omega), hc]

/-! ## Whole texts -/

theorem bytes_eq_flatMap (s : String) : bytes s = s.toList.flatMap String.utf8EncodeChar := by
  rw [bytes, ← String.utf8Encode_toList, List.utf8Encode, List.data_toByteArray,
    List.toList_toArray]

theorem lossyFrom_of_step {read : List Char} {first : UInt8} {c : Char} {next : Bytes}
    (hstep : step first rest = .character c next) :
    lossyFrom read (first :: rest) = lossyFrom (c :: read) next := by
  rw [lossyFrom]
  split
  · next hother =>
    rw [hstep] at hother
    cases hother
    rfl
  · next hother => simp [hstep] at hother

theorem lossyFrom_flatMap (read cs : List Char) :
    lossyFrom read (cs.flatMap String.utf8EncodeChar) = read.reverse ++ cs := by
  -- what was read is kept in reverse, in front of what is still to come
  induction cs generalizing read with
  | nil => simp [lossyFrom]
  | cons c cs ih =>
    obtain ⟨first, behind, hencode, hstep⟩ :=
      exists_step_utf8EncodeChar c (cs.flatMap String.utf8EncodeChar)
    rw [List.flatMap_cons, hencode, List.cons_append, lossyFrom_of_step hstep, ih]
    simp

/-- **A text is read from its bytes**, and nothing in it is replaced. -/
theorem lossy_bytes (s : String) : lossy (bytes s) = s := by
  rw [lossy, bytes_eq_flatMap, lossyFrom_flatMap, List.reverse_nil, List.nil_append,
    String.ofList_toList]

/-! ## Least bytes -/

theorem le_toNat_ofNat (hk : k ≤ n) (hn : n < 256) : k ≤ (UInt8.ofNat n).toNat := by
  rwa [UInt8.toNat_ofNat_of_lt' hn]

/-- A lower bound within ASCII that a character keeps is kept by its bytes. -/
theorem le_of_mem_utf8EncodeChar {c : Char} (hk : k ≤ 0x80) (hc : k ≤ c.toNat) :
    ∀ byte ∈ String.utf8EncodeChar c, k ≤ byte.toNat := by
  have hval : c.val.toNat = c.toNat := rfl
  rw [String.utf8EncodeChar, hval]
  split
  · simp only [List.forall_mem_cons, List.not_mem_nil, false_implies, implies_true, and_true]
    exact le_toNat_ofNat hc (by omega)
  · split
    · simp only [List.forall_mem_cons, List.not_mem_nil, false_implies, implies_true, and_true]
      exact ⟨le_toNat_ofNat (by omega) (by omega), le_toNat_ofNat (by omega) (by omega)⟩
    · split
      · simp only [List.forall_mem_cons, List.not_mem_nil, false_implies, implies_true, and_true]
        exact ⟨le_toNat_ofNat (by omega) (by omega), le_toNat_ofNat (by omega) (by omega),
          le_toNat_ofNat (by omega) (by omega)⟩
      · simp only [List.forall_mem_cons, List.not_mem_nil, false_implies, implies_true, and_true]
        exact ⟨le_toNat_ofNat (by omega) (by omega), le_toNat_ofNat (by omega) (by omega),
          le_toNat_ofNat (by omega) (by omega), le_toNat_ofNat (by omega) (by omega)⟩

/-- **A lower bound within ASCII** that all characters of a text keep is kept by its bytes. -/
theorem le_of_mem_bytes {s : String} (hk : k ≤ 0x80) (hs : ∀ c ∈ s.toList, k ≤ c.toNat) :
    ∀ byte ∈ bytes s, k ≤ byte.toNat := by
  intro byte hmem
  rw [bytes_eq_flatMap] at hmem
  obtain ⟨c, hc, hbyte⟩ := List.mem_flatMap.1 hmem
  exact le_of_mem_utf8EncodeChar hk (hs c hc) byte hbyte

/-- **Only the zero character** is written with a zero byte. -/
theorem forall_ne_zero {s : String} (hs : ∀ c ∈ s.toList, 0 < c.toNat) :
    ∀ byte ∈ bytes s, byte ≠ 0 := by
  intro byte hmem hzero
  have hpos : 1 ≤ byte.toNat := le_of_mem_bytes (by decide) hs byte hmem
  rw [hzero] at hpos
  contradiction

end Parcel.Utf8
