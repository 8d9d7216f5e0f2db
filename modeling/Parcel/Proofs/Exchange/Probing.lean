import Parcel.Proofs.Exchange.Growable

/-!
# Reading from any reader

An item of unknown size is read from a reader that keeps a state of its own and may answer anything:
it may fail, report any length, put anything into the buffer, and forget or change the item between
two calls. The calls that it gets are noted next to its state, so that the whole course of a read
can be told: how often the reader is called, how large the buffers are, and what becomes of the
answers.

## Main definitions

* `ReadCall`, `noting`: a call of a reader, and a reader whose calls are noted
* `bufferAfter`: the buffer as it was left by a list of calls
* `Probed`: what is known of the calls of a read and of its result
* `Delivers`: readers that copy a fixed item when it fits, and report its true length

## Main results

* `probed_readGrowable`: the course of a read from any reader
* `Probed.eq_of_delivers`: from a reader that delivers an item, the item is read
* `any_reader_is_probed`: both, for every size of the first buffer
-/

namespace Parcel

variable {σ : Type} {state : σ} {capacity : Nat} {read : Nat → Session σ (Option Reading)}

/-! ## Calls -/

/-- **A call of a reader**, as it was made and answered. -/
structure ReadCall where
  /-- The size of the buffer that was offered. -/
  size : Nat
  answer : Except Error (Option Reading)

namespace ReadCall

/-- The length that the reader reported, if there was an item. -/
def length? (call : ReadCall) : Option Nat :=
  match call.answer with
  | .ok (some reading) => some reading.length
  | _ => none

/-- What the reader put at the front of the buffer. One that changes any other part of the buffer
puts as many bytes there as the buffer has. -/
def written (call : ReadCall) : Bytes :=
  match call.answer with
  | .ok (some reading) => reading.written
  | _ => []

/-- The buffer as the reader left it, where `buffer` is what it held before it was grown for the
call. -/
def left (buffer : Bytes) (call : ReadCall) : Bytes :=
  (buffer.grow call.size).overlay call.written

end ReadCall

/-- The buffer as it was left by calls one after the other, the first of which found it empty. -/
def bufferAfter (calls : List ReadCall) : Bytes :=
  calls.foldl ReadCall.left []

/-- **A reader whose calls are noted**, in order, next to its state. -/
def noting (read : Nat → Session σ (Option Reading)) (size : Nat) :
    Session (σ × List ReadCall) (Option Reading) :=
  ExceptT.mk fun (state, calls) =>
    let (answer, state) := (read size).outcome state
    (answer, state, calls ++ [⟨size, answer⟩])

theorem outcome_noting (read : Nat → Session σ (Option Reading)) (size : Nat) (state : σ)
    (calls : List ReadCall) :
    (noting read size).outcome (state, calls) =
      (((read size).outcome state).1, ((read size).outcome state).2,
        calls ++ [⟨size, ((read size).outcome state).1⟩]) := rfl

/-! ## The course of a read -/

/-- **What is known of a read**: its first call, its second call, if any, and its result. -/
structure Probed (capacity : Nat) (read : Nat → Session σ (Option Reading)) (first : ReadCall)
    (second : Option ReadCall) (result : Except Error (Option Bytes)) : Prop where
  /-- The first buffer has the given capacity, and at least one byte. -/
  first_size : first.size = max capacity 1
  /-- The reader is called once more exactly if it reports more than fits. -/
  second_iff : second.isSome ↔ ∃ length, first.length? = some length ∧ first.size < length
  /-- The second buffer has exactly the length that was reported. -/
  second_size : ∀ call ∈ second, first.length? = some call.size
  /-- Every answer is one that the reader gives to the buffer that was offered. -/
  answered : ∀ call ∈ first :: second.toList,
    ∃ state, call.answer = ((read call.size).outcome state).1
  /-- An error of the reader is the result. -/
  failed : ∀ call ∈ first :: second.toList, ∀ error, call.answer = .error error →
    result = .error error
  /-- An item that is not there is none. -/
  absent : first.answer = .ok none → result = .ok none
  /-- An item that is not there any more, or has another length by now, is malformed. -/
  changed : ∀ call ∈ second, ∀ found, call.answer = .ok found → call.length? ≠ first.length? →
    ∃ detail, result = .error (.malformedEncoding detail)
  /-- In all other cases the result has the length that was reported, and is the front of the buffer
  as the last call left it. -/
  delivered : ∀ length, first.length? = some length →
    (∀ call ∈ second, call.length? = some length) → ∃ bytes, result = .ok (some bytes) ∧
      bytes.length = length ∧ bytes <+: bufferAfter (first :: second.toList)

/-- A read that needs no second call. -/
theorem Probed.once {call : ReadCall} {result : Except Error (Option Bytes)}
    (hsize : call.size = max capacity 1)
    (hanswered : ∃ state, call.answer = ((read call.size).outcome state).1)
    (hfits : ∀ length, call.length? = some length → length ≤ call.size)
    (hfailed : ∀ error, call.answer = .error error → result = .error error)
    (habsent : call.answer = .ok none → result = .ok none)
    (hdelivered : ∀ length, call.length? = some length →
      result = .ok (some ((call.left []).take length))) :
    Probed capacity read call none result where
  first_size := hsize
  second_iff := by
    simp only [Option.isSome_none, Bool.false_eq_true, false_iff, not_exists, not_and, Nat.not_lt]
    exact hfits
  second_size := by simp
  answered := by simpa using hanswered
  failed := by simpa using hfailed
  absent := habsent
  changed := by simp
  delivered length hlength _ := by
    refine ⟨_, hdelivered length hlength, ?_, List.take_prefix _ _⟩
    rw [List.length_take, ReadCall.left, Bytes.length_overlay, Bytes.length_grow (Nat.zero_le _)]
    exact Nat.min_eq_left (hfits length hlength)

/-- A read that needs a second call, which finds the buffer as the first one left it. -/
theorem Probed.twice {first second : ReadCall} {result : Except Error (Option Bytes)}
    (hsize : first.size = max capacity 1)
    (hanswered : ∀ call ∈ [first, second],
      ∃ state, call.answer = ((read call.size).outcome state).1)
    (hlong : first.size < second.size) (hlength : first.length? = some second.size)
    (hfailed : ∀ error, second.answer = .error error → result = .error error)
    (hchanged : ∀ found, second.answer = .ok found → second.length? ≠ some second.size →
      ∃ detail, result = .error (.malformedEncoding detail))
    (hdelivered : second.length? = some second.size →
      result = .ok (some (bufferAfter [first, second]))) :
    Probed capacity read first (some second) result where
  first_size := hsize
  second_iff := by simp [hlength, hlong]
  second_size := by simp [hlength]
  answered := hanswered
  failed := by
    intro call hcall error herror
    rcases List.mem_cons.1 hcall with rfl | hcall
    · -- a first call that fails reports no length
      simp [ReadCall.length?, herror] at hlength
    · obtain rfl : call = second := by simpa using hcall
      exact hfailed error herror
  absent habsent := by simp [ReadCall.length?, habsent] at hlength
  changed := by simpa [hlength] using hchanged
  delivered length hreported hagain := by
    obtain rfl : second.size = length := by simpa [hlength] using hreported
    refine ⟨_, hdelivered (hagain second rfl), ?_, List.prefix_refl _⟩
    have hfirst : (first.left []).length = first.size := by
      rw [ReadCall.left, Bytes.length_overlay, Bytes.length_grow (Nat.zero_le _)]
    simp only [bufferAfter, List.foldl_cons, List.foldl_nil]
    rw [ReadCall.left, Bytes.length_overlay, Bytes.length_grow (hfirst ▸ Nat.le_of_lt hlong)]

/-- **The course of a read from any reader.** -/
theorem probed_readGrowable (capacity : Nat) (read : Nat → Session σ (Option Reading)) (state : σ) :
    ∃ result after first second,
      (readGrowable capacity (noting read)).outcome (state, []) =
        (result, after, first :: second.toList) ∧
      (readGrowable capacity read).outcome state = (result, after) ∧
      Probed capacity read first second result := by
  obtain ⟨size, hsize⟩ : ∃ size, max capacity 1 = size := ⟨_, rfl⟩
  simp only [readGrowable, Bytes.length_zeros, hsize, Session.outcome_bind, outcome_noting,
    List.nil_append]
  rcases hfirst : (read size).outcome state with ⟨error | _ | ⟨length, written⟩, between⟩
  · refine ⟨.error error, between, ⟨size, .error error⟩, none, rfl, rfl, ?_⟩
    refine .once hsize.symm ⟨state, by rw [hfirst]⟩ ?_ ?_ ?_ ?_ <;> simp [ReadCall.length?]
  · refine ⟨.ok none, between, ⟨size, .ok none⟩, none, rfl, rfl, ?_⟩
    refine .once hsize.symm ⟨state, by rw [hfirst]⟩ ?_ ?_ ?_ ?_ <;> simp [ReadCall.length?]
  · simp only [Bytes.length_overlay, Bytes.length_zeros]
    by_cases hfits : length ≤ size
    · simp only [if_pos hfits]
      refine ⟨_, between, ⟨size, .ok (some ⟨length, written⟩)⟩, none, rfl, rfl, ?_⟩
      refine .once hsize.symm ⟨state, by rw [hfirst]⟩ ?_ ?_ ?_ ?_ <;>
        simp [ReadCall.length?, ReadCall.left, ReadCall.written, Bytes.grow, hfits]
    · have hlong : size < length := Nat.lt_of_not_le hfits
      -- the buffer grows to the length that was reported
      have hgrown : (((Bytes.zeros size).overlay written).grow length).length = length :=
        Bytes.length_grow (by simp only [Bytes.length_overlay, Bytes.length_zeros]; omega)
      simp only [if_neg hfits, Session.outcome_bind, outcome_noting, hgrown]
      have hanswered {answer} (h : ((read length).outcome between).1 = answer) :
          ∀ call ∈ [⟨size, .ok (some ⟨length, written⟩)⟩, ⟨length, answer⟩],
            ∃ state, ReadCall.answer call = ((read call.size).outcome state).1 := by
        simp only [List.forall_mem_cons, List.not_mem_nil, false_implies, implies_true, and_true]
        exact ⟨⟨state, by rw [hfirst]⟩, between, h.symm⟩
      rcases hsecond : (read length).outcome between with ⟨error | _ | ⟨again, rewritten⟩, after⟩
      · refine ⟨.error error, after, ⟨size, .ok (some ⟨length, written⟩)⟩,
          some ⟨length, .error error⟩, rfl, rfl, ?_⟩
        refine .twice hsize.symm (hanswered (by rw [hsecond])) hlong rfl ?_ ?_ ?_ <;>
          simp [ReadCall.length?]
      · refine ⟨_, after, ⟨size, .ok (some ⟨length, written⟩)⟩, some ⟨length, .ok none⟩, rfl, rfl,
          ?_⟩
        refine .twice hsize.symm (hanswered (by rw [hsecond])) hlong rfl ?_ ?_ ?_ <;>
          simp [ReadCall.length?]
      · by_cases hagain : again = length
        · subst hagain
          simp only [if_true]
          refine ⟨_, after, ⟨size, .ok (some ⟨again, written⟩)⟩,
            some ⟨again, .ok (some ⟨again, rewritten⟩)⟩, rfl, rfl, ?_⟩
          refine .twice hsize.symm (hanswered (by rw [hsecond])) hlong rfl ?_ ?_ ?_ <;>
            simp [ReadCall.length?, bufferAfter, ReadCall.left, ReadCall.written, Bytes.grow]
        · simp only [if_neg hagain]
          refine ⟨_, after, ⟨size, .ok (some ⟨length, written⟩)⟩,
            some ⟨length, .ok (some ⟨again, rewritten⟩)⟩, rfl, rfl, ?_⟩
          refine .twice hsize.symm (hanswered (by rw [hsecond])) hlong rfl ?_ ?_ ?_ <;>
            simp [ReadCall.length?, hagain]

/-! ## Readers of a fixed item -/

/-- **Readers that deliver an item**, whatever their state is: they report its true length, and copy
it to the front of the buffer when it fits. What they do to the rest of the buffer, or to one that
is too small, is left open. -/
def Delivers (read : Nat → Session σ (Option Reading)) (item : Bytes) : Prop :=
  ∀ size state, ∃ reading, ((read size).outcome state).1 = .ok (some reading) ∧
    reading.length = item.length ∧ (item.length ≤ size → item <+: reading.written)

/-- What was written stands at the front of the buffer, as far as the buffer reaches. -/
theorem prefix_left {call : ReadCall} {buffer item : Bytes} (hbuffer : buffer.length ≤ call.size)
    (hfits : item.length ≤ call.size) (hwritten : item <+: call.written) :
    item <+: call.left buffer := by
  rw [ReadCall.left, Bytes.overlay, Bytes.length_grow hbuffer]
  exact (List.prefix_take_iff.2 ⟨hwritten, hfits⟩).trans (List.prefix_append _ _)

/-- **From a reader that delivers an item, the item is read.** -/
theorem Probed.eq_of_delivers {first : ReadCall} {second : Option ReadCall}
    {result : Except Error (Option Bytes)} {item : Bytes}
    (h : Probed capacity read first second result) (hread : Delivers read item) :
    result = .ok (some item) := by
  have hcall : ∀ call ∈ first :: second.toList, call.length? = some item.length ∧
      (item.length ≤ call.size → item <+: call.written) := by
    intro call hmem
    obtain ⟨state, hanswer⟩ := h.answered call hmem
    obtain ⟨reading, hreading, hlength, hwritten⟩ := hread call.size state
    rw [hreading] at hanswer
    simpa [ReadCall.length?, ReadCall.written, hanswer, hlength] using hwritten
  obtain ⟨hfirst, hfits⟩ := hcall first List.mem_cons_self
  obtain ⟨bytes, rfl, hlength, hbytes⟩ := h.delivered item.length hfirst fun call hmem =>
    (hcall call (List.mem_cons_of_mem _ (Option.mem_toList.2 hmem))).1
  -- the item stands at the front of the buffer too, and is as long as what was taken off it
  suffices hitem : item <+: bufferAfter (first :: second.toList) by
    have hfront := List.prefix_of_prefix_length_le hbytes hitem (Nat.le_of_eq hlength)
    rw [hfront.eq_of_length hlength]
  cases second with
  | none =>
    have hsize : item.length ≤ first.size := by
      have := h.second_iff
      simpa [hfirst] using this
    exact prefix_left (Nat.zero_le _) hsize (hfits hsize)
  | some call =>
    obtain ⟨-, hagain⟩ := hcall call (by simp)
    have hsize : call.size = item.length := by simpa [hfirst, eq_comm] using h.second_size call rfl
    have hlong : first.size < item.length := by
      have := h.second_iff
      simpa [hfirst] using this
    refine prefix_left ?_ (Nat.le_of_eq hsize.symm) (hagain (Nat.le_of_eq hsize.symm))
    rw [ReadCall.left, Bytes.length_overlay, Bytes.length_grow (Nat.zero_le _), hsize]
    exact Nat.le_of_lt hlong

/-- **Reading from any reader.** Whatever a reader answers, it is called once with a buffer of
`capacity` bytes, and at least one, and exactly if it reports more than that, once more with a
buffer of exactly the length that it reported. An error of the reader ends the read and is its
result; an item that is not there gives none; one that has vanished or changed its length between
the calls is malformed; and in all other cases the result has the length that was reported first,
and is the front of the buffer as the reader left it in the end. That the calls are noted makes no
difference to the read. A reader that delivers an item is read as this item, with any capacity. -/
theorem any_reader_is_probed (capacity : Nat) (read : Nat → Session σ (Option Reading))
    (state : σ) : ∃ result after first second,
      (readGrowable capacity (noting read)).outcome (state, []) =
        (result, after, first :: second.toList) ∧
      (readGrowable capacity read).outcome state = (result, after) ∧
      Probed capacity read first second result ∧
      ∀ item, Delivers read item → result = .ok (some item) := by
  obtain ⟨result, after, first, second, hnoted, hread, hprobed⟩ :=
    probed_readGrowable capacity read state
  exact ⟨result, after, first, second, hnoted, hread, hprobed, fun item => hprobed.eq_of_delivers⟩

/-- A reader that scribbles into a buffer that is too small, and counts how often it is called. -/
theorem any_reader_is_probed_scribbling :
    let read : Nat → Session Nat (Option Reading) := fun size => do
      modifyThe Nat (· + 1)
      return some ⟨3, if 3 ≤ size then [7, 8, 9, 10] else [0xff]⟩
    Delivers read [7, 8, 9] ∧ (readGrowable 0 read).outcome 0 = (.ok (some [7, 8, 9]), 2) := by
  intro read
  have hdelivers : Delivers read [7, 8, 9] := by
    intro size state
    refine ⟨_, rfl, rfl, fun hfits => ?_⟩
    have hfits : 3 ≤ size := hfits
    simp only [if_pos hfits]
    decide
  obtain ⟨result, after, first, second, -, hread, -, hitem⟩ := any_reader_is_probed 0 read 0
  obtain rfl := hitem _ hdelivers
  have hafter : ((readGrowable 0 read).outcome 0).2 = 2 := rfl
  rw [hread] at hafter
  exact ⟨hdelivers, hread.trans (congrArg (Prod.mk _) hafter)⟩

end Parcel
