import Parcel.Proofs.Exchange.Put
import Parcel.Proofs.Store.Capacity
import Parcel.Proofs.Store.Dead

/-!
# Refused transfers

What an object holds is never a reason to refuse it: its metadata was checked when it was built, so
its bytes decode again, and its names are identifiers. A transfer is refused for the store and the
handle alone, and then before anything is written.

## Main definitions

* `Object.Refused`: the transfers that are refused, with the error that is reported

## Main results

* `Refused.outcome`: a refused transfer leaves the store as it was
* `exists_outcome`: all other transfers succeed
* `put_fails_iff_refused`: transfers to every store that requests can lead to
-/

namespace Parcel

open Json

namespace Object

variable {o : Object} {s s' : Store} {target : Option Handle} {error : Error}

/-- **Refused transfers** of an object to a store, with the error that is reported. -/
inductive Refused (o : Object) (s : Store) : Option Handle → Error → Prop
  /-- There is no room for another object. -/
  | full {error : Error} (hfull : s.Full error) : Refused o s none error
  /-- The handle is not live. -/
  | dead {h : Handle} (hdead : h ∉ s.liveHandles) : Refused o s (some h) (.handleNotFound h)
  /-- A command does not go under the handle of data. -/
  | mismatch {h : Handle} {old : StoredObject} (hold : s.object h = .ok old)
      (hdata : old.kind = .data) (ho : o.kind = .command) :
      Refused o s (some h) (.handleMismatch h .command)

/-- **A refused transfer** reports its error and leaves the store as it was. -/
theorem Refused.outcome (hs : s.objects.WellFormed) (hsize : s.size = s.liveHandles.length)
    (h : o.Refused s target error) : (o.put target).outcome s = (.error error, s) := by
  cases h with
  | full hfull => exact put_refused ((Store.insert_eq_error_iff hs hsize).2 hfull)
  | dead hdead => exact put_dead (Store.object_of_not_mem_liveHandles hs hdead)
  | mismatch hold hdata ho => exact put_mismatch hold ho (by simp [hdata])

/-- **A transfer that is not refused** succeeds, whatever the object holds. -/
theorem exists_outcome (hs : s.objects.WellFormed) (hsize : s.size = s.liveHandles.length)
    (hp : o.payload.Lawful) (haddressable : Addressable (.object o.payload.metadata))
    (h : ∀ error, ¬ o.Refused s target error) :
    ∃ k s', (o.put target).outcome s = (.ok k, s') := by
  -- a new object needs room, and any other a live handle of a kind that fits
  cases target with
  | none =>
    cases hi : s.insert (.empty o.nameTexts) with
    | error error => exact absurd (.full ((Store.insert_eq_error_iff hs hsize).1 hi)) (h error)
    | ok found => exact ⟨_, _, put_new hs hp haddressable hi⟩
  | some k =>
    cases hold : s.object k with
    | error error =>
      refine absurd (.dead ?_) (h (.handleNotFound k))
      rw [Store.mem_liveHandles hs]
      rintro ⟨stored, hstored⟩
      simp [hold] at hstored
    | ok old =>
      refine ⟨_, _, put_live hp haddressable hold ?_⟩
      intro ho
      cases hkind : old.kind with
      | command => rfl
      | data => exact absurd (.mismatch hold hkind ho) (h _)

/-- **A transfer fails exactly when it is refused.** In any store that requests can lead to, an
object that can be built is refused if it needs a new handle and the store is full, if the given
handle is not live, or if it is a command and the handle is one of data. The store is then what it
was before. All other transfers succeed: nothing that an object holds makes its encoding, its
decoding or the check of its names fail. Lengths fit 64 bits, as in memory. -/
theorem put_fails_iff_refused {limit : Option Nat} {s₀ : Store}
    (hs : Store.ofLimit limit = .ok s₀) (requests : List Request) (ho : o.Built)
    (haddressable : Addressable (.object o.payload.metadata)) (target : Option Handle) :
    let s := (s₀.run requests).2
    (∀ error s', (o.put target).outcome s = (.error error, s') ↔
      o.Refused s target error ∧ s' = s) ∧
    ((∃ h s', (o.put target).outcome s = (.ok h, s')) ↔ ∀ error, ¬ o.Refused s target error) := by
  intro s
  have hwf : s.objects.WellFormed := (Store.sound_run hs requests).advance.wellFormed
  have hsize : s.size = s.liveHandles.length := Store.size_eq_length_liveHandles hs requests
  have hsuccess : (∀ error, ¬ o.Refused s target error) →
      ∃ h s', (o.put target).outcome s = (.ok h, s') :=
    exists_outcome hwf hsize ho.lawful haddressable
  refine ⟨fun error s' => ⟨?_, ?_⟩, ?_, hsuccess⟩
  · intro hput
    -- the outcome is that of the refusal, if there is one, and there has to be one
    by_cases hrefused : ∃ error, o.Refused s target error
    · obtain ⟨error', hrefused⟩ := hrefused
      rw [hrefused.outcome hwf hsize, Prod.mk.injEq, Except.error.injEq] at hput
      obtain ⟨rfl, rfl⟩ := hput
      exact ⟨hrefused, rfl⟩
    · obtain ⟨h, s'', hok⟩ := hsuccess (not_exists.1 hrefused)
      simp [hok] at hput
  · rintro ⟨hrefused, rfl⟩
    exact hrefused.outcome hwf hsize
  · rintro ⟨h, s', hok⟩ error hrefused
    simp [hrefused.outcome hwf hsize] at hok

/-- A command for a store that has room for one object, and holds data. -/
theorem put_fails_iff_refused_each :
    let requests : List Request := [.allocateData]
    let o : Object := .command ⟨⟨"lamp", by decide⟩, ⟨"switch", by decide⟩, .empty⟩
    ∃ s₀, Store.ofLimit (some 1) = .ok s₀ ∧ o.Built ∧
      Addressable (.object o.payload.metadata) ∧
      let s := (s₀.run requests).2
      (o.put none).outcome s = (.error (.allocationFailed "live handle limit of 1 reached"), s) ∧
        (o.put (some 7)).outcome s = (.error (.handleNotFound 7), s) ∧
        (o.put (some 1)).outcome s = (.error (.handleMismatch 1 .command), s) := by
  intro requests o
  let s := (({ Store.empty with limit := some 1 } : Store).run requests).2
  have hs : Store.ofLimit (some 1) = .ok { Store.empty with limit := some 1 } := rfl
  have ho : o.Built := .empty
  have haddressable : Addressable (.object o.payload.metadata) := by decide
  have hlimit : s.limit = some 1 := rfl
  have hfull : 1 ≤ s.liveHandles.length := by decide +kernel
  have hdead : 7 ∉ s.liveHandles := by decide +kernel
  have hold : s.object 1 = .ok (.empty none) := by
    rw [Store.object_eq_ok_iff]
    decide +kernel
  have hfails := put_fails_iff_refused hs requests ho haddressable
  exact ⟨_, hs, ho, haddressable, ((hfails none).1 _ _).2 ⟨.full (.bound hlimit hfull), rfl⟩,
    ((hfails (some 7)).1 _ _).2 ⟨.dead hdead, rfl⟩,
    ((hfails (some 1)).1 _ _).2 ⟨.mismatch hold rfl rfl, rfl⟩⟩

end Object

end Parcel
