import Parcel.Proofs.Store.History

/-!
# Requests about handles that are not live

A handle that was never given out, was taken back, or was made up has no object, and a request about
it changes nothing. Almost every request looks for the object before anything else, so that it
reports that there is none whatever it asks for: an index or a buffer of any size, bytes that do not
decode, an argument. New names for a command are the exception, for they are checked first, and
names that are no identifiers are reported even under a handle that is not live.

## Main definitions

* `Request.deadError`: the error of a request about a handle that is not live

## Main results

* `object_of_not_mem_liveHandles`: a handle that is not live has no object
* `perform_of_dead`: what every request about it is answered
* `requests_about_dead_handles`: every handle that is not live, in every store
* `bad_names_hide_a_dead_handle`: names that are reported in place of a deleted handle
-/

namespace Parcel

/-- **The error of a request about a handle that is not live.** Names are checked before the handle,
and the interface before the operation. -/
def Request.deadError (h : Handle) : Request → Error
  | .setNames _ interface operation =>
    if isIdentifier interface = false then .invalidIdentifier interface
    else if isIdentifier operation = false then .invalidIdentifier operation
    else .handleNotFound h
  | _ => .handleNotFound h

namespace Store

variable {s : Store} {h : Handle} {request : Request}

/-- A handle that is not live has no object. -/
theorem object_of_not_mem_liveHandles (hs : s.objects.WellFormed) (hdead : h ∉ s.liveHandles) :
    s.object h = .error (.handleNotFound h) := by
  cases hget : s.objects.get? h with
  | none => simp only [object, hget]
  | some stored => exact absurd ((mem_liveHandles hs).2 ⟨stored, object_eq_ok_iff.2 hget⟩) hdead

theorem delete_of_dead (hdead : s.object h = .error (.handleNotFound h)) :
    s.delete h = .error (.handleNotFound h) := by
  cases hdelete : s.delete h with
  | error error =>
    rw [delete] at hdelete
    split at hdelete
    · contradiction
    · exact hdelete.symm
  | ok s' =>
    -- what can be deleted has an object
    obtain ⟨old, objects, hremove, -⟩ := delete_eq_ok hdelete
    have hobject := object_eq_ok_iff.2 (Table.get?_remove hremove).1
    rw [hdead] at hobject
    contradiction

theorem setNames_of_dead (hdead : s.object h = .error (.handleNotFound h))
    (interface operation : String) :
    s.setNames h interface operation =
      .error ((Request.setNames h interface operation).deadError h) := by
  simp only [setNames, checkNames, Identifier.validate, Request.deadError, hdead]
  cases isIdentifier interface <;> cases isIdentifier operation <;> rfl

/-- **A request about a handle without an object** is answered with an error, and changes
nothing. -/
theorem perform_of_dead (hdead : s.object h = .error (.handleNotFound h))
    (hrequest : request.handle? = some h) :
    s.perform request = (.error (request.deadError h), s) := by
  -- one case for each request about a handle, most of which look for its object first
  cases request with
  | allocateData => contradiction
  | allocateCommand interface operation => contradiction
  | kind k | metadata k | arg k | argCount k =>
    cases hrequest
    simp only [perform_kind, perform_metadata, perform_arg, perform_argCount, hdead]
    rfl
  | clear k =>
    cases hrequest
    rw [perform_clear, clear, hdead]
    rfl
  | setMetadata k blob =>
    cases hrequest
    rw [perform_setMetadata, setMetadata, hdead]
    rfl
  | push k arg =>
    cases hrequest
    rw [perform_push, push, hdead]
    rfl
  | names k =>
    cases hrequest
    rw [perform_names, names, hdead]
    rfl
  | setNames k interface operation =>
    cases hrequest
    rw [perform_setNames, setNames_of_dead hdead]
    rfl
  | delete k =>
    cases hrequest
    rw [perform_delete, delete_of_dead hdead]
    rfl

/-- **Requests about handles that are not live.** In every store that requests lead to, every
request about a handle that is not live changes nothing, and reports that the handle is not found,
whatever else it holds. Only new names are checked before: an interface that is no identifier is
reported in place of the handle, and so is an operation if the interface is one. -/
theorem requests_about_dead_handles {limit : Option Nat} {s₀ : Store} (hs : ofLimit limit = .ok s₀)
    (requests : List Request) :
    let s := (s₀.run requests).2
    ∀ h, h ∉ s.liveHandles →
      (∀ request : Request, request.handle? = some h →
        (∀ interface operation, request = .setNames h interface operation →
          isIdentifier interface = true ∧ isIdentifier operation = true) →
        s.perform request = (.error (.handleNotFound h), s)) ∧
      (∀ interface operation, isIdentifier interface = false →
        s.perform (.setNames h interface operation) =
          (.error (.invalidIdentifier interface), s)) ∧
      ∀ interface operation, isIdentifier interface = true → isIdentifier operation = false →
        s.perform (.setNames h interface operation) =
          (.error (.invalidIdentifier operation), s) := by
  intro s h hnotLive
  have hdead : s.object h = .error (.handleNotFound h) :=
    object_of_not_mem_liveHandles (sound_run hs requests).advance.wellFormed hnotLive
  refine ⟨fun request hrequest hnames => ?_, fun interface operation hinterface => ?_,
    fun interface operation hinterface hoperation => ?_⟩
  · have herror : request.deadError h = .handleNotFound h := by
      -- only the request for new names looks at something else before the handle
      cases request with
      | setNames k interface operation =>
        cases hrequest
        obtain ⟨hinterface, hoperation⟩ := hnames interface operation rfl
        simp [Request.deadError, hinterface, hoperation]
      | _ => rfl
    rw [perform_of_dead hdead hrequest, herror]
  · rw [perform_of_dead hdead rfl]
    simp [Request.deadError, hinterface]
  · rw [perform_of_dead hdead rfl]
    simp [Request.deadError, hinterface, hoperation]

/-- Bytes that do not decode, for a handle that was deleted and one that was never given out. -/
theorem requests_about_dead_handles_malformed :
    let s := (empty.run [.allocateData, .delete 1]).2
    s.perform (.setMetadata 1 [0xff]) = (.error (.handleNotFound 1), s) ∧
      s.perform (.setMetadata 7 [0xff]) = (.error (.handleNotFound 7), s) := by
  intro s
  have hdead := requests_about_dead_handles ofLimit_none [.allocateData, .delete 1]
  exact ⟨(hdead 1 (by decide +kernel)).1 _ rfl nofun, (hdead 7 (by decide +kernel)).1 _ rfl nofun⟩

/-- **Names that are no identifiers hide that a handle was deleted**: they are reported, and not the
handle. -/
theorem bad_names_hide_a_dead_handle :
    let s := (empty.run [.allocateCommand "lamp" "switch", .delete 1]).2
    1 ∉ s.liveHandles ∧
      (s.perform (.setNames 1 "a b" "c")).1 = .error (.invalidIdentifier "a b") ∧
      ¬∀ request : Request, request.handle? = some 1 →
        (s.perform request).1 = .error (.handleNotFound 1) := by
  intro s
  have hdead : 1 ∉ s.liveHandles := by decide +kernel
  have hobject : s.object 1 = .error (.handleNotFound 1) :=
    object_of_not_mem_liveHandles (sound_run ofLimit_none _).advance.wellFormed hdead
  have hnames : (s.perform (.setNames 1 "a b" "c")).1 = .error (.invalidIdentifier "a b") := by
    rw [perform_of_dead hobject rfl]
    rfl
  refine ⟨hdead, hnames, fun hall => ?_⟩
  have hnotFound := hall (.setNames 1 "a b" "c") rfl
  rw [hnames] at hnotFound
  exact nomatch Except.error.inj hnotFound

end Store

end Parcel
