import Parcel.Exchange

/-!
# Holders that keep a record

## Main definitions

* `Recording`: a holder that notes every request before it passes it on
-/

namespace Parcel

/-- A holder with the requests it was asked, in order. -/
structure Recording (σ : Type) where
  inner : σ
  requests : List Request

namespace Recording

variable {σ : Type} [Holder σ]

/-- The answer of the holder inside; the request is noted whatever the answer is. -/
def perform (request : Request) (r : Recording σ) : Except Error request.Reply × Recording σ :=
  let (reply, inner) := Holder.perform request r.inner
  (reply, ⟨inner, r.requests ++ [request]⟩)

instance : Holder (Recording σ) where
  perform := perform
  argLimit h r := Holder.argLimit h r.inner

end Recording

end Parcel
