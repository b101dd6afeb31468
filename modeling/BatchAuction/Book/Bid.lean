import BatchAuction.Account
import BatchAuction.Amount.Basic
import BatchAuction.Tick.Basic
import BatchAuction.Timestamp

/-!
# Bids

A bid offers a base amount at a tick. Callers hold a `BidRef`: the tick of the bid and its position
among the bids at that tick. A bid is active until it is closed, which happens when its deposit is
returned or when it is paid out.
-/

namespace BatchAuction

/-- The handle of a bid. -/
@[ext]
structure BidRef where
  /-- The tick of the bid. -/
  tick : Tick
  /-- The position of the bid among those at its tick. -/
  index : Nat
deriving DecidableEq, Repr

namespace BidRef

instance : ToString BidRef := ⟨fun r => s!"bid[{r.tick}:{r.index}]"⟩

/-- Handles are ordered by tick and then by position. -/
instance : LE BidRef := ⟨fun r s => r.tick < s.tick ∨ r.tick = s.tick ∧ r.index ≤ s.index⟩

instance (r s : BidRef) : Decidable (r ≤ s) := inferInstanceAs (Decidable (_ ∨ _))

end BidRef

/-- An amount of base offered at a tick. -/
@[ext]
structure Bid where
  /-- The tick it was placed at. -/
  tick : Tick
  /-- Its position among the bids at that tick. -/
  index : Nat
  /-- The account that paid it. -/
  depositor : Account
  /-- The base amount offered. -/
  amount : Amount
  /-- Whether it has been closed. -/
  withdrawn : Bool
  /-- When it was placed. -/
  submittedAt : Timestamp
deriving DecidableEq, Repr

namespace Bid

/-- The handle of a bid. -/
def ref (b : Bid) : BidRef := ⟨b.tick, b.index⟩

/-- A bid that has not been closed. -/
def isActive (b : Bid) : Bool := !b.withdrawn

/-- The bid after it has been closed. -/
def close (b : Bid) : Bid := { b with withdrawn := true }

/-- Closing leaves the handle of a bid alone. -/
@[simp] theorem ref_close (b : Bid) : b.close.ref = b.ref := rfl

/-- A bid that is closed already stays as it is. -/
theorem close_of_withdrawn {b : Bid} (h : b.withdrawn = true) : b.close = b := by
  rw [close, ← h]

end Bid

/-- The sum of the amounts of some bids, modulo `2 ^ 256`. -/
def Bid.totalAmount (bids : List Bid) : Amount :=
  Amount.sumMod (bids.map Bid.amount)

end BatchAuction
