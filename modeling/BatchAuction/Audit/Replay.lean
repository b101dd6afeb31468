import BatchAuction.Audit.Log
import BatchAuction.Auction.Error
import BatchAuction.Payout.Report

/-!
# Replaying the audit log

`Replay.ofEvents` rebuilds from a list of events what an auction has made public: its phase, its
caps, its book with every bid, its payout totals, and the clearing point. It knows nothing but the
events, so an event has to say all that it changed. A bid is recorded again at the time of its
event, and has to get the handle that the event names; a bid that is refunded or paid has to be
active.
-/

namespace BatchAuction

/-- What an event says about a commitment. -/
@[ext]
structure ClearedPoint where
  /-- The committed tick. -/
  tick : Tick
  /-- Its price. -/
  price : Price
  /-- Whether a cap binds there. -/
  priceFound : Bool
  /-- The base offered above the tick. -/
  baseAbove : Amount
  /-- The scarce demanded above the tick. -/
  scarceAbove : Amount
deriving DecidableEq, Repr

/-- What events tell about an auction. -/
@[ext]
structure Replay where
  /-- The phase. -/
  phase : Phase
  /-- The caps, once they are fixed. -/
  caps : Option Caps
  /-- All bids. -/
  book : Book
  /-- What has been paid. -/
  totals : PayoutTotals
  /-- The clearing point, once it is committed. -/
  cleared : Option ClearedPoint
deriving DecidableEq

/-- Why events cannot have happened. -/
inductive ReplayError
  /-- A bid gets another handle than its event names. -/
  | misnumbered (named recorded : BidRef)
  /-- A bid that is refunded or paid cannot be closed. -/
  | book (error : BookError)
  /-- The payout totals overflow. -/
  | arithmetic (error : ArithmeticError)
deriving DecidableEq, Repr

namespace Replay

/-- Before the first event. -/
def empty : Replay := ⟨.notStarted, none, .empty, .zero, none⟩

/-- Closes the bid of a handle. -/
def close (r : Replay) (bid : BidRef) : Except ReplayError Replay := do
  let closed ← (r.book.withdraw bid).mapError .book
  return { r with book := closed.2 }

/-- Adds a payout to the totals. -/
def pay (r : Replay) (amounts : BidAmounts) : Except ReplayError Replay :=
  match r.totals.record amounts with
  | (.error e, _) => .error (.arithmetic e)
  | (.ok (), totals) => .ok { r with totals }

/-- What one more event tells. -/
def apply (r : Replay) (event : Event) : Except ReplayError Replay :=
  match event.payload with
  | .auctionStarted caps => .ok { r with phase := .bidding, caps := some caps }
  | .bidSubmitted bid depositor amount =>
    let recorded := r.book.record bid.tick depositor amount event.timestamp
    if recorded.1 = bid then .ok { r with book := recorded.2 }
    else .error (.misnumbered bid recorded.1)
  | .losingBidRefunded bid _ _ _ => r.close bid
  | .auctionFinalized tick price priceFound baseAbove scarceAbove =>
    .ok { r with
      phase := .finalized, cleared := some ⟨tick, price, priceFound, baseAbove, scarceAbove⟩ }
  | .bidSettled bid _ amounts => do
    let r ← r.close bid
    r.pay amounts

/-- What some events tell, from the first one on. -/
def ofEvents (events : List Event) : Except ReplayError Replay := events.foldlM apply empty

end Replay

end BatchAuction
