import BatchAuction.Payout.Amounts

/-!
# Audit events

Every change of an auction leaves an event: the auction was opened, a bid was placed, a losing bid
got its deposit back, the clearing point was committed, or a bid was paid. Events are numbered from
one and carry the time of the auction.
-/

namespace BatchAuction

/-- What happened. -/
inductive EventPayload
  /-- Bidding was opened under some caps. -/
  | auctionStarted (caps : Caps)
  /-- A bid was placed. -/
  | bidSubmitted (bid : BidRef) (depositor : Account) (amount : Amount)
  /-- A losing bid got its deposit back, by the clearing tick of that moment. -/
  | losingBidRefunded (bid : BidRef) (depositor : Account) (amount : Amount) (clearingTick : Tick)
  /-- The clearing point was committed. -/
  | auctionFinalized (clearingTick : Tick) (clearingPrice : Price) (priceFound : Bool)
      (baseAbove scarceAbove : Amount)
  /-- A bid was paid. -/
  | bidSettled (bid : BidRef) (withdrawFor : Account) (amounts : BidAmounts)
deriving DecidableEq, Repr

/-- A numbered entry of the audit log. -/
@[ext]
structure Event where
  /-- The number. -/
  id : Nat
  /-- The time of the auction. -/
  timestamp : Timestamp
  /-- What happened. -/
  payload : EventPayload
deriving DecidableEq, Repr

end BatchAuction
