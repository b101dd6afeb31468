import BatchAuction.Auction.Lifecycle

/-!
# Placing bids

`Auction.submitBid` moves the amount of a bid into escrow and records the bid. A bid is refused
before any money moves if its tick is not legal or if the base offered or the scarce demanded by all
bids ever placed would pass `Amount.maxTotal`.
-/

namespace BatchAuction

namespace Auction

variable {L : Type}

/-- The intake with one more bid. -/
def intakeAfter (a : Auction L) (amount : Amount) (price : Price) : Except AuctionError Totals :=
  if Amount.maxTotal < amount then .error (.amountTooLarge amount Amount.maxTotal)
  else do
    let intake ← (a.intake.addBid amount price).mapError .arithmetic
    if Amount.maxTotal < intake.base ∨ Amount.maxTotal < intake.scarce then
      .error (.amountTooLarge amount Amount.maxTotal)
    else return intake

/-- Everything about a bid that can be refused before money moves; answers the intake with it. -/
def checkBid (a : Auction L) (tick : Tick) (amount : Amount) : Except AuctionError Totals := do
  a.requirePhase .submitBid .bidding .notOpen
  if amount = 0 then .error .invalidAmount
  else do
    let price ← tick.price.mapError .domain
    a.intakeAfter amount price

/-- Takes the amount of a bid into escrow and records the bid. -/
def submitBid [AssetLedger L] (a : Auction L) (depositor : Account) (tick : Tick)
    (amount : Amount) : Except AuctionError BidRef × Auction L :=
  match a.checkBid tick amount with
  | .error e => (.error e, a)
  | .ok intake =>
    match AssetLedger.transfer a.ledger depositor a.config.escrow .base amount with
    | (.error e, ledger) => (.error (.ledger e), { a with ledger })
    | (.ok (), ledger) =>
      let recorded := a.book.record tick depositor amount a.now
      (.ok recorded.1,
        { a with ledger, intake, book := recorded.2 }.emit
          (.bidSubmitted recorded.1 depositor amount))

end Auction

end BatchAuction
