import BatchAuction.Auction.Basic

/-!
# Opening and closing an auction

`Auction.start` fixes the caps and opens bidding; `Auction.finalize` commits the clearing point of
the book at that moment and ends bidding. An operation answers with its result and the next state;
an error leaves the state as it was. `Auction.clearing` looks for the clearing tick without
committing anything.
-/

namespace BatchAuction

namespace Auction

variable {L : Type}

/-- Refuses caps that are zero or too large; the base cap is looked at before the scarce cap. -/
def checkCaps (base scarce : Amount) : Except AuctionError Caps :=
  if base = 0 ∨ scarce = 0 then .error .invalidAmount
  else if Amount.maxTotal < base then .error (.amountTooLarge base Amount.maxTotal)
  else if Amount.maxTotal < scarce then .error (.amountTooLarge scarce Amount.maxTotal)
  else .ok ⟨base, scarce⟩

/-- The caps of an auction that can be started with them. -/
def planStart (a : Auction L) (base scarce : Amount) : Except AuctionError Caps := do
  a.requirePhase .start .notStarted .alreadyStarted
  checkCaps base scarce

/-- Fixes the caps for the lifetime of the auction and opens bidding. -/
def start (a : Auction L) (base scarce : Amount) : Except AuctionError Unit × Auction L :=
  match a.planStart base scarce with
  | .error e => (.error e, a)
  | .ok caps => (.ok (), { a with stage := a.stage.start caps }.emit (.auctionStarted caps))

/-- Where the caps bind in the present book. -/
def clearing (a : Auction L) : Except AuctionError ClearingResult := do
  let caps ← a.requireCaps .computeClearing
  (a.book.clearing caps).mapError .ofPricing

/-- The event of a commitment. -/
def finalizedEvent (c : Commitment) : EventPayload :=
  .auctionFinalized c.tick c.price c.priceFound c.baseAbove c.scarceAbove

/-- The commitment of the present book. -/
def planCommitment (a : Auction L) : Except AuctionError Commitment := do
  a.requirePhase .finalize .bidding .notOpen
  let caps ← a.requireCaps .finalize
  let commitment? ← (a.book.commitment? caps).mapError .ofPricing
  a.require commitment? .finalize .noBids

/-- Commits the clearing point of the present book and ends bidding. -/
def finalize (a : Auction L) : Except AuctionError Commitment × Auction L :=
  match a.planCommitment with
  | .error e => (.error e, a)
  | .ok c => (.ok c, { a with stage := a.stage.commit c }.emit (finalizedEvent c))

/-- The scarce owed to all bids at the committed point, paid or not. -/
def scarceFilled (a : Auction L) : Except AuctionError Amount := do
  let c ← a.requireCommitment .readFills
  (c.totalFilled a.book.bids).mapError .ofPricing

end Auction

end BatchAuction
