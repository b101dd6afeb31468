import BatchAuction.Auction.Lifecycle

/-!
# Returning and paying bids

Two operations close bids. While bids are accepted, `Auction.refundLosingBids` returns the deposits
of bids strictly below the present clearing tick. After the clearing point is committed,
`Auction.settle` pays the bids of one account. Both work on a list of handles. A *plan* looks at the
handles in order and stops at the first fault, before any money moves; then the ledger performs the
moves of the plan; then the bids are closed, with one event each. A settlement adds up its payouts
in the plan and a refund while it closes the bids.

Closing could fail when the money has moved already, for a bid that is not active or a sum that
overflows. It never does in a state that a run reaches.
-/

namespace BatchAuction

namespace Book

/-- Looks at the bids of some handles in order, and carries a value along. `seen` are the handles
before them. A handle that was seen, that has no bid or whose bid is closed is a fault. -/
def visit {σ : Type} (book : Book) (f : σ → BidRef → Bid → Except AuctionError σ)
    (seen : List BidRef) : σ → List BidRef → Except AuctionError σ
  | s, [] => .ok s
  | s, ref :: refs =>
    if ref ∈ seen then .error (.duplicateBidRef ref)
    else
      match book.get? ref with
      | none => .error (.bidNotFound ref)
      | some bid =>
        if bid.withdrawn then .error (.alreadyWithdrawn ref)
        else
          match f s ref bid with
          | .error e => .error e
          | .ok s => visit book f (ref :: seen) s refs

end Book

namespace Auction

variable {L : Type}

/-- Adds a payout to a report. -/
def addPayout (report : PayoutReport) (payout : Payout) : Except AuctionError PayoutReport :=
  match report.push payout with
  | (.error e, _) => .error (.arithmetic e)
  | (.ok (), report) => .ok report

/-- Closes the bids of some payouts in order, with an event for each, and carries a report along.
`note` takes each payout into the report. The first fault stops it, and what was done before that
stays. -/
def closeBids (note : PayoutReport → Payout → Except AuctionError PayoutReport)
    (event : Payout → EventPayload) :
    Auction L → PayoutReport → List Payout → Except AuctionError PayoutReport × Auction L
  | a, report, [] => (.ok report, a)
  | a, report, p :: payouts =>
    match a.book.withdraw p.bid with
    | .error e => (.error (.ofBook e), a)
    | .ok (_, book) =>
      match note report p with
      | .error e => (.error e, { a with book })
      | .ok report => closeBids note event ({ a with book }.emit (event p)) report payouts

/-- Performs moves; then closes the bids of some payouts. A refused move leaves everything but the
ledger as it was. -/
def execute [AssetLedger L] (a : Auction L) (moves : List Move)
    (note : PayoutReport → Payout → Except AuctionError PayoutReport)
    (event : Payout → EventPayload) (report : PayoutReport) (payouts : List Payout) :
    Except AuctionError PayoutReport × Auction L :=
  match AssetLedger.performAll a.ledger moves with
  | (.error e, ledger) => (.error (.ledger e), { a with ledger })
  | (.ok (), ledger) => closeBids note event { a with ledger } report payouts

/-! ## Losing bids -/

/-- Adds the full refund of a bid to a list of payouts, if the bid has lost. -/
def refundBid (clearing : ClearingResult) (payouts : List Payout) (ref : BidRef) (bid : Bid) :
    Except AuctionError (List Payout) :=
  if clearing.Losing bid.tick then
    .ok (payouts ++ [⟨ref, bid.depositor, .refunded bid.amount⟩])
  else .error (.bidStillBinding ref clearing.clearingTick)

/-- The refunds of some handles by the present clearing tick. -/
def planRefunds (a : Auction L) (refs : List BidRef) :
    Except AuctionError (ClearingResult × List Payout) := do
  a.requirePhase .refund .bidding .notOpen
  let clearing ← a.clearing
  let payouts ← a.book.visit (refundBid clearing) [] [] refs
  return (clearing, payouts)

/-- The moves of a refund: out of escrow and back to the depositor. -/
def refundMoves (config : Config) (p : Payout) : List Move :=
  [.debit config.escrow .base p.amounts.baseRefund,
   .credit p.depositor .base p.amounts.baseRefund]

/-- Returns the deposits of bids strictly below the present clearing tick. -/
def refundLosingBids [AssetLedger L] (a : Auction L) (refs : List BidRef) :
    Except AuctionError PayoutReport × Auction L :=
  match a.planRefunds refs with
  | .error e => (.error e, a)
  | .ok (clearing, payouts) =>
    let tick := clearing.clearingTick.getD .zero
    a.execute (payouts.flatMap (refundMoves a.config)) addPayout
      (fun p => .losingBidRefunded p.bid p.depositor p.amounts.baseRefund tick) .empty payouts

/-! ## Paying bids -/

/-- Adds the payout of a bid to a report and to the totals, if the bid belongs to the account. -/
def payBid (commitment : Commitment) (owner : Account) (s : PayoutReport × PayoutTotals)
    (ref : BidRef) (bid : Bid) : Except AuctionError (PayoutReport × PayoutTotals) :=
  if bid.depositor ≠ owner then .error (.notBidOwner ref bid.depositor owner)
  else do
    let amounts ← (commitment.amountsFor bid).mapError .ofPricing
    let totals ←
      match s.2.record amounts with
      | (.error e, _) => .error (.arithmetic e)
      | (.ok (), totals) => .ok totals
    let report ← addPayout s.1 ⟨ref, bid.depositor, amounts⟩
    return (report, totals)

/-- The payouts of some handles to an account, and the totals with them. -/
def planSettlement (a : Auction L) (owner : Account) (refs : List BidRef) :
    Except AuctionError (PayoutReport × PayoutTotals) := do
  a.requirePhase .settle .finalized .notFinalized
  let commitment ← a.requireCommitment .settle
  let paid ← a.requireTotals .settle
  a.book.visit (payBid commitment owner) [] (.empty, paid) refs

/-- A credit, unless it is zero. -/
def creditUnlessZero (account : Account) (asset : Asset) (amount : Amount) : List Move :=
  if amount = 0 then [] else [.credit account asset amount]

/-- The moves of a payout: the bid leaves escrow; the refund and the scarce go to the owner, and the
cost to the proceeds. -/
def settlementMoves (config : Config) (owner : Account) (p : Payout) : List Move :=
  .debit config.escrow .base (p.amounts.baseRefund.addMod p.amounts.baseCost) ::
    (creditUnlessZero owner .base p.amounts.baseRefund ++
      creditUnlessZero config.proceeds .base p.amounts.baseCost ++
      creditUnlessZero owner .scarce p.amounts.filledScarce)

/-- Replaces the payout totals. -/
def withPaid (a : Auction L) (paid : PayoutTotals) : Auction L :=
  { a with stage := a.stage.pay paid }

/-- Pays bids of one account: the scarce and the refund go to that account, the cost to the
proceeds. -/
def settle [AssetLedger L] (a : Auction L) (owner : Account) (refs : List BidRef) :
    Except AuctionError PayoutReport × Auction L :=
  match a.planSettlement owner refs with
  | .error e => (.error e, a)
  | .ok (report, paid) =>
    match a.execute (report.payouts.flatMap (settlementMoves a.config owner))
        (fun report _ => .ok report) (fun p => .bidSettled p.bid owner p.amounts) report
        report.payouts with
    | (.error e, a) => (.error e, a)
    | (.ok report, a) => (.ok report, a.withPaid paid)

/-- What `settle` would pay. -/
def previewSettle (a : Auction L) (owner : Account) (refs : List BidRef) :
    Except AuctionError PayoutReport :=
  (a.planSettlement owner refs).map Prod.fst

end Auction

end BatchAuction
