import BatchAuction.Book.Basic
import BatchAuction.Clearing.Totals
import BatchAuction.Ledger.Basic

/-!
# Auction errors

The phases of an auction and the reasons why it refuses an operation.
-/

namespace BatchAuction

/-- How far an auction has come. -/
inductive Phase
  /-- The caps are not fixed yet. -/
  | notStarted
  /-- Bids are accepted. -/
  | bidding
  /-- The clearing point is committed. -/
  | finalized
deriving DecidableEq, Repr

/-- The written name of a phase. -/
def Phase.name : Phase → String
  | .notStarted => "NotStarted"
  | .bidding => "Open"
  | .finalized => "Finalized"

instance : ToString Phase := ⟨Phase.name⟩

/-- Operations that a phase may forbid. -/
inductive Operation
  /-- Fixing the caps. -/
  | start
  /-- Placing a bid. -/
  | submitBid
  /-- Returning the deposits of losing bids. -/
  | refund
  /-- Looking for the clearing tick. -/
  | computeClearing
  /-- Committing the clearing point. -/
  | finalize
  /-- Adding up what bids are owed. -/
  | readFills
  /-- Paying bids. -/
  | settle
deriving DecidableEq, Repr

/-- The written name of an operation. -/
def Operation.name : Operation → String
  | .start => "start"
  | .submitBid => "submit bid"
  | .refund => "refund losing bids"
  | .computeClearing => "compute clearing"
  | .finalize => "finalize"
  | .readFills => "read fills"
  | .settle => "settle"

instance : ToString Operation := ⟨Operation.name⟩

/-- What the present phase lacks for an operation. -/
inductive Obstacle
  /-- The caps are fixed already. -/
  | alreadyStarted
  /-- The caps are not fixed yet. -/
  | notStarted
  /-- No bids are accepted. -/
  | notOpen
  /-- The clearing point is not committed. -/
  | notFinalized
  /-- No bid is active. -/
  | noBids
  /-- There are no payout totals. -/
  | totalsMissing
deriving DecidableEq, Repr

/-- The wording of an obstacle. -/
def Obstacle.message : Obstacle → String
  | .alreadyStarted => "auction already started"
  | .notStarted => "auction has not started"
  | .notOpen => "auction is not open"
  | .notFinalized => "auction is not finalized"
  | .noBids => "no bids to clear"
  | .totalsMissing => "settlement totals missing"

instance : ToString Obstacle := ⟨Obstacle.message⟩

/-- Why an auction refuses an operation. -/
inductive AuctionError
  /-- The phase forbids it. -/
  | invalidState (operation : Operation) (phase : Phase) (obstacle : Obstacle)
  /-- An amount is zero. -/
  | invalidAmount
  /-- An amount is too large by itself or together with the bids before it. -/
  | amountTooLarge (amount limit : Amount)
  /-- A tick has no price. -/
  | domain (error : TickError)
  /-- The bid is closed already. -/
  | alreadyWithdrawn (bid : BidRef)
  /-- The bid may still win. -/
  | bidStillBinding (bid : BidRef) (clearingTick : Option Tick)
  /-- There is no such bid. -/
  | bidNotFound (bid : BidRef)
  /-- The bid belongs to another account. -/
  | notBidOwner (bid : BidRef) (owner requested : Account)
  /-- A bid is listed twice. -/
  | duplicateBidRef (bid : BidRef)
  /-- The arithmetic refuses. -/
  | arithmetic (error : ArithmeticError)
  /-- The ledger refuses. -/
  | ledger (error : LedgerError)
deriving DecidableEq, Repr

namespace AuctionError

/-- A pricing error as an auction error. -/
def ofPricing : PricingError → AuctionError
  | .tick error => .domain error
  | .arithmetic error => .arithmetic error

/-- A book error as an auction error. -/
def ofBook : BookError → AuctionError
  | .notFound ref => .bidNotFound ref
  | .alreadyWithdrawn ref => .alreadyWithdrawn ref

/-- The phase forbids the operation. -/
def isInvalidState : AuctionError → Bool
  | .invalidState .. => true
  | _ => false

/-- The written form of an optional tick in an error text. -/
def tickText : Option Tick → String
  | some tick => s!"Some(Tick({tick}))"
  | none => "None"

/-- The wording of an auction error. -/
def message : AuctionError → String
  | .invalidState operation phase obstacle =>
    s!"cannot {operation} while auction is {phase}: {obstacle}"
  | .invalidAmount => "amount must be positive"
  | .amountTooLarge amount limit => s!"{amount} would take the book or a cap past {limit}"
  | .domain error => "domain error: " ++ error.message
  | .alreadyWithdrawn bid => s!"{bid} already withdrawn"
  | .bidStillBinding bid clearingTick =>
    s!"{bid} is not strictly below the current clearing tick " ++
      "(" ++ tickText clearingTick ++ ")"
  | .bidNotFound bid => s!"{bid} not found"
  | .notBidOwner bid owner requested => s!"{bid} belongs to {owner}, not {requested}"
  | .duplicateBidRef bid => s!"{bid} listed more than once"
  | .arithmetic error => "arithmetic error: " ++ error.message
  | .ledger error => "ledger error: " ++ error.message

end AuctionError

end BatchAuction
