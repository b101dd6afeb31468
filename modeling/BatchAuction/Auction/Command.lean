import BatchAuction.Auction.Bidding
import BatchAuction.Auction.Settling

/-!
# Runs of an auction

A `Command` is one call of an operation that may change an auction, with its arguments;
`Auction.step` performs it and answers a `Response`. A run is a list of commands, and the states
that runs reach from a new auction are the reachable ones.
-/

namespace BatchAuction

/-- A call of an operation that may change an auction. -/
inductive Command
  /-- Fix the caps and open bidding. -/
  | start (base scarce : Amount)
  /-- Place a bid. -/
  | submitBid (depositor : Account) (tick : Tick) (amount : Amount)
  /-- Return the deposits of losing bids. -/
  | refundLosingBids (refs : List BidRef)
  /-- Commit the clearing point and end bidding. -/
  | finalize
  /-- Pay bids of an account. -/
  | settle (owner : Account) (refs : List BidRef)
  /-- Set the time. -/
  | setTime (now : Timestamp)
  /-- Advance the time. -/
  | advanceTime (millis : Int)
deriving DecidableEq, Repr

/-- The answer to a command. -/
inductive Response
  /-- It was done, and there is nothing to tell. -/
  | done
  /-- A bid was placed. -/
  | recorded (ref : BidRef)
  /-- Bids were closed. -/
  | reported (report : PayoutReport)
  /-- The clearing point was committed. -/
  | committed (commitment : Commitment)
  /-- The auction refused. -/
  | refused (error : AuctionError)
  /-- The time would leave its range. -/
  | timeOverflow
deriving DecidableEq, Repr

/-- The response to a result. -/
def Response.ofResult {α : Type} (answer : α → Response) : Except AuctionError α → Response
  | .ok a => answer a
  | .error e => .refused e

namespace Auction

variable {L : Type} [AssetLedger L]

/-- Performs a command. -/
def step (a : Auction L) : Command → Response × Auction L
  | .start base scarce =>
    let (result, a) := a.start base scarce
    (.ofResult (fun _ => .done) result, a)
  | .submitBid depositor tick amount =>
    let (result, a) := a.submitBid depositor tick amount
    (.ofResult .recorded result, a)
  | .refundLosingBids refs =>
    let (result, a) := a.refundLosingBids refs
    (.ofResult .reported result, a)
  | .finalize =>
    let (result, a) := a.finalize
    (.ofResult .committed result, a)
  | .settle owner refs =>
    let (result, a) := a.settle owner refs
    (.ofResult .reported result, a)
  | .setTime now => (.done, a.setTime now)
  | .advanceTime millis =>
    match a.advanceTime? millis with
    | some a => (.done, a)
    | none => (.timeOverflow, a)

/-- Performs commands in order; answers the responses in order and the last state. -/
def run (a : Auction L) : List Command → List Response × Auction L
  | [] => ([], a)
  | c :: commands =>
    let (response, a) := a.step c
    let (responses, a) := run a commands
    (response :: responses, a)

/-- The state after some commands. -/
def after (a : Auction L) (commands : List Command) : Auction L := (a.run commands).2

/-- A state that some run reaches from a new auction with a valid configuration. -/
def Reachable (a : Auction L) : Prop :=
  ∃ config ledger commands, config.validate = .ok () ∧ a = (create config ledger).after commands

end Auction

end BatchAuction
