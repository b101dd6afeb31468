import BatchAuction.Auction.Command
import BatchAuction.Encoding.Event
import BatchAuction.Ledger.Memory
import BatchAuction.Tick.Nearest
import BatchAuction.Tick.PriceText

/-!
# A guided tour of the auction

Five scenarios run an auction from start to payout over a ledger of balances and tell what happens
line by line: a bid that exactly fills a cap, a ladder of prices, a book that no cap binds, the
refund of a losing bid, and the audit log. `Simulation.report` is the whole text for a given time of
the last scenario.
-/

namespace BatchAuction

namespace Simulation

/-- Why a scenario cannot go on. -/
inductive Failure
  /-- The auction refuses an operation. -/
  | auction (error : AuctionError)
  /-- The configuration is not valid. -/
  | config (error : ConfigError)
  /-- A price has no tick. -/
  | tick (error : TickError)
  /-- A price is negative. -/
  | negativePrice
  /-- The time leaves its range. -/
  | timeOverflow
deriving DecidableEq, Repr

/-- The wording of a failure. -/
def Failure.message : Failure → String
  | .auction error => error.message
  | .config error => error.message
  | .tick error => error.message
  | .negativePrice => "price must be non-negative"
  | .timeOverflow => "time out of range"

/-- An auction over a ledger of balances. -/
abbrev Market := Auction MemoryLedger

/-- A scenario in progress: it may fail, it has a market, and it has told some lines. -/
abbrev Scenario := StateT (Market × List String) (Except Failure)

namespace Scenario

/-- Tells a line. -/
def tell (line : String) : Scenario Unit :=
  modify fun (market, lines) => (market, line :: lines)

/-- The market. -/
def market : Scenario Market := do return (← get).1

/-- Answers a result that needs no change of the market, or fails. -/
def ask {α : Type} (result : Except AuctionError α) : Scenario α :=
  match result with
  | .ok a => pure a
  | .error e => throw (.auction e)

/-- Performs an operation and keeps the market after it. -/
def act {α : Type} (operation : Market → Except AuctionError α × Market) : Scenario α := do
  let (market, lines) ← get
  let (result, market) := operation market
  set (market, lines)
  ask result

/-- Moves the time of the market forward. -/
def advanceTime (millis : Int) : Scenario Unit := do
  let (market, lines) ← get
  match market.advanceTime? millis with
  | some market => set (market, lines)
  | none => throw .timeOverflow

/-- The lines of a scenario that begins with a market. -/
def lines (scenario : Scenario Unit) (market : Market) : Except Failure (List String) := do
  let (_, _, lines) ← scenario.run (market, [])
  return lines.reverse

end Scenario

open Scenario

/-- The decimal number of some digits and places; zero if they are out of range. -/
def price (coefficient : Nat) (places : Nat) : Decimal :=
  (Decimal.ofInt? coefficient places).getD .zero

/-- The tick nearest to a decimal price. -/
def tickAt (price : Decimal) : Except Failure Tick :=
  match Amount.ofDecimal? price with
  | none => .error .negativePrice
  | some raw =>
    match Price.nearestTick ⟨raw⟩ with
    | .error e => .error (.tick e)
    | .ok tick => .ok tick

/-- The account of a small number. -/
def account (n : Fin 1000) : Account := ⟨n.val, by omega⟩

/-- A ledger in which the first accounts hold some whole units of base each. -/
def fundedLedger (accounts : List Account) (each : Nat) : MemoryLedger :=
  accounts.foldl (fun ledger account => ledger.withBalance account .base (.units each)) .empty

/-- A market with the standard configuration and some funded accounts. -/
def fundedMarket (accounts : List Account) (each : Nat) : Market :=
  Auction.withLedger (fundedLedger accounts each)

/-- The written price of a tick; nothing if it has none. -/
def priceText (tick : Tick) : String :=
  match tick.price with
  | .ok price => toString price
  | .error _ => ""

/-- Tells where the caps bind. -/
def tellClearing (r : ClearingResult) : Scenario Unit :=
  match r.clearingTick, r.priceFound with
  | some tick, true =>
    tell (s!"  Clearing tick {tick} (price " ++ priceText tick ++ "), base above " ++
      toString r.baseAbove ++ ", scarce above " ++ toString r.scarceAbove)
  | _, _ =>
    tell ("  Underfunded: no cap binds. base raised " ++ toString r.baseAbove ++
      ", scarce demanded " ++ toString r.scarceAbove)

/-- Tells what each bid was paid. -/
def tellReport (who : String) (report : PayoutReport) : Scenario Unit :=
  report.payouts.forM fun p =>
    tell (s!"  {who} " ++ toString p.bid ++ ": scarce " ++ toString p.amounts.filledScarce ++
      ", cost " ++ toString p.amounts.baseCost ++ ", refund " ++ toString p.amounts.baseRefund)

/-! ## Scenarios -/

/-- One bid at parity whose size equals the scarce cap. -/
def exactFill : Scenario Unit := do
  let alice := account 1
  tell "Scenario 1: Bid Exactly Fills The Cap"
  tell ""
  act (Auction.start · (.units 1000) (.units 100))
  let bid ← act (Auction.submitBid · alice .zero (.units 100))
  tell "  Alice bids 100 at parity"
  tellClearing (← ask (← market).clearing)
  let _ ← act Auction.finalize
  let report ← act (Auction.settle · alice [bid])
  tellReport "Alice" report
  let held := AssetLedger.balance (← market).ledger alice .scarce
  tell ("  Alice now holds " ++ toString held ++ " " ++ Asset.scarce.symbol)
  tell ""

/-- The bidders of the price ladder and what they offer for one unit. -/
def ladder : List (Account × Decimal) :=
  [(account 1, price 25 2), (account 2, price 5 1), (account 3, price 1 0),
   (account 4, price 2 0), (account 5, price 3 0), (account 6, price 4 0)]

/-- Six equal bids from 0.25 to 4. The scarce cap binds at the bottom of the ladder. -/
def priceLadder : Scenario Unit := do
  tell "Scenario 2: Price Ladder"
  tell ""
  act (Auction.start · (.units 200000) (.units 100))
  let mut bids := []
  for (who, price) in ladder do
    let tick ← tickAt price
    let bid ← act (Auction.submitBid · who tick (.units 20))
    bids := (who, bid) :: bids
    tell ("  " ++ toString who ++ " bids 20 at price " ++ toString price ++ " (tick " ++
      toString tick ++ ")")
  tellClearing (← ask (← market).clearing)
  let commitment ← act Auction.finalize
  tell ("  Fill at clearing tick: " ++ toString (commitment.fill.decimal?.getD .zero))
  tell ("  Scarce owed in total: " ++ toString (← ask (← market).scarceFilled))
  for (who, bid) in bids do
    let report ← act (Auction.settle · who [bid])
    tellReport (toString who) report
  let last ← market
  tell ("  Distributed " ++ toString last.scarceDistributed ++ " of cap " ++
    toString (Amount.units 100) ++ ", retained " ++ toString last.baseRetained ++
    " base, escrow left " ++ toString last.escrowBalance)
  tell ""

/-- The demand never reaches a cap, and everyone is filled at the lowest price bid. -/
def underfunded : Scenario Unit := do
  let alice := account 1
  let bob := account 2
  tell "Scenario 3: Underfunded Auction"
  tell ""
  act (Auction.start · (.units 1000) (.units 1000))
  let double ← tickAt (price 2 0)
  let first ← act (Auction.submitBid · alice double (.units 10))
  let second ← act (Auction.submitBid · bob .zero (.units 10))
  tellClearing (← ask (← market).clearing)
  let commitment ← act Auction.finalize
  tell ("  Committed lowest bid tick " ++ toString commitment.tick ++ " at price " ++
    toString commitment.price)
  tellReport "Alice" (← act (Auction.settle · alice [first]))
  tellReport "Bob" (← act (Auction.settle · bob [second]))
  tell ""

/-- A bid below the clearing tick gets its deposit back while bids are still accepted. -/
def losingBidRefund : Scenario Unit := do
  let whale := account 1
  let minnow := account 2
  tell "Scenario 4: Refund Losing Bid While Open"
  tell ""
  act (Auction.start · (.units 10000) (.units 100))
  let double ← tickAt (price 2 0)
  let half ← tickAt (price 5 1)
  let _ ← act (Auction.submitBid · whale double (.units 400))
  let low ← act (Auction.submitBid · minnow half (.units 50))
  let before ← ask (← market).clearing
  tellClearing before
  let report ← act (Auction.refundLosingBids · [low])
  tell ("  Refunded " ++ toString report.totalBaseRefund ++ " base to minnow")
  let same := (← ask (← market).clearing) = before
  tell ("  Clearing unchanged: " ++ if same then "true" else "false")
  match ((← market).refundLosingBids [⟨double, 0⟩]).1 with
  | .error e => tell ("  Refund of the winning bid rejected: " ++ e.message)
  | .ok _ => tell "  Winning bid was refunded, this should not happen"
  tell ""

/-- The last events of a short auction in their JSON form. -/
def auditLog : Scenario Unit := do
  let alice := account 1
  tell "Scenario 5: Audit Log"
  tell ""
  act (Auction.start · (.units 5) (.units 5))
  advanceTime 1000
  let bid ← act (Auction.submitBid · alice .zero (.units 10))
  advanceTime 1000
  let _ ← act Auction.finalize
  let _ ← act (Auction.settle · alice [bid])
  for event in (← market).log.recent 4 do
    tell ("  " ++ Json.textOf event)

/-- The market of the last scenario, with a small event window and a given time. -/
def auditMarket (now : Timestamp) : Except Failure Market :=
  match Auction.new .compact (fundedLedger [account 1] 10) with
  | .error e => .error (.config e)
  | .ok market => .ok (market.setTime now)

/-- All lines, for a given time of the last scenario. -/
def report (now : Timestamp) : Except Failure (List String) := do
  let first ← exactFill.lines (fundedMarket [account 1] 100)
  let second ← priceLadder.lines (fundedMarket (ladder.map Prod.fst) 20)
  let third ← underfunded.lines (fundedMarket [account 1, account 2] 10)
  let fourth ← losingBidRefund.lines (fundedMarket [account 1, account 2] 500)
  let fifth ← auditLog.lines (← auditMarket now)
  let title :=
    ["Dual-Cap Batch Auction Simulation", "Uniform Clearing Price, Base Cap + Scarce Cap"]
  return title ++ [""] ++ first ++ second ++ third ++ fourth ++ fifth ++
    ["", "All simulations completed successfully."]

end Simulation

end BatchAuction
