import BatchAuction.Payout.Amounts

/-!
# Payout reports and running totals

A `PayoutReport` lists payouts with their sums, and `PayoutTotals` keeps the two sums of an
auction's lifetime. Both grow one payout at a time. Growing also answers what is left when a sum
overflows: the sums before it have grown already.
-/

namespace BatchAuction

/-- The lifetime sums of an auction. -/
@[ext]
structure PayoutTotals where
  /-- The scarce handed out. -/
  scarceDistributed : Amount
  /-- The base kept. -/
  baseRetained : Amount
deriving DecidableEq, Repr

namespace PayoutTotals

/-- Nothing has been paid. -/
def zero : PayoutTotals := ⟨0, 0⟩

/-- Adds one payout. -/
def record (t : PayoutTotals) (amounts : BidAmounts) : Except ArithmeticError Unit × PayoutTotals :=
  match t.scarceDistributed.add amounts.filledScarce with
  | .error e => (.error e, t)
  | .ok scarce =>
    match t.baseRetained.add amounts.baseCost with
    | .error e => (.error e, { t with scarceDistributed := scarce })
    | .ok base => (.ok (), ⟨scarce, base⟩)

end PayoutTotals

/-- The payout of one bid. -/
@[ext]
structure Payout where
  /-- The bid paid. -/
  bid : BidRef
  /-- The account that placed it. -/
  depositor : Account
  /-- What was paid. -/
  amounts : BidAmounts
deriving DecidableEq, Repr

/-- Payouts with their sums. -/
@[ext]
structure PayoutReport where
  /-- The sum of the scarce received. -/
  totalFilledScarce : Amount
  /-- The sum of the base returned. -/
  totalBaseRefund : Amount
  /-- The sum of the base kept. -/
  totalBaseCost : Amount
  /-- The payouts in order. -/
  payouts : List Payout
deriving DecidableEq, Repr

namespace PayoutReport

/-- The report without payouts. -/
def empty : PayoutReport := ⟨0, 0, 0, []⟩

/-- No payout is listed. -/
def isEmpty (r : PayoutReport) : Bool := r.payouts.isEmpty

/-- Adds one payout. -/
def push (r : PayoutReport) (p : Payout) : Except ArithmeticError Unit × PayoutReport :=
  match r.totalFilledScarce.add p.amounts.filledScarce with
  | .error e => (.error e, r)
  | .ok filled =>
    match r.totalBaseRefund.add p.amounts.baseRefund with
    | .error e => (.error e, { r with totalFilledScarce := filled })
    | .ok refund =>
      match r.totalBaseCost.add p.amounts.baseCost with
      | .error e => (.error e, { r with totalFilledScarce := filled, totalBaseRefund := refund })
      | .ok cost => (.ok (), ⟨filled, refund, cost, r.payouts ++ [p]⟩)

end PayoutReport

end BatchAuction
