import BatchAuction.Book.Bid
import BatchAuction.Clearing.Commitment

/-!
# What a bid is paid

`Commitment.amountsFor` splits a bid into scarce received, base returned and base kept. It depends
on the tick and the amount of the bid and on the commitment, so it does not matter who is paid
first. Below the clearing tick everything is returned. At the clearing tick the bid gets the fill of
its demand. Above it the bid gets its own demand and its share of the upside; with all its upside,
the whole amount has been converted at the clearing price.
-/

namespace BatchAuction

/-- The three parts of a payout. -/
@[ext]
structure BidAmounts where
  /-- The scarce received. -/
  filledScarce : Amount
  /-- The base returned. -/
  baseRefund : Amount
  /-- The base kept by the auction. -/
  baseCost : Amount
deriving DecidableEq, Repr

namespace BidAmounts

/-- The whole amount is returned. -/
def refunded (amount : Amount) : BidAmounts := ⟨0, amount, 0⟩

/-- The whole amount is kept against some scarce. -/
def converted (amount scarce : Amount) : BidAmounts := ⟨scarce, 0, amount⟩

end BidAmounts

namespace Commitment

/-- The payout of an amount at a tick above the clearing tick. -/
def amountsAbove (c : Commitment) (tick : Tick) (amount : Amount) :
    Except PricingError BidAmounts := do
  let own ← tick.price.mapError .tick
  let demand ← (amount.scarceAt own).mapError .arithmetic
  let upside ← (amount.upside own c.price).mapError .arithmetic
  let granted ← (c.surplus.share tick upside).mapError .arithmetic
  let filled ← (demand.add granted).mapError .arithmetic
  if granted = upside then return .converted amount filled
  else do
    let cost ← (filled.baseAt c.price).mapError .arithmetic
    return ⟨filled, amount - cost, cost⟩

/-- The payout of an amount at the clearing tick. -/
def amountsAt (c : Commitment) (amount : Amount) : Except ArithmeticError BidAmounts := do
  let demand ← amount.scarceAt c.price
  let filled ← c.fill.apply demand
  let cost ← filled.baseAt c.price
  return ⟨filled, amount.subMod cost, cost⟩

/-- The payout of a bid. -/
def amountsFor (c : Commitment) (bid : Bid) : Except PricingError BidAmounts :=
  if c.tick < bid.tick then c.amountsAbove bid.tick bid.amount
  else if bid.tick < c.tick then .ok (.refunded bid.amount)
  else (c.amountsAt bid.amount).mapError .arithmetic

/-- The scarce owed to some bids together. -/
def totalFilled (c : Commitment) (bids : List Bid) : Except PricingError Amount :=
  bids.foldlM (fun total bid => do
    (total.add (← c.amountsFor bid).filledScarce).mapError .arithmetic) 0

end Commitment

end BatchAuction
