import BatchAuction.Book.Basic
import BatchAuction.Clearing.Fill

/-!
# Upside above the clearing tick

A bid above the clearing tick is owed what it asked for at its own tick. Its upside is what the same
amount would buy beyond that at the clearing price. `Surplus` says who gets upside: ticks above
`floor` get all of it, `floor` gets the fraction `fill`, and ticks below get none.
`Surplus.allocate` hands a given room out from the highest tick down.
-/

namespace BatchAuction

/-- The scarce that an amount buys at the clearing price beyond what it buys at its own price. -/
def Amount.upside (amount : Amount) (own clearing : Price) : Except ArithmeticError Amount := do
  let atClearing ← amount.scarceAt clearing
  let atOwn ← amount.scarceAt own
  return atClearing - atOwn

/-- Who gets upside. -/
@[ext]
structure Surplus where
  /-- The lowest tick that may get upside. -/
  floor : Tick
  /-- The fraction of its upside that the floor gets. -/
  fill : FillRatio
deriving DecidableEq, Repr

namespace Surplus

/-- Every tick above a clearing tick gets all its upside. -/
def unlimited (clearingTick : Tick) : Surplus := ⟨clearingTick, .full⟩

/-- The upside of all active bids of a bucket. -/
def wanted (bucket : Bucket) (own clearing : Price) : Except ArithmeticError Amount :=
  bucket.active.foldlM (fun total bid => do total.add (← bid.amount.upside own clearing)) 0

/-- Hands `room` out over buckets in the given order, and stops at the first bucket whose upside
does not fit or that does not lie above the clearing tick. -/
def ofBuckets (clearingTick : Tick) (clearingPrice : Price) :
    Amount → List (Tick × Bucket) → Except PricingError Surplus
  | _, [] => .ok (.unlimited clearingTick)
  | room, (tick, bucket) :: rest =>
    if tick ≤ clearingTick then .ok (.unlimited clearingTick)
    else do
      let own ← tick.price.mapError .tick
      let upside ← (wanted bucket own clearingPrice).mapError .arithmetic
      if upside ≤ room then ofBuckets clearingTick clearingPrice (room.subMod upside) rest
      else return ⟨tick, ⟨room, upside⟩⟩

/-- Hands `room` out over the active buckets of a book, from the highest tick down. -/
def allocate (book : Book) (clearingTick : Tick) (clearingPrice : Price) (room : Amount) :
    Except PricingError Surplus :=
  ofBuckets clearingTick clearingPrice room book.activeDescending

/-- The part of its upside that a bid at a tick gets. -/
def share (s : Surplus) (tick : Tick) (upside : Amount) : Except ArithmeticError Amount :=
  if s.floor < tick then .ok upside
  else if tick = s.floor then s.fill.apply upside
  else .ok 0

end Surplus

end BatchAuction
