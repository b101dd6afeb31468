import BatchAuction.Clearing.Scan
import BatchAuction.Clearing.Upside

/-!
# The committed clearing point

`Commitment` is everything that payouts depend on besides the bid: the clearing tick and its price,
the fill of the clearing bucket and the split of the upside above it. `Book.commitment` computes it
from the book and the caps. An underfunded book clears at its lowest active tick with that bucket
filled in full.
-/

namespace BatchAuction

/-- A frozen clearing point. -/
@[ext]
structure Commitment where
  /-- The clearing tick. -/
  tick : Tick
  /-- The price of the clearing tick. -/
  price : Price
  /-- Whether a cap binds; otherwise the lowest active tick was taken. -/
  priceFound : Bool
  /-- The base offered strictly above the clearing tick. -/
  baseAbove : Amount
  /-- The scarce demanded strictly above the clearing tick. -/
  scarceAbove : Amount
  /-- The totals of the clearing bucket. -/
  bucket : Totals
  /-- The fill of the clearing bucket. -/
  fill : FillRatio
  /-- The split of the upside above the clearing tick. -/
  surplus : Surplus
deriving DecidableEq, Repr

namespace Commitment

/-- The scarce left when all bids above have their own demand and the clearing bucket its fill. -/
def surplusRoom (caps : Caps) (scarceAbove clearingFilled : Amount) : Amount :=
  caps.scarce - scarceAbove - clearingFilled

end Commitment

/-- The bucket at which an auction clears. -/
structure ClearingPoint where
  /-- Its tick. -/
  tick : Tick
  /-- Whether a cap binds there. -/
  priceFound : Bool
  /-- The totals strictly above it. -/
  above : Totals
  /-- Its own totals. -/
  bucket : Totals
deriving DecidableEq, Repr

namespace Book

/-- The totals of the bucket of a tick, valued at that tick. -/
def totalsAt (b : Book) (tick : Tick) : Except PricingError Totals :=
  match b.bucket? tick with
  | none => .ok .zero
  | some bucket => do
    let price ← tick.price.mapError .tick
    (bucket.totals price).mapError .arithmetic

/-- The bucket that a scan has found, or else the lowest active one; none in a book without active
bids. -/
def clearingPoint? (b : Book) (scan : ClearingScan) : Except PricingError (Option ClearingPoint) :=
  match scan.result.clearingTick, scan.bucket with
  | some tick, some bucket =>
    .ok (some ⟨tick, true, ⟨scan.result.baseAbove, scan.result.scarceAbove⟩, bucket⟩)
  | _, _ =>
    match b.lowestActiveTick? with
    | none => .ok none
    | some tick => do
      let bucket ← b.totalsAt tick
      return some ⟨tick, false,
        ⟨scan.result.baseAbove - bucket.base, scan.result.scarceAbove - bucket.scarce⟩, bucket⟩

/-- The commitment at a clearing point. -/
def commitmentAt (b : Book) (caps : Caps) (point : ClearingPoint) :
    Except PricingError Commitment := do
  let price ← point.tick.price.mapError .tick
  let fill ←
    if point.priceFound then (FillRatio.ofRoom caps point.above point.bucket).mapError .arithmetic
    else .ok .full
  let room :=
    Commitment.surplusRoom caps point.above.scarce (fill.filledOf point.bucket.scarce)
  let surplus ← Surplus.allocate b point.tick price room
  return ⟨point.tick, price, point.priceFound, point.above.base, point.above.scarce, point.bucket,
    fill, surplus⟩

/-- The clearing point of a book under some caps; none if the book has no active bid. -/
def commitment? (b : Book) (caps : Caps) : Except PricingError (Option Commitment) := do
  let scan ← b.scan caps
  match ← b.clearingPoint? scan with
  | none => return none
  | some point => return some (← b.commitmentAt caps point)

end Book

end BatchAuction
