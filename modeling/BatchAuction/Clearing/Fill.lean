import BatchAuction.Amount.Decimal
import BatchAuction.Clearing.Totals

/-!
# Fill ratios

`FillRatio` is an exact fraction: of a bucket's demand, `filled` out of `bucket` units are granted.
`FillRatio.ofRoom` finds the fraction that the room under both caps allows, and `FillRatio.apply`
takes that fraction of one demand, rounded down.
-/

namespace BatchAuction

/-- The part of a bucket's scarce demand that is granted. -/
@[ext]
structure FillRatio where
  /-- The scarce granted. -/
  filled : Amount
  /-- The scarce demanded. -/
  bucket : Amount
deriving DecidableEq, Repr

namespace FillRatio

/-- Everything is granted. -/
def full : FillRatio := ⟨1, 1⟩

/-- The largest ratio for a bucket that keeps both totals under their caps, given the totals of the
buckets above: `min (base room / bucket base) (scarce room / bucket scarce)`, at most one, in scarce
units of the bucket. -/
def ofRoom (caps : Caps) (above bucket : Totals) : Except ArithmeticError FillRatio :=
  if bucket.scarce = 0 then .ok full
  else do
    let byBase ←
      if bucket.base = 0 then .ok bucket.scarce
      else (caps.base - above.base).mulDiv bucket.scarce bucket.base
    return ⟨min bucket.scarce (min (caps.scarce - above.scarce) byBase), bucket.scarce⟩

/-- The ratio is one. -/
def IsFull (r : FillRatio) : Prop := r.bucket ≤ r.filled

instance (r : FillRatio) : Decidable r.IsFull := inferInstanceAs (Decidable (_ ≤ _))

/-- The scarce granted out of a bucket with some demand. -/
def filledOf (r : FillRatio) (demand : Amount) : Amount :=
  if r.IsFull then demand else r.filled

/-- The part of a demand that is granted, rounded down. -/
def apply (r : FillRatio) (demand : Amount) : Except ArithmeticError Amount :=
  if r.IsFull then .ok demand else demand.mulDiv r.filled r.bucket

/-- The ratio in fixed point with 18 decimals. -/
def fixed (r : FillRatio) : Except ArithmeticError Amount :=
  if r.IsFull then .ok Amount.scale else r.filled.mulDiv Amount.scale r.bucket

/-- The ratio as a decimal number, if it has one. -/
def decimal? (r : FillRatio) : Option Decimal :=
  match r.fixed with
  | .ok amount => amount.decimal?
  | .error _ => none

end FillRatio

end BatchAuction
