import BatchAuction.Book.Bucket
import BatchAuction.Tick.Price

/-!
# Caps and bucket totals

`Caps` are the two supply limits of an auction. `Bucket.totals` adds up what the active bids of one
bucket offer and what they ask for at a price, each bid's demand rounded down on its own.
-/

namespace BatchAuction

/-- Why a computation with prices has no answer. -/
inductive PricingError
  /-- A tick has no price. -/
  | tick (error : TickError)
  /-- The arithmetic refuses. -/
  | arithmetic (error : ArithmeticError)
deriving DecidableEq, Repr

/-- The wording of a pricing error. -/
def PricingError.message : PricingError → String
  | .tick error => error.message
  | .arithmetic error => error.message

/-- The two supply limits. -/
@[ext]
structure Caps where
  /-- The most base the auction may keep. -/
  base : Amount
  /-- The most scarce the auction may hand out. -/
  scarce : Amount
deriving DecidableEq, Repr

/-- Sums of base offered and of scarce demanded. -/
@[ext]
structure Totals where
  /-- The base offered. -/
  base : Amount
  /-- The scarce demanded. -/
  scarce : Amount
deriving DecidableEq, Repr

namespace Totals

/-- Nothing offered and nothing demanded. -/
def zero : Totals := ⟨0, 0⟩

/-- Adds one bid's offer, and its demand at a price. -/
def addBid (t : Totals) (amount : Amount) (price : Price) : Except ArithmeticError Totals := do
  let base ← t.base.add amount
  let demand ← amount.scarceAt price
  let scarce ← t.scarce.add demand
  return ⟨base, scarce⟩

/-- Adds two totals. -/
def add (t u : Totals) : Except ArithmeticError Totals := do
  let base ← t.base.add u.base
  let scarce ← t.scarce.add u.scarce
  return ⟨base, scarce⟩

/-- One of the two totals reaches its cap. -/
def Reaches (t : Totals) (caps : Caps) : Prop := caps.base ≤ t.base ∨ caps.scarce ≤ t.scarce

instance (t : Totals) (caps : Caps) : Decidable (t.Reaches caps) :=
  inferInstanceAs (Decidable (_ ∨ _))

end Totals

/-- What the active bids of a bucket offer, and what they demand at a price. -/
def Bucket.totals (b : Bucket) (price : Price) : Except ArithmeticError Totals :=
  b.active.foldlM (fun totals bid => totals.addBid bid.amount price) .zero

end BatchAuction
