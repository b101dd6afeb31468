import BatchAuction.Book.Basic
import BatchAuction.Clearing.Totals

/-!
# The clearing scan

`Book.scan` walks the active buckets from the highest tick down and adds up their totals. The first
bucket that makes a total reach its cap is the clearing bucket, and its tick the clearing tick. If
no bucket does, the book is underfunded. The scan reads the book and nothing else.
-/

namespace BatchAuction

/-- Where the caps bind. -/
@[ext]
structure ClearingResult where
  /-- Whether some bucket reaches a cap. -/
  priceFound : Bool
  /-- The tick of that bucket. -/
  clearingTick : Option Tick
  /-- The base offered strictly above the clearing tick, or everywhere if there is none. -/
  baseAbove : Amount
  /-- The scarce demanded there, each bid valued at its own tick. -/
  scarceAbove : Amount
deriving DecidableEq, Repr

namespace ClearingResult

/-- No cap binds. -/
def isUnderfunded (r : ClearingResult) : Bool := !r.priceFound

/-- A tick that lies strictly below a clearing tick has lost. -/
def Losing (r : ClearingResult) (tick : Tick) : Prop :=
  r.priceFound = true ∧ ∃ clearing ∈ r.clearingTick, tick < clearing

instance (r : ClearingResult) (tick : Tick) : Decidable (r.Losing tick) :=
  match h : r.clearingTick with
  | none => isFalse fun hl => by
      obtain ⟨_, t, ht, _⟩ := hl
      rw [h] at ht
      cases ht
  | some t =>
    if hc : r.priceFound = true ∧ tick < t then isTrue ⟨hc.1, t, h, hc.2⟩
    else isFalse fun hl => by
      obtain ⟨hp, t', ht, hlt⟩ := hl
      rw [h] at ht
      cases ht
      exact hc ⟨hp, hlt⟩

end ClearingResult

/-- A clearing result together with the totals of the clearing bucket. -/
@[ext]
structure ClearingScan where
  /-- Where the caps bind. -/
  result : ClearingResult
  /-- The totals of the clearing bucket, if there is one. -/
  bucket : Option Totals
deriving DecidableEq, Repr

namespace ClearingScan

/-- The scan ends at a bucket. -/
def found (tick : Tick) (above bucket : Totals) : ClearingScan :=
  ⟨⟨true, some tick, above.base, above.scarce⟩, some bucket⟩

/-- The scan has passed all buckets. -/
def underfunded (all : Totals) : ClearingScan :=
  ⟨⟨false, none, all.base, all.scarce⟩, none⟩

/-- Scans buckets in the given order, with the totals of those already passed. -/
def ofBuckets (caps : Caps) : Totals → List (Tick × Bucket) → Except PricingError ClearingScan
  | above, [] => .ok (.underfunded above)
  | above, (tick, bucket) :: rest => do
    let price ← tick.price.mapError .tick
    let totals ← (bucket.totals price).mapError .arithmetic
    let through ← (above.add totals).mapError .arithmetic
    if through.Reaches caps then return .found tick above totals
    else ofBuckets caps through rest

end ClearingScan

namespace Book

/-- Finds the bucket at which the book reaches a cap. -/
def scan (b : Book) (caps : Caps) : Except PricingError ClearingScan :=
  ClearingScan.ofBuckets caps .zero b.activeDescending

/-- Where the caps bind in the book. -/
def clearing (b : Book) (caps : Caps) : Except PricingError ClearingResult :=
  (b.scan caps).map ClearingScan.result

end Book

end BatchAuction
