import BatchAuction.Tick.Price

/-!
# The tick nearest to a price

`Price.nearestTick` finds the legal tick whose price is closest to a given one, the lower of two at
equal distance. It halves the legal range until it meets the price or until the two ends have
crossed; then the ends are the neighbours of the price, and the nearer one is the answer. Prices
beyond the ladder get its ends.
-/

namespace BatchAuction

namespace Price

/-- The midpoint of a range of ticks, rounded toward zero. -/
def midpoint (lower upper : Int) : Int := Int.tdiv (lower + upper) 2

/-- The midpoint is the half rounded down, or one more for a negative odd sum. -/
theorem midpoint_eq (lower upper : Int) :
    midpoint lower upper = (lower + upper) / 2 ∨
      midpoint lower upper = (lower + upper) / 2 + 1 ∧ (lower + upper) % 2 = 1 := by
  unfold midpoint
  rw [Int.tdiv_eq_ediv]
  split
  · exact Or.inl (Int.add_zero _)
  · rename_i h
    exact Or.inr ⟨rfl, by omega⟩

/-- The midpoint is not below the lower bound. -/
theorem le_midpoint {lower upper : Int} (h : lower ≤ upper) : lower ≤ midpoint lower upper := by
  rcases midpoint_eq lower upper with hm | hm <;> omega

/-- And it is not above the upper one. -/
theorem midpoint_le {lower upper : Int} (h : lower ≤ upper) : midpoint lower upper ≤ upper := by
  rcases midpoint_eq lower upper with hm | hm <;> omega

/-- Of the two neighbours of `target`, the nearer one, and the lower one at equal distance. The
neighbours are the ends of a range that has become empty, so `upper` is the lower of the two. -/
def nearerEnd (target : Amount) (lower upper : Int) : Except TickError Tick :=
  if Tick.highest.index < lower then .ok Tick.highest
  else if upper < Tick.lowest.index then .ok Tick.lowest
  else do
    let ceiling ← (Tick.clamp lower).price
    let floor ← (Tick.clamp upper).price
    if ceiling.raw.subMod target < target.subMod floor.raw then
      .ok (Tick.clamp lower)
    else
      .ok (Tick.clamp upper)

/-- Halves the range from `lower` to `upper` until `target` is met or the range is empty. -/
def search (target : Amount) (lower upper : Int) : Except TickError Tick :=
  if h : lower ≤ upper then
    let middle := midpoint lower upper
    have := le_midpoint h
    have := midpoint_le h
    match (Tick.clamp middle).price with
    | .error e => .error e
    | .ok price =>
      if price.raw = target then .ok (Tick.clamp middle)
      else if price.raw < target then search target (middle + 1) upper
      else search target lower (middle - 1)
  else nearerEnd target lower upper
termination_by (upper + 1 - lower).toNat
decreasing_by all_goals omega

/-- The legal tick whose price is closest to a positive price. -/
def nearestTick (price : Price) : Except TickError Tick :=
  if price.raw = 0 then .error .nonPositivePrice
  else search price.raw Tick.lowest.index Tick.highest.index

end Price

end BatchAuction
