import BatchAuction.Proofs.Payout.Amounts
import BatchAuction.Proofs.Tick.Order

/-!
# The terms of an offer that is not below the clearing tick

Such an offer has its own price at or above the clearing price, so it demands no more at its own
price than it buys at the clearing price (`Offer.demand_le_demandAt`). What it receives lies between
the two (`Commitment.demand_le_filled`, `Commitment.filled_le`), and all its upside makes up the
difference (`Commitment.filled_of_converts`).

An offer that pays for what it receives pays at most its own price for it
(`Commitment.cost_mul_scale_le`). One that is converted as a whole has not received what was rounded
off, and may pay more than its own price for what it received, though less than for one unit more
(`Commitment.cost_mul_scale_lt`).
-/

namespace BatchAuction

namespace Offer

variable {o : Offer} {p q : Price} {t : Tick}

/-- An amount buys no more at a higher price. -/
theorem demandAt_anti (hp : 0 < p.raw.toNat) (h : p.raw ≤ q.raw) : o.demandAt q ≤ o.demandAt p :=
  Nat.div_le_div_left h hp

/-- An offer demands at its own tick at most what it buys at the price of a tick that is not
above. -/
theorem demand_le_demandAt (h : t ≤ o.tick) (hp : t.price = .ok p) (hown : o.tick.price = .ok q) :
    o.demand ≤ o.demandAt p := by
  rw [← Totals.demandAt_eq_demand hown]
  exact demandAt_anti (Tick.price_raw_pos hp) (Tick.price_mono h hp hown)

/-- One unit more than an amount buys costs more than the amount. -/
theorem base_mul_scale_lt (o : Offer) (hp : 0 < p.raw.toNat) :
    o.base * Amount.scale.toNat < (o.demandAt p + 1) * p.raw.toNat := by
  rw [Nat.mul_comm (_ + 1)]
  exact Nat.lt_mul_div_succ _ hp

end Offer

namespace Commitment

variable {c : Commitment} {o : Offer} {own : Price}

/-- An offer above the clearing tick receives at least its own demand. -/
theorem demand_le_filled (h : c.tick < o.tick) : o.demand ≤ c.filled o := by
  rw [filled_of_gt h]
  exact Nat.le_add_right _ _

/-- With all its upside, an offer receives what it buys at the clearing price. -/
theorem filled_of_converts (h : c.Converts o) (hprice : c.tick.price = .ok c.price)
    (hown : o.tick.price = .ok own) : c.filled o = o.demandAt c.price := by
  have hdemand : o.demand ≤ o.demandAt c.price :=
    Offer.demand_le_demandAt (Int.le_of_lt h.1) hprice hown
  rw [filled_of_gt h.1, h.2]
  exact Nat.add_sub_cancel' hdemand

/-- No offer receives more than it buys at the clearing price. -/
theorem filled_le (hprice : c.tick.price = .ok c.price) (hown : o.tick.price = .ok own) :
    c.filled o ≤ o.demandAt c.price := by
  by_cases h : c.Converts o
  · exact Nat.le_of_eq (filled_of_converts h hprice hown)
  · exact filled_le_demandAt h

/-- The whole amount is paid, or what is received is paid for at the clearing price. -/
theorem cost_cases (c : Commitment) (o : Offer) :
    c.Converts o ∧ c.cost o = o.base ∨
      ¬ c.Converts o ∧ c.cost o = c.filled o * c.price.raw.toNat / Amount.scale.toNat := by
  by_cases h : c.Converts o
  · exact .inl ⟨h, if_pos h⟩
  · exact .inr ⟨h, if_neg h⟩

/-- An offer that is not converted pays at most the clearing price for what it receives, and so at
most its own. -/
theorem cost_mul_scale_le (h : ¬ c.Converts o) (hle : c.price.raw ≤ own.raw) :
    c.cost o * Amount.scale.toNat ≤ c.filled o * own.raw.toNat := by
  rw [cost, if_neg h]
  exact Nat.le_trans (Nat.div_mul_le_self _ _) (Nat.mul_le_mul_left _ hle)

/-- No offer pays its own price for one unit more than it receives. -/
theorem cost_mul_scale_lt (hprice : c.tick.price = .ok c.price) (hown : o.tick.price = .ok own)
    (hle : c.tick ≤ o.tick) :
    c.cost o * Amount.scale.toNat < (c.filled o + 1) * own.raw.toNat := by
  have hprices : c.price.raw ≤ own.raw := Tick.price_mono hle hprice hown
  by_cases h : c.Converts o
  · rw [cost, if_pos h, filled_of_converts h hprice hown]
    calc o.base * Amount.scale.toNat
        < (o.demandAt c.price + 1) * c.price.raw.toNat :=
          o.base_mul_scale_lt (Tick.price_raw_pos hprice)
      _ ≤ (o.demandAt c.price + 1) * own.raw.toNat := Nat.mul_le_mul_left _ hprices
  · have hcost := cost_mul_scale_le h hprices
    have hpos := Tick.price_raw_pos hown
    rw [Nat.succ_mul]
    omega

/-- An offer pays at most its own price for what it receives, unless it pays its whole amount and
what that buys at the clearing price is worth less at its own. -/
theorem cost_mul_scale_le_iff (hprice : c.tick.price = .ok c.price)
    (hown : o.tick.price = .ok own) (hle : c.tick ≤ o.tick) :
    c.cost o * Amount.scale.toNat ≤ c.filled o * own.raw.toNat ↔
      (c.cost o = o.base →
        o.base * Amount.scale.toNat ≤ o.demandAt c.price * own.raw.toNat) := by
  constructor
  · intro h hwhole
    rw [hwhole] at h
    exact Nat.le_trans h (Nat.mul_le_mul_right _ (filled_le hprice hown))
  · intro h
    rcases c.cost_cases o with ⟨hconv, hwhole⟩ | ⟨hconv, -⟩
    · rw [hwhole, filled_of_converts hconv hprice hown]
      exact h hwhole
    · exact cost_mul_scale_le hconv (Tick.price_mono hle hprice hown)

end Commitment

end BatchAuction
