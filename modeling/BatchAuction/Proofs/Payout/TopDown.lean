import BatchAuction.Proofs.Payout.Caps
import BatchAuction.Proofs.Payout.Terms

/-!
# Upside goes to the highest ticks first

A commitment keeps two fields about the upside: the floor and a fraction. From them every bid is
paid on its own, and together the bids get what handing out the room from the highest tick down
gives them (`Commitment.TopDown`). The floor is the highest tick above the clearing tick from which
upwards the upside exceeds the room, and the clearing tick if there is none. Bids above the floor
are converted as a whole, and bids below it get their own demand and nothing else.

Where there is a floor, the room is used up but for what two roundings lose, one at the floor and
one at the clearing tick, less than a unit for each bid there (`Commitment.OfOffers.lt_sum_filled`).
-/

namespace BatchAuction

open Offer (upper above level)

/-- The upside of all offers from a tick upwards. -/
def Offer.upsideFrom (p : Price) (t : Tick) (offers : List Offer) : Nat :=
  ((upper t offers).map (Offer.upside p)).sum

/-! ## The floor -/

namespace Surplus

variable {ct t : Tick} {cp : Price} {room : Nat} {offers : List Offer} {s : Surplus}

/-- From a tick above the floor upwards, all upside fits into the room. -/
theorem Allocates.upsideFrom_le (h : Allocates ct cp room offers s) (ht : s.floor < t) :
    Offer.upsideFrom cp t offers ≤ room := by
  refine Nat.le_trans (Offer.sum_upper_le_above _ ht) ?_
  cases h with
  | all hall => exact hall
  | floor hf hs hw hlt => exact Nat.le.intro hs

/-- From a floor upwards it does not. -/
theorem Allocates.floor_cases (h : Allocates ct cp room offers s) :
    s.floor = ct ∨ ct < s.floor ∧ room < Offer.upsideFrom cp s.floor offers := by
  cases h with
  | all => exact .inl rfl
  | @floor f rest wanted hf hs hw hlt =>
    refine .inr ⟨hf, ?_⟩
    show room < ((upper f offers).map (Offer.upside cp)).sum
    rw [Offer.sum_upper]
    omega

end Surplus

namespace Commitment

variable {c : Commitment} {o : Offer} {caps : Caps} {offers : List Offer}

/-! ## Single offers -/

/-- Above the floor an offer gets all its upside. -/
theorem converts_of_floor_lt (ht : c.tick < o.tick) (hf : c.surplus.floor < o.tick) :
    c.Converts o := ⟨ht, if_pos hf⟩

/-- Below the floor an offer gets its own demand. -/
theorem filled_of_lt_floor (ht : c.tick < o.tick) (hf : o.tick < c.surplus.floor) :
    c.filled o = o.demand := by
  have hne : o.tick ≠ c.surplus.floor := fun h => Tick.lt_irrefl o.tick (h ▸ hf)
  rw [filled_of_gt ht, Surplus.portion, if_neg (Tick.not_lt_of_lt hf), if_neg hne, Nat.add_zero]

/-! ## All offers -/

/-- There are offers at the clearing tick. -/
theorem OfOffers.level_tick_ne_nil (h : c.OfOffers caps offers) : level c.tick offers ≠ [] := by
  obtain ⟨o, ho, htick⟩ := h.point.occupied
  exact List.ne_nil_of_mem (Offer.mem_level.2 ⟨ho, htick⟩)

/-- If there is a floor above the clearing tick, all payouts together fall short of the scarce cap
by less than one unit for each offer at the floor and less than one for each at the clearing
tick. -/
theorem OfOffers.lt_sum_filled (h : c.OfOffers caps offers) (hf : c.tick < c.surplus.floor) :
    caps.scarce.toNat + 1 < (offers.map c.filled).sum + (level c.surplus.floor offers).length +
      (level c.tick offers).length := by
  have hbucket : c.bucket.Sums (level c.tick offers) := h.point.bucket
  have hlevel := FillRatio.filledOf_lt_sum_part h.level_tick_ne_nil hbucket.scarce h.fits.2.bucket
  rw [← h.map_filled_level] at hlevel
  have habove := h.surplus.lt_sum_portion hf
  have hroom := h.room_eq
  rw [Offer.sum_eq_of_zero_below c.filled fun o _ hlt => filled_of_lt hlt, h.sum_filled_above]
  omega

/-- How a commitment under some caps hands out scarce to some bids, and how much in total. -/
structure TopDown (caps : Caps) (bids : List Bid) (total : Amount) (c : Commitment) : Prop where
  /-- The room for upside is what the demand above the clearing tick and the clearing fill leave. -/
  room : c.scarceAbove.toNat + (c.fill.filledOf c.bucket.scarce).toNat + (c.room caps).toNat =
    caps.scarce.toNat
  /-- The floor is the clearing tick or a higher tick from which upwards the upside exceeds the
  room. -/
  floor : c.surplus.floor = c.tick ∨ c.tick < c.surplus.floor ∧
    (c.room caps).toNat < Offer.upsideFrom c.price c.surplus.floor (bids.map Bid.offer)
  /-- From no tick above the floor upwards does the upside exceed the room. -/
  highest : ∀ t, c.surplus.floor < t →
    Offer.upsideFrom c.price t (bids.map Bid.offer) ≤ (c.room caps).toNat
  /-- A bid above the floor and the clearing tick is converted as a whole at the clearing price. -/
  converted : ∀ bid ∈ bids, c.tick < bid.tick → c.surplus.floor < bid.tick →
    ∃ x, c.amountsFor bid = .ok x ∧ x.filledScarce.toNat = bid.offer.demandAt c.price ∧
      x.baseCost = bid.amount ∧ x.baseRefund = 0
  /-- A bid between the clearing tick and the floor gets what it demands at its own tick. -/
  own : ∀ bid ∈ bids, c.tick < bid.tick → bid.tick < c.surplus.floor →
    ∃ p x, bid.tick.price = .ok p ∧ c.amountsFor bid = .ok x ∧
      x.filledScarce.toNat = bid.offer.demandAt p
  /-- This is what all bids get together. -/
  filled : c.totalFilled bids = .ok total
  /-- It is within the cap. -/
  le_cap : total ≤ caps.scarce
  /-- If there is a floor above the clearing tick, there are bids at both, and no more is left of
  the cap than one unit for each of them but one at either. -/
  dust : c.tick < c.surplus.floor →
    level c.surplus.floor (bids.map Bid.offer) ≠ [] ∧ level c.tick (bids.map Bid.offer) ≠ [] ∧
    caps.scarce.toNat - total.toNat ≤
      ((level c.surplus.floor (bids.map Bid.offer)).length - 1) +
        ((level c.tick (bids.map Bid.offer)).length - 1)

/-- The commitment of accepted offers hands out the upside of their bids from the top down. -/
theorem OfOffers.exists_topDown {bids : List Bid} (h : c.OfOffers caps (bids.map Bid.offer))
    (haccepted : ∀ bid ∈ bids, bid.offer.Accepted) :
    ∃ total, c.TopDown caps bids total ∧
      total.toNat = ((bids.map Bid.offer).map c.filled).sum := by
  have hpays (bid : Bid) (hbid : bid ∈ bids) :
      ∃ x, c.amountsFor bid = .ok x ∧ c.Pays bid.offer x :=
    amountsFor_pays (Tick.price_raw_pos h.price) (haccepted bid hbid)
  have hcap := h.sum_filled_le
  obtain ⟨total, htotal, hsum⟩ :=
    exists_totalFilled hpays (Nat.lt_of_le_of_lt hcap caps.scarce.isLt)
  refine ⟨total, ⟨h.room_eq, h.surplus.floor_cases, fun t ht => h.surplus.upsideFrom_le ht, ?_, ?_,
    htotal, ?_, fun hf => ?_⟩, hsum⟩
  · intro bid hbid ht hf
    obtain ⟨x, hx, hp⟩ := hpays bid hbid
    obtain ⟨own, hown⟩ := (haccepted bid hbid).price
    have hconv : c.Converts bid.offer := converts_of_floor_lt ht hf
    have hcost : x.baseCost.toNat = bid.amount.toNat := hp.cost.trans (if_pos hconv)
    have hwhole : x.baseRefund.toNat + x.baseCost.toNat = bid.amount.toNat := hp.whole
    refine ⟨x, hx, hp.filled.trans (filled_of_converts hconv h.price hown), Amount.eq_iff.2 hcost,
      Amount.eq_iff.2 ?_⟩
    rw [Amount.toNat_zero]
    omega
  · intro bid hbid ht hf
    obtain ⟨x, hx, hp⟩ := hpays bid hbid
    obtain ⟨own, hown⟩ := (haccepted bid hbid).price
    have hdemand : bid.offer.demandAt own = bid.offer.demand := Totals.demandAt_eq_demand hown
    exact ⟨own, x, hown, hx, by rw [hp.filled, hdemand, filled_of_lt_floor ht hf]⟩
  · rwa [Amount.le_iff, hsum]
  · have hdust := h.lt_sum_filled hf
    refine ⟨h.surplus.level_floor_ne_nil hf, h.level_tick_ne_nil, ?_⟩
    rw [hsum]
    omega

end Commitment

end BatchAuction
