import BatchAuction.Proofs.Payout.Caps
import Mathlib.Order.Bounds.Defs

/-!
# Rationing at the clearing tick

A bucket at which an auction clears is filled as far as both caps allow and no further: the
numerator of its fill is the greatest number of scarce units that fits
(`FillRatio.ofRoom_greatest`). Handing it out bid by bid gives no bid more than its demand and makes
none pay more than its amount, keeps the sum of the costs within the room for base, and leaves less
than one unit for each bid (`FillRatio.rations_of_settles`). `Bucket.rationing_exact_and_maximal`
says all of this of a bucket, its totals, its fill and its payouts.
-/

namespace BatchAuction

open Offer (base)

/-! ## One bid -/

namespace FillRatio

/-- How a fill settles an amount at a price: the demand, the part of it that is granted, and the
base that this part costs. -/
structure Settles (r : FillRatio) (p : Price) (amount d : Amount) (x : BidAmounts) : Prop where
  demand : amount.scarceAt p = .ok d
  filled : r.apply d = .ok x.filledScarce
  cost : x.filledScarce.baseAt p = .ok x.baseCost

variable {r : FillRatio} {p : Price} {o : Offer} {d : Amount} {x : BidAmounts}

/-- The demand is that at the clearing price. -/
theorem Settles.toNat_demand (h : r.Settles p o.amount d x) : d.toNat = o.demandAt p :=
  (Amount.scarceAt_eq_ok_iff.1 h.demand).2

/-- What is filled is a part of it. -/
theorem Settles.toNat_filled (h : r.Settles p o.amount d x) :
    x.filledScarce.toNat = r.part (o.demandAt p) := by
  rw [← h.toNat_demand]
  exact apply_eq_ok_iff.1 h.filled

/-- The cost is the clearing price of what is filled, rounded down. -/
theorem Settles.toNat_cost (h : r.Settles p o.amount d x) :
    x.baseCost.toNat = r.part (o.demandAt p) * p.raw.toNat / Amount.scale.toNat := by
  rw [← h.toNat_filled]
  exact Amount.baseAt_eq_ok_iff.1 h.cost

/-- No more is filled than demanded. -/
theorem Settles.filled_le (h : r.Settles p o.amount d x) : x.filledScarce ≤ d := by
  rw [Amount.le_iff, h.toNat_filled, h.toNat_demand]
  exact r.part_le _

/-- And no more is paid than offered. -/
theorem Settles.cost_le (h : r.Settles p o.amount d x) : x.baseCost ≤ o.amount := by
  rw [Amount.le_iff, h.toNat_cost]
  exact Commitment.mul_price_div_le (r.part_le _)

/-- A ratio of one grants the whole demand. -/
theorem Settles.filled_of_isFull (h : r.Settles p o.amount d x) (hr : r.IsFull) :
    x.filledScarce = d := by
  rw [Amount.eq_iff, h.toNat_filled, h.toNat_demand]
  exact if_pos hr

end FillRatio

namespace Commitment

variable {c : Commitment}

/-- A bid at the clearing tick is settled by the fill. -/
theorem amountsFor_settles {bid : Bid} (hp : 0 < c.price.raw.toNat) (htick : bid.tick = c.tick)
    (hmax : bid.amount ≤ Amount.maxTotal) :
    ∃ x, c.amountsFor bid = .ok x ∧ ∃ d, c.fill.Settles c.price bid.amount d x := by
  obtain ⟨x, hx, -⟩ := amountsAt_pays (o := bid.offer) hp htick hmax
  refine ⟨x, ?_, ?_⟩
  · unfold amountsFor
    rw [htick, if_neg (Tick.lt_irrefl _), if_neg (Tick.lt_irrefl _), mapError_eq_ok_iff]
    exact hx
  · simp only [amountsAt, bind_eq_ok_iff, pure_eq_ok_iff] at hx
    obtain ⟨d, hd, f, hf, k, hk, rfl⟩ := hx
    exact ⟨d, hd, hf, hk⟩

end Commitment

/-! ## All bids of a bucket -/

namespace FillRatio

/-- What the payouts of the bids of a clearing bucket amount to, given its totals and the room left
under the base cap. -/
structure Rations (r : FillRatio) (p : Price) (own : Totals) (room : Nat) (bids : List Bid)
    (payouts : List BidAmounts) : Prop where
  /-- A bid gets at most its demand, and all of it if the whole bucket is filled. It pays at most
  its amount. -/
  each : List.Forall₂ (fun bid x => ∃ d, r.Settles p bid.amount d x ∧ x.filledScarce ≤ d ∧
    x.baseCost ≤ bid.amount ∧ (r.filled = own.scarce → x.filledScarce = d)) bids payouts
  /-- Together the bids get no more than the fill grants. -/
  filled_le : 0 < own.scarce → (payouts.map fun x => x.filledScarce.toNat).sum ≤ r.filled.toNat
  /-- They fall short of it by less than their number. -/
  le_filled : 0 < own.scarce →
    r.filled.toNat ≤ (payouts.map fun x => x.filledScarce.toNat).sum + (bids.length - 1)
  /-- Their costs are within the room. -/
  cost_le : (payouts.map fun x => x.baseCost.toNat).sum ≤ room
  /-- Bids that demand nothing together get nothing and pay nothing. -/
  none : own.scarce = 0 → ∀ x ∈ payouts, x.filledScarce = 0 ∧ x.baseCost = 0

variable {r : FillRatio} {p : Price} {caps : Caps} {sums own : Totals} {bids : List Bid}
  {payouts : List BidAmounts}

/-- The ratio found for a bucket is one if its numerator is the whole demand. -/
theorem isFull_of_filled_eq (h : ofRoom caps sums own = .ok r) (heq : r.filled = own.scarce) :
    r.IsFull := by
  by_contra hf
  have hlt := not_isFull_iff.1 hf
  rw [bucket_of_ofRoom h hf, heq] at hlt
  exact Nat.lt_irrefl _ hlt

/-- Settling every bid of a bucket by the ratio found for it rations the bucket. -/
theorem rations_of_settles (hr : ofRoom caps sums own = .ok r) (hne : bids ≠ [])
    (hbase : own.base.toNat = ((bids.map Bid.offer).map base).sum)
    (hscarce : own.scarce.toNat = ((bids.map Bid.offer).map fun o => o.demandAt p).sum)
    (h : List.Forall₂ (fun bid x => ∃ d, r.Settles p bid.amount d x) bids payouts) :
    r.Rations p own (caps.base.toNat - sums.base.toNat) bids payouts := by
  have hfilled : (payouts.map fun x => x.filledScarce.toNat).sum =
      ((bids.map Bid.offer).map fun o => r.part (o.demandAt p)).sum := by
    rw [List.map_map]
    exact sum_map_of_forall₂ h fun bid x ⟨_, hx⟩ => hx.toNat_filled (o := bid.offer)
  have hcost : (payouts.map fun x => x.baseCost.toNat).sum = ((bids.map Bid.offer).map fun o =>
      r.part (o.demandAt p) * p.raw.toNat / Amount.scale.toNat).sum := by
    rw [List.map_map]
    exact sum_map_of_forall₂ h fun bid x ⟨_, hx⟩ => hx.toNat_cost (o := bid.offer)
  refine ⟨?_, fun hpos => ?_, fun hpos => ?_, ?_, fun hzero x hx => ?_⟩
  · refine h.imp fun bid x ⟨d, hx⟩ => ⟨d, hx, hx.filled_le (o := bid.offer),
      hx.cost_le (o := bid.offer), fun heq => ?_⟩
    exact hx.filled_of_isFull (o := bid.offer) (isFull_of_filled_eq hr heq)
  · rw [hfilled, ← filledOf_of_ofRoom hpos hr]
    exact sum_part_le hscarce (bucket_of_ofRoom hr)
  · have hlt := filledOf_lt_sum_part (l := bids.map Bid.offer) (by simpa using hne) hscarce
      (bucket_of_ofRoom hr)
    rw [filledOf_of_ofRoom hpos hr, List.length_map] at hlt
    rw [hfilled]
    omega
  · rw [hcost]
    exact sum_part_cost_le (bucket_of_ofRoom hr) hbase hscarce (filledOf_within_room hr).2
  · rw [Amount.eq_iff.1 hzero] at hscarce
    have hpart := part_eq_zero (r := r) hscarce.symm
    have hnothing := sum_map_eq_zero_iff.1 (hfilled.trans (sum_map_eq_zero_iff.2 hpart)) x hx
    have hfree := sum_map_eq_zero_iff.1 (hcost.trans (sum_map_eq_zero_iff.2 fun o ho => by
      rw [hpart o ho, Nat.zero_mul, Nat.zero_div])) x hx
    exact ⟨Amount.eq_iff.2 hnothing, Amount.eq_iff.2 hfree⟩

end FillRatio

namespace Bucket

variable {b : Bucket} {t : Tick} {p : Price}

/-- The active bids of a bucket demand at the price of its tick what they demand at their own. -/
theorem map_demandAt (hp : t.price = .ok p) (htick : ∀ bid ∈ b.bids, bid.tick = t) :
    ((b.active.map Bid.offer).map fun o => o.demandAt p) =
      (b.active.map Bid.offer).map Offer.demand := by
  refine List.map_congr_left fun o ho => Totals.demandAt_eq_demand ?_
  obtain ⟨bid, hbid, rfl⟩ := List.mem_map.1 ho
  rw [← hp, ← htick bid (List.mem_filter.1 hbid).1]
  rfl

/-- The totals of a bucket are certain as long as they are within the largest total. -/
theorem exists_exact_totals (hp : t.price = .ok p) (htick : ∀ bid ∈ b.bids, bid.tick = t)
    (hbase : ((b.active.map Bid.offer).map base).sum ≤ Amount.maxTotal.toNat)
    (hscarce : ((b.active.map Bid.offer).map fun o => o.demandAt p).sum ≤
      Amount.maxTotal.toNat) :
    ∃ own, b.totals p = .ok own ∧
      own.base.toNat = ((b.active.map Bid.offer).map base).sum ∧
      own.scarce.toNat = ((b.active.map Bid.offer).map fun o => o.demandAt p).sum := by
  rw [map_demandAt hp htick] at hscarce ⊢
  have hmax : Amount.maxTotal.toNat < Amount.modulus := Amount.maxTotal.isLt
  have hlegal : ∀ o ∈ b.active.map Bid.offer, o.tick.Legal := by
    intro o ho
    obtain ⟨bid, hbid, rfl⟩ := List.mem_map.1 ho
    have htick : bid.offer.tick = t := htick bid (List.mem_filter.1 hbid).1
    exact htick ▸ (Tick.price_eq_ok_iff.1 hp).1
  obtain ⟨own, hown⟩ := exists_totals hp htick ⟨hlegal, by omega, by omega⟩
  have hsums := sums_totals hp htick hown
  exact ⟨own, hown, hsums.base, hsums.scarce⟩

/-- A bucket at a legal tick whose totals are within the largest total has a fill under any caps and
below any sums. If the bucket demands anything, the numerator of the fill is the greatest number
within the demand and within what is left under both caps, and every commitment with this fill
rations the active bids by it. -/
theorem rationing_exact_and_maximal (hp : t.price = .ok p) (htick : ∀ bid ∈ b.bids, bid.tick = t)
    (hne : b.active ≠ [])
    (hbase : ((b.active.map Bid.offer).map base).sum ≤ Amount.maxTotal.toNat)
    (hscarce : ((b.active.map Bid.offer).map fun o => o.demandAt p).sum ≤ Amount.maxTotal.toNat)
    (caps : Caps) (sums : Totals) (hcap : caps.base ≤ Amount.maxTotal) :
    ∃ own r, b.totals p = .ok own ∧
      own.base.toNat = ((b.active.map Bid.offer).map base).sum ∧
      own.scarce.toNat = ((b.active.map Bid.offer).map fun o => o.demandAt p).sum ∧
      FillRatio.ofRoom caps sums own = .ok r ∧
      (0 < own.scarce → r.bucket = own.scarce ∧ IsGreatest {n | n ≤ own.scarce.toNat ∧
        n ≤ caps.scarce.toNat - sums.scarce.toNat ∧
        n * own.base.toNat ≤ (caps.base.toNat - sums.base.toNat) * own.scarce.toNat}
          r.filled.toNat) ∧
      ∀ c : Commitment, c.tick = t → c.price = p → c.fill = r →
        ∃ payouts, b.active.mapM c.amountsFor = .ok payouts ∧
          r.Rations p own (caps.base.toNat - sums.base.toNat) b.active payouts := by
  obtain ⟨own, hown, hsum, hdemand⟩ := exists_exact_totals hp htick hbase hscarce
  have hwithin : own.scarce ≤ Amount.maxTotal := by
    rwa [Amount.le_iff, hdemand]
  obtain ⟨r, hr⟩ : ∃ r, FillRatio.ofRoom caps sums own = .ok r :=
    FillRatio.exists_ofRoom hcap hwithin
  refine ⟨own, r, hown, hsum, hdemand, hr, fun hpos => ?_, ?_⟩
  · obtain ⟨hbucket, hgreatest⟩ := FillRatio.ofRoom_greatest hpos hr
    exact ⟨hbucket, (hgreatest _).1 (Nat.le_refl _), fun n hn => (hgreatest n).2 hn⟩
  · rintro c rfl rfl rfl
    have hsettles (bid : Bid) (hbid : bid ∈ b.active) :
        ∃ x, c.amountsFor bid = .ok x ∧ ∃ d, c.fill.Settles c.price bid.amount d x := by
      refine Commitment.amountsFor_settles (Tick.price_raw_pos hp)
        (htick bid (List.mem_filter.1 hbid).1) (Nat.le_trans ?_ hbase)
      exact List.le_sum_of_mem
        (List.mem_map_of_mem (List.mem_map_of_mem (f := Bid.offer) hbid))
    obtain ⟨payouts, hpayouts, hall⟩ := exists_mapM hsettles
    exact ⟨payouts, hpayouts, FillRatio.rations_of_settles hr hne hsum hdemand hall⟩

/-- Three bids for ten units each, at a price of one. -/
def thirty (bidder : Account) : Bucket :=
  ⟨[⟨.zero, 0, bidder, 10, false, .zero⟩, ⟨.zero, 1, bidder, 10, false, .zero⟩,
    ⟨.zero, 2, bidder, 10, false, .zero⟩]⟩

/-- They clear with room for twenty units of base. -/
def twenty : Commitment :=
  ⟨.zero, ⟨.scale⟩, true, 0, 0, ⟨30, 30⟩, ⟨20, 30⟩, .unlimited .zero⟩

/-- The fill is as large as it can be, and two units of it are lost when it is split into three. -/
theorem thirty_rationed :
    ∃ payouts, (thirty ⟨1, by decide⟩).totals twenty.price = .ok twenty.bucket ∧
      FillRatio.ofRoom ⟨20, 100⟩ .zero twenty.bucket = .ok twenty.fill ∧
      (thirty ⟨1, by decide⟩).active.mapM twenty.amountsFor = .ok payouts ∧
      twenty.fill.Rations twenty.price twenty.bucket 20 (thirty ⟨1, by decide⟩).active payouts ∧
      twenty.fill.filled.toNat = 20 ∧ (payouts.map fun x => x.filledScarce.toNat).sum = 18 := by
  obtain ⟨own, r, hown, hbase, hscarce, hr, hgreatest, hall⟩ :=
    rationing_exact_and_maximal (b := thirty ⟨1, by decide⟩) (t := .zero) (p := twenty.price)
      (by decide +kernel) (by decide) (by decide) (by decide +kernel) (by decide +kernel)
      ⟨20, 100⟩ .zero (by decide)
  obtain rfl : own = twenty.bucket := Totals.ext (Amount.eq_iff.2 (hbase.trans (by decide)))
    (Amount.eq_iff.2 (hscarce.trans (by decide)))
  obtain ⟨hbucket, hfits, hmax⟩ := hgreatest (by decide)
  have hle : r.filled.toNat * 30 ≤ 20 * 30 := hfits.2.2
  have hge : 20 ≤ r.filled.toNat :=
    hmax (show 20 ≤ 30 ∧ 20 ≤ 100 - 0 ∧ 20 * 30 ≤ 20 * 30 by decide)
  have hfilled : r.filled.toNat = 20 := by omega
  obtain rfl : r = twenty.fill := FillRatio.ext (Amount.eq_iff.2 hfilled) hbucket
  obtain ⟨payouts, hpayouts, hrations⟩ := hall twenty rfl rfl rfl
  refine ⟨payouts, hown, hr, hpayouts, hrations, rfl, ?_⟩
  have hsix : (thirty ⟨1, by decide⟩).active.mapM twenty.amountsFor =
      .ok [⟨6, 4, 6⟩, ⟨6, 4, 6⟩, ⟨6, 4, 6⟩] := by decide +kernel
  obtain rfl := Except.ok.inj (hpayouts.symm.trans hsix)
  rfl

end Bucket

end BatchAuction
