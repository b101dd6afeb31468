import BatchAuction.Proofs.Payout.Amounts
import Mathlib.Data.List.MinMax

/-!
# Payouts stay within both caps

All payouts of a commitment together, `Commitment.OfOffers.sum_filled_le` and
`Commitment.OfOffers.sum_cost_le`. Below the clearing tick there are none. Above it the offers ask
for less than either cap, because no cap is reached there, and their upside fits into the room. At
it the fill leaves both sums within what is left: of the scarce because every part is rounded down,
and of the base because the cost of a part is in the ratio of the fill to the whole bucket, with all
roundings to the same side.
-/

namespace BatchAuction

open Offer (base demand upper above level Reaches ClearsAt)

variable {caps : Caps} {offers l : List Offer} {t : Tick}

/-! ## Offers that reach no cap -/

namespace Offer

/-- The sums of the offers are within the caps. -/
structure Within (caps : Caps) (offers : List Offer) : Prop where
  base : (offers.map base).sum ≤ caps.base.toNat
  scarce : (offers.map demand).sum ≤ caps.scarce.toNat

/-- Some offer is the lowest. -/
theorem exists_lowest (h : offers ≠ []) : ∃ o ∈ offers, ∀ o' ∈ offers, o.tick ≤ o'.tick := by
  have hsome : offers.argmin (fun o => o.tick.index) ≠ none := mt List.argmin_eq_none.1 h
  obtain ⟨low, hlow⟩ := Option.ne_none_iff_exists'.1 hsome
  exact ⟨low, List.argmin_mem hlow, fun o ho => List.le_of_mem_argmin ho hlow⟩

/-- Offers that reach no cap from any of their ticks upwards do not reach one together. -/
theorem not_reaches_all (hne : offers ≠ [])
    (h : ∀ o ∈ offers, ¬ Reaches caps (upper o.tick offers)) : ¬ Reaches caps offers := by
  obtain ⟨o, ho, hlow⟩ := exists_lowest hne
  have hnot := h o ho
  rwa [upper_eq_self hlow] at hnot

/-- Offers that reach no cap have both sums strictly below the caps. -/
theorem lt_of_not_reaches (h : ¬ Reaches caps offers) :
    (offers.map base).sum < caps.base.toNat ∧ (offers.map demand).sum < caps.scarce.toNat := by
  rwa [Reaches, not_or, Nat.not_le, Nat.not_le] at h

/-- So they are within the caps. -/
theorem within_of_not_reaches (h : ∀ o ∈ offers, ¬ Reaches caps (upper o.tick offers)) :
    Within caps offers := by
  by_cases hnil : offers = []
  · subst hnil
    exact ⟨Nat.zero_le _, Nat.zero_le _⟩
  · obtain ⟨hbase, hscarce⟩ := lt_of_not_reaches (not_reaches_all hnil h)
    exact ⟨Nat.le_of_lt hbase, Nat.le_of_lt hscarce⟩

/-- What lies above the tick at which offers clear is within the caps. -/
theorem ClearsAt.within_above (h : ClearsAt caps offers t) : Within caps (above t offers) := by
  refine within_of_not_reaches fun o ho hr => ?_
  obtain ⟨hmem, hlt⟩ := mem_above.1 ho
  exact h.2.2 o hmem hlt (hr.of_sublist (List.filter_sublist.filter _))

/-- Offers that clear nowhere are within the caps. -/
theorem within_of_not_clearsAt (h : ∀ t, ¬ ClearsAt caps offers t) : Within caps offers := by
  refine within_of_not_reaches fun o ho hr => ?_
  obtain ⟨t, ht, -⟩ := exists_clearsAt ho hr
  exact h t ht

/-- A sum to which only offers from a tick upwards contribute. -/
theorem sum_eq_of_zero_below (f : Offer → Nat) (h : ∀ o ∈ offers, o.tick < t → f o = 0) :
    (offers.map f).sum = ((level t offers).map f).sum + ((above t offers).map f).sum := by
  have hbelow : ((offers.filter fun o => decide (o.tick < t)).map f).sum = 0 := by
    rw [sum_map_eq_zero_iff]
    intro o ho
    obtain ⟨hmem, hlt⟩ := List.mem_filter.1 ho
    exact h o hmem (of_decide_eq_true hlt)
  have hperm : (offers.map f).Perm
      ((upper t offers ++ offers.filter fun o => decide (o.tick < t)).map f) :=
    perm_upper_append.map f
  rw [hperm.sum_eq, List.map_append, List.sum_append, hbelow, sum_upper, Nat.add_zero]

end Offer

/-! ## The fill of the clearing bucket -/

namespace FillRatio

variable {r : FillRatio} {sums own : Totals}

/-- The full ratio is full. -/
theorem isFull_full : full.IsFull := Nat.le_refl _

/-- What a ratio for a bucket keeps under the caps. -/
structure Fits (caps : Caps) (sums own : Totals) (r : FillRatio) : Prop where
  /-- A true fraction is one of the bucket's demand. -/
  bucket : ¬ r.IsFull → r.bucket = own.scarce
  /-- The scarce stays under its cap. -/
  scarce : sums.scarce.toNat + (r.filledOf own.scarce).toNat ≤ caps.scarce.toNat
  /-- The base in the ratio of the fill stays under its cap. -/
  base : (r.filledOf own.scarce).toNat * own.base.toNat ≤
    (caps.base.toNat - sums.base.toNat) * own.scarce.toNat

/-- The smaller amount is the smaller number. -/
theorem toNat_min (a b : Amount) : (min a b).toNat = min a.toNat b.toNat := by
  show (if a ≤ b then a else b).toNat = _
  simp only [Amount.le_iff]
  split <;> omega

/-- A bucket without demand is filled as a whole. -/
theorem ofRoom_of_zero (hzero : own.scarce.toNat = 0) (h : ofRoom caps sums own = .ok r) :
    r = full := by
  unfold ofRoom at h
  rw [if_pos (Amount.eq_iff.2 hzero)] at h
  exact (Except.ok.inj h).symm

/-- The numerator found for a bucket with some demand is the greatest number that is within the
demand and within what is left under both caps, the base being counted in scarce units of the
bucket. -/
theorem ofRoom_greatest (hpos : 0 < own.scarce.toNat) (h : ofRoom caps sums own = .ok r) :
    r.bucket = own.scarce ∧ ∀ n, n ≤ r.filled.toNat ↔
      n ≤ own.scarce.toNat ∧ n ≤ caps.scarce.toNat - sums.scarce.toNat ∧
        n * own.base.toNat ≤ (caps.base.toNat - sums.base.toNat) * own.scarce.toNat := by
  unfold ofRoom at h
  rw [if_neg (Amount.ne_zero_iff.2 hpos)] at h
  split at h
  · -- without any base only the demand and the room for scarce count
    rename_i hzero
    cases h
    refine ⟨rfl, fun n => ?_⟩
    rw [toNat_min, toNat_min, Amount.toNat_sub, hzero, Amount.toNat_zero, Nat.mul_zero]
    omega
  · rename_i hbase
    rw [← Ne, Amount.ne_zero_iff] at hbase
    obtain ⟨byBase, hquot, h⟩ := bind_eq_ok_iff.1 h
    cases h
    obtain ⟨-, hquot⟩ := Amount.mulDiv_eq_ok_iff.1 hquot
    rw [Amount.toNat_sub] at hquot
    refine ⟨rfl, fun n => ?_⟩
    rw [toNat_min, toNat_min, Amount.toNat_sub, hquot, le_min_iff, le_min_iff,
      Nat.le_div_iff_mul_le hbase]

/-- Out of a bucket with some demand, the ratio found for it grants its numerator. -/
theorem filledOf_of_ofRoom (hpos : 0 < own.scarce.toNat) (h : ofRoom caps sums own = .ok r) :
    r.filledOf own.scarce = r.filled := by
  obtain ⟨hbucket, hgreatest⟩ := ofRoom_greatest hpos h
  unfold filledOf
  split
  · rename_i hfull
    rw [IsFull, hbucket] at hfull
    exact Amount.eq_iff.2 (Nat.le_antisymm hfull ((hgreatest _).1 (Nat.le_refl _)).1)
  · rfl

/-- A true fraction found for a bucket is one of its demand. -/
theorem bucket_of_ofRoom (h : ofRoom caps sums own = .ok r) (hf : ¬ r.IsFull) :
    r.bucket = own.scarce := by
  rcases Nat.eq_zero_or_pos own.scarce.toNat with hzero | hpos
  · rw [ofRoom_of_zero hzero h] at hf
    exact absurd isFull_full hf
  · exact (ofRoom_greatest hpos h).1

/-- What the ratio found for a bucket grants is within what is left under both caps. -/
theorem filledOf_within_room (h : ofRoom caps sums own = .ok r) :
    (r.filledOf own.scarce).toNat ≤ caps.scarce.toNat - sums.scarce.toNat ∧
      (r.filledOf own.scarce).toNat * own.base.toNat ≤
        (caps.base.toNat - sums.base.toNat) * own.scarce.toNat := by
  rcases Nat.eq_zero_or_pos own.scarce.toNat with hzero | hpos
  · rw [ofRoom_of_zero hzero h, filledOf_of_isFull isFull_full, hzero, Nat.zero_mul]
    exact ⟨Nat.zero_le _, Nat.zero_le _⟩
  · rw [filledOf_of_ofRoom hpos h]
    exact (((ofRoom_greatest hpos h).2 _).1 (Nat.le_refl _)).2

/-- The ratio found for a bucket fits. -/
theorem fits_of_ofRoom (hs : sums.scarce ≤ caps.scarce) (h : ofRoom caps sums own = .ok r) :
    r.Fits caps sums own := by
  obtain ⟨hscarce, hbase⟩ := filledOf_within_room h
  rw [Amount.le_iff] at hs
  exact ⟨bucket_of_ofRoom h, by omega, hbase⟩

/-- Filling everything fits if all of the bucket does. -/
theorem fits_full (hb : sums.base.toNat + own.base.toNat ≤ caps.base.toNat)
    (hs : sums.scarce.toNat + own.scarce.toNat ≤ caps.scarce.toNat) : full.Fits caps sums own := by
  refine ⟨fun hf => absurd isFull_full hf, ?_, ?_⟩
  · rw [filledOf_of_isFull isFull_full]
    exact hs
  · rw [filledOf_of_isFull isFull_full, Nat.mul_comm]
    exact Nat.mul_le_mul_right _ (by omega)

/-- The part of a demand, against the whole demand. -/
theorem part_mul_le (h : ¬ r.IsFull → r.bucket = own.scarce) (n : Nat) :
    r.part n * own.scarce.toNat ≤ n * (r.filledOf own.scarce).toNat := by
  unfold part
  split
  · rename_i hf
    rw [filledOf_of_isFull hf]
  · rename_i hf
    rw [filledOf_of_not_isFull hf, h hf]
    exact Nat.div_mul_le_self _ _

/-- The cost of a part is at most that part of the amount, all roundings being to the same side. -/
theorem part_cost_mul_le (h : ¬ r.IsFull → r.bucket = own.scarce) (o : Offer) (p : Price) :
    r.part (o.demandAt p) * p.raw.toNat / Amount.scale.toNat * own.scarce.toNat ≤
      o.base * (r.filledOf own.scarce).toNat := by
  have hcost := Nat.div_mul_le_self (r.part (o.demandAt p) * p.raw.toNat) Amount.scale.toNat
  have hpart := part_mul_le h (o.demandAt p)
  have hdemand : o.demandAt p * p.raw.toNat ≤ o.base * Amount.scale.toNat :=
    Nat.div_mul_le_self _ _
  refine Nat.le_of_mul_le_mul_right ?_ (show 0 < Amount.scale.toNat by decide)
  generalize r.part (o.demandAt p) * p.raw.toNat / Amount.scale.toNat = k at *
  generalize r.part (o.demandAt p) = x at *
  generalize o.demandAt p = d at *
  generalize (r.filledOf own.scarce).toNat = f at *
  generalize own.scarce.toNat = b at *
  generalize p.raw.toNat = q at *
  generalize Amount.scale.toNat = s at *
  calc k * b * s = k * s * b := by ring
    _ ≤ x * q * b := Nat.mul_le_mul_right b hcost
    _ = x * b * q := by ring
    _ ≤ d * f * q := Nat.mul_le_mul_right q hpart
    _ = d * q * f := by ring
    _ ≤ o.base * s * f := Nat.mul_le_mul_right f hdemand
    _ = o.base * f * s := by ring

/-- Offers that demand nothing together are granted nothing each. -/
theorem part_eq_zero {p : Price} (hzero : (l.map fun o => o.demandAt p).sum = 0) :
    ∀ o ∈ l, r.part (o.demandAt p) = 0 := by
  intro o ho
  have hdemand : o.demandAt p = 0 := sum_map_eq_zero_iff.1 hzero o ho
  have hpart := r.part_le (o.demandAt p)
  omega

/-- If the base in the ratio of the fill is within some room, so are the costs of all parts. -/
theorem sum_part_cost_le {p : Price} {room : Nat} (h : ¬ r.IsFull → r.bucket = own.scarce)
    (hbase : own.base.toNat = (l.map base).sum)
    (hscarce : own.scarce.toNat = (l.map fun o => o.demandAt p).sum)
    (hroom : (r.filledOf own.scarce).toNat * own.base.toNat ≤ room * own.scarce.toNat) :
    (l.map fun o => r.part (o.demandAt p) * p.raw.toNat / Amount.scale.toNat).sum ≤ room := by
  rcases Nat.eq_zero_or_pos own.scarce.toNat with hzero | hpos
  · -- the ratio says nothing about the base if the bucket demands nothing, but then no one pays
    have hnone : ∀ o ∈ l, r.part (o.demandAt p) * p.raw.toNat / Amount.scale.toNat = 0 :=
      fun o ho => by rw [part_eq_zero (hscarce.symm.trans hzero) o ho, Nat.zero_mul, Nat.zero_div]
    rw [sum_map_eq_zero_iff.2 hnone]
    exact Nat.zero_le _
  · refine Nat.le_of_mul_le_mul_right (Nat.le_trans ?_ hroom) hpos
    rw [Nat.mul_comm (r.filledOf own.scarce).toNat, hbase, ← List.sum_map_mul_right,
      ← List.sum_map_mul_right]
    exact List.sum_le_sum fun o _ => part_cost_mul_le h o p

end FillRatio

/-! ## All payouts -/

namespace Commitment

variable {c : Commitment}

/-- The fill of a commitment fits, and so do the offers above it. -/
theorem OfOffers.fits (h : c.OfOffers caps offers) :
    Offer.Within caps (above c.tick offers) ∧ c.fill.Fits caps c.point.above c.bucket := by
  have habove := h.point.above
  have hbucket : c.bucket.Sums (level c.tick offers) := h.point.bucket
  have hfill := h.fill
  cases hf : c.priceFound with
  | true =>
    rw [hf, if_pos rfl] at hfill
    have hwithin := (h.point.found hf).within_above
    refine ⟨hwithin, FillRatio.fits_of_ofRoom ?_ hfill⟩
    rw [Amount.le_iff, habove.scarce]
    exact hwithin.scarce
  | false =>
    rw [hf, if_neg Bool.false_ne_true] at hfill
    have hno := (h.point.short hf).1
    have hlow : ∀ o ∈ offers, c.tick ≤ o.tick := (h.point.short hf).2
    have hall := Offer.within_of_not_clearsAt hno
    have hb := hall.base
    have hs := hall.scarce
    rw [Offer.sum_eq_of_forall_le _ hlow] at hb hs
    refine ⟨⟨by omega, by omega⟩, ?_⟩
    obtain hfull : FillRatio.full = c.fill := Except.ok.inj hfill
    rw [← hfull]
    refine FillRatio.fits_full ?_ ?_
    · rw [habove.base, hbucket.base]
      exact Nat.add_comm _ _ ▸ hb
    · rw [habove.scarce, hbucket.scarce]
      exact Nat.add_comm _ _ ▸ hs

/-- At the clearing tick an offer demands at the clearing price what it demands at its own. -/
theorem OfOffers.demandAt_level (h : c.OfOffers caps offers) {o : Offer}
    (ho : o ∈ level c.tick offers) : o.demandAt c.price = o.demand := by
  have htick := (Offer.mem_level.1 ho).2
  exact Totals.demandAt_eq_demand (htick ▸ h.price)

/-- The clearing bucket receives the parts of its demand. -/
theorem OfOffers.map_filled_level (h : c.OfOffers caps offers) :
    (level c.tick offers).map c.filled =
      (level c.tick offers).map fun o => c.fill.part o.demand :=
  List.map_congr_left fun o ho => by
    rw [filled_of_eq (Offer.mem_level.1 ho).2, h.demandAt_level ho]

/-- That is at most its fill. -/
theorem OfOffers.sum_filled_level_le (h : c.OfOffers caps offers) :
    ((level c.tick offers).map c.filled).sum ≤ (c.fill.filledOf c.bucket.scarce).toNat := by
  have hbucket : c.bucket.Sums (level c.tick offers) := h.point.bucket
  rw [h.map_filled_level]
  exact FillRatio.sum_part_le hbucket.scarce h.fits.2.bucket

/-- Above the clearing tick offers receive their own demand and the parts of their upside. -/
theorem OfOffers.sum_filled_above (h : c.OfOffers caps offers) :
    ((above c.tick offers).map c.filled).sum = c.scarceAbove.toNat +
      ((above c.tick offers).map fun o => c.surplus.portion o.tick (o.upside c.price)).sum := by
  have hparts : (above c.tick offers).map c.filled = (above c.tick offers).map fun o =>
      o.demand + c.surplus.portion o.tick (o.upside c.price) :=
    List.map_congr_left fun o ho => filled_of_gt (Offer.mem_above.1 ho).2
  have hsum : c.scarceAbove.toNat = ((above c.tick offers).map demand).sum := h.point.above.scarce
  rw [hparts, List.sum_map_add, hsum]

/-- The scarce cap is the demand above the clearing tick, the fill of the clearing bucket and the
room for upside. -/
theorem OfOffers.room_eq (h : c.OfOffers caps offers) :
    c.scarceAbove.toNat + (c.fill.filledOf c.bucket.scarce).toNat + (c.room caps).toNat =
      caps.scarce.toNat := by
  have hfits : c.scarceAbove.toNat + (c.fill.filledOf c.bucket.scarce).toNat ≤ caps.scarce.toNat :=
    h.fits.2.scarce
  have hroom : (c.room caps).toNat = caps.scarce.toNat - c.scarceAbove.toNat -
      (c.fill.filledOf c.bucket.scarce).toNat := rfl
  omega

/-- All payouts together stay within the scarce cap. -/
theorem OfOffers.sum_filled_le (h : c.OfOffers caps offers) :
    (offers.map c.filled).sum ≤ caps.scarce.toNat := by
  rw [Offer.sum_eq_of_zero_below c.filled fun o _ hlt => filled_of_lt hlt]
  have hlevel := h.sum_filled_level_le
  have habove := h.sum_filled_above
  have hgranted := h.surplus.sum_portion_le
  have hroom := h.room_eq
  omega

/-- The clearing bucket pays at most the room under the base cap. -/
theorem OfOffers.sum_cost_level_le (h : c.OfOffers caps offers) :
    ((level c.tick offers).map c.cost).sum ≤ caps.base.toNat - c.baseAbove.toNat := by
  have hbucket : c.bucket.Sums (level c.tick offers) := h.point.bucket
  have hcost : (level c.tick offers).map c.cost = (level c.tick offers).map fun o =>
      c.fill.part (o.demandAt c.price) * c.price.raw.toNat / Amount.scale.toNat :=
    List.map_congr_left fun o ho => by
      have htick := (Offer.mem_level.1 ho).2
      rw [cost_of_eq htick, filled_of_eq htick]
  have hdemand : ((level c.tick offers).map fun o => o.demandAt c.price) =
      (level c.tick offers).map demand :=
    List.map_congr_left fun o ho => h.demandAt_level ho
  rw [hcost]
  exact FillRatio.sum_part_cost_le h.fits.2.bucket hbucket.base
    (hbucket.scarce.trans (congrArg List.sum hdemand).symm) h.fits.2.base

/-- All payouts together keep the base within its cap. -/
theorem OfOffers.sum_cost_le (h : c.OfOffers caps offers) :
    (offers.map c.cost).sum ≤ caps.base.toNat := by
  rw [Offer.sum_eq_of_zero_below c.cost fun o _ hlt => cost_of_lt hlt]
  have hlevel := h.sum_cost_level_le
  have habove : ((above c.tick offers).map c.cost).sum ≤ c.baseAbove.toNat := by
    have hsum : c.baseAbove.toNat = ((above c.tick offers).map base).sum := h.point.above.base
    rw [hsum]
    exact List.sum_le_sum fun o _ => c.cost_le o
  have hwithin := h.fits.1.base
  have hsum : c.baseAbove.toNat = ((above c.tick offers).map base).sum := h.point.above.base
  omega

end Commitment

end BatchAuction
