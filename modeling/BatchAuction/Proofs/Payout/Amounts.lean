import BatchAuction.Payout.Amounts
import BatchAuction.Proofs.Clearing.Certain

/-!
# What an offer is paid, as numbers

`Commitment.filled` and `Commitment.cost` are the scarce that an offer receives and the base that it
pays, without the refusals of checked arithmetic. They are what `Commitment.amountsFor` answers for
every bid that an auction accepts (`Commitment.amountsFor_pays`): no step of a payout overflows, and
what is returned and what is kept make up the amount of the bid in all branches.

A bid never pays more than its amount (`Commitment.cost_le`). This needs no comparison of the two
prices: an offer that does not get all its upside has less than its demand at the clearing price.
-/

namespace BatchAuction

namespace Commitment

/-- The scarce that an offer receives. -/
def filled (c : Commitment) (o : Offer) : Nat :=
  if c.tick < o.tick then o.demand + c.surplus.portion o.tick (o.upside c.price)
  else if o.tick < c.tick then 0
  else c.fill.part (o.demandAt c.price)

/-- An offer above the clearing tick that gets all its upside pays its whole amount. -/
def Converts (c : Commitment) (o : Offer) : Prop :=
  c.tick < o.tick ∧ c.surplus.portion o.tick (o.upside c.price) = o.upside c.price

instance (c : Commitment) (o : Offer) : Decidable (c.Converts o) :=
  inferInstanceAs (Decidable (_ ∧ _))

/-- The base that an offer pays. -/
def cost (c : Commitment) (o : Offer) : Nat :=
  if c.Converts o then o.base else c.filled o * c.price.raw.toNat / Amount.scale.toNat

/-- The amounts are what the offer receives, what it pays, and the rest. -/
structure Pays (c : Commitment) (o : Offer) (x : BidAmounts) : Prop where
  filled : x.filledScarce.toNat = c.filled o
  cost : x.baseCost.toNat = c.cost o
  whole : x.baseRefund.toNat + x.baseCost.toNat = o.base

variable {c : Commitment} {o : Offer}

/-- An offer is paid in one way. -/
theorem Pays.unique {x y : BidAmounts} (hx : c.Pays o x) (hy : c.Pays o y) : x = y := by
  have hcost : x.baseCost = y.baseCost := Amount.eq_iff.2 (hx.cost.trans hy.cost.symm)
  have hrefund : x.baseRefund.toNat + x.baseCost.toNat = y.baseRefund.toNat + y.baseCost.toNat :=
    hx.whole.trans hy.whole.symm
  rw [hcost] at hrefund
  exact BidAmounts.ext (Amount.eq_iff.2 (hx.filled.trans hy.filled.symm))
    (Amount.eq_iff.2 (Nat.add_right_cancel hrefund)) hcost

/-! ## The three places of an offer -/

/-- Below the clearing tick an offer receives nothing. -/
theorem filled_of_lt (h : o.tick < c.tick) : c.filled o = 0 := by
  rw [filled, if_neg (Tick.not_lt_of_lt h), if_pos h]

/-- And it pays nothing. -/
theorem cost_of_lt (h : o.tick < c.tick) : c.cost o = 0 := by
  rw [cost, if_neg fun hc => Tick.not_lt_of_lt h hc.1, filled_of_lt h, Nat.zero_mul,
    Nat.zero_div]

/-- Above it an offer receives its demand and its portion of the upside. -/
theorem filled_of_gt (h : c.tick < o.tick) :
    c.filled o = o.demand + c.surplus.portion o.tick (o.upside c.price) := if_pos h

/-- At it an offer receives its part of what it demands at the clearing price. -/
theorem filled_of_eq (h : o.tick = c.tick) : c.filled o = c.fill.part (o.demandAt c.price) := by
  rw [filled, h, if_neg (Tick.lt_irrefl _), if_neg (Tick.lt_irrefl _)]

/-- At the clearing tick no offer is converted as a whole. -/
theorem not_converts_of_eq (h : o.tick = c.tick) : ¬ c.Converts o := fun hc =>
  Int.ne_of_gt hc.1 (congrArg Tick.index h)

/-- It pays the clearing price for what it receives. -/
theorem cost_of_eq (h : o.tick = c.tick) :
    c.cost o = c.filled o * c.price.raw.toNat / Amount.scale.toNat := if_neg (not_converts_of_eq h)

/-- Without all its upside, an offer gets at most its demand at the clearing price. -/
theorem filled_le_demandAt (h : ¬ c.Converts o) : c.filled o ≤ o.demandAt c.price := by
  unfold filled
  split
  · rename_i hlt
    have hle := c.surplus.portion_le o.tick (o.upside c.price)
    have hne : c.surplus.portion o.tick (o.upside c.price) ≠ o.upside c.price :=
      fun heq => h ⟨hlt, heq⟩
    have hdef : o.upside c.price = o.demandAt c.price - o.demand := rfl
    omega
  · split
    · exact Nat.zero_le _
    · exact c.fill.part_le _

/-- The demand at a price costs at most the amount. -/
theorem mul_price_div_le {n : Nat} {p : Price} (h : n ≤ o.demandAt p) :
    n * p.raw.toNat / Amount.scale.toNat ≤ o.base := by
  have hmul : n * p.raw.toNat ≤ o.base * Amount.scale.toNat :=
    calc n * p.raw.toNat ≤ o.demandAt p * p.raw.toNat := Nat.mul_le_mul_right _ h
      _ ≤ o.base * Amount.scale.toNat := Nat.div_mul_le_self _ _
  exact Nat.div_le_of_le_mul (by rwa [Nat.mul_comm Amount.scale.toNat])

/-- An offer pays at most its amount. -/
theorem cost_le (c : Commitment) (o : Offer) : c.cost o ≤ o.base := by
  unfold cost
  split
  · exact Nat.le_refl _
  · rename_i h
    exact mul_price_div_le (filled_le_demandAt h)

end Commitment

/-! ## Payouts do not overflow -/

namespace Commitment

variable {c : Commitment} {o : Offer} {own : Price}

/-- What an offer pays for the scarce it receives is certain. -/
theorem exists_baseAt {f : Amount} (hf : f.toNat = c.filled o) (hconv : ¬ c.Converts o) :
    ∃ k, f.baseAt c.price = .ok k ∧ k.toNat = c.cost o := by
  have hcost : c.cost o = f.toNat * c.price.raw.toNat / Amount.scale.toNat := by
    rw [cost, if_neg hconv, hf]
  have hle := c.cost_le o
  have hlt : o.base < Amount.modulus := o.amount.isLt
  obtain ⟨k, hk⟩ := Amount.exists_toNat (show c.cost o < Amount.modulus by omega)
  exact ⟨k, Amount.baseAt_eq_ok_iff.2 (hk.trans hcost), hk⟩

/-- Above the clearing tick an offer is granted a part of its upside beyond its own demand. -/
theorem exists_granted (hp : 0 < c.price.raw.toNat) (hlt : c.tick < o.tick)
    (hown : o.tick.price = .ok own) (hmax : o.amount ≤ Amount.maxTotal) :
    ∃ d u g f, o.amount.scarceAt own = .ok d ∧ o.amount.upside own c.price = .ok u ∧
      c.surplus.share o.tick u = .ok g ∧ d.add g = .ok f ∧ f.toNat = c.filled o ∧
      (g = u ↔ c.Converts o) := by
  obtain ⟨d, hatOwn, hd⟩ := Offer.exists_scarceAt (Tick.price_raw_pos hown) hmax
  obtain ⟨u, hupside⟩ := Offer.exists_upside hp hown hmax
  have hu : u.toNat = o.upside c.price := Amount.toNat_upside hown hupside
  -- neither the part of the upside nor its sum with the own demand leaves the range
  have hbound := Offer.demandAt_lt hmax own
  have hbound' := Offer.demandAt_lt hmax c.price
  have hpart := c.surplus.portion_le o.tick (o.upside c.price)
  have hup : o.upside c.price = o.demandAt c.price - o.demand := rfl
  have hmod : 2 ^ 188 + 2 ^ 188 < Amount.modulus := by decide
  obtain ⟨g, hg⟩ := Amount.exists_toNat
    (show c.surplus.portion o.tick (o.upside c.price) < Amount.modulus by omega)
  obtain ⟨f, hf⟩ := Amount.exists_toNat (show d.toNat + g.toNat < Amount.modulus by omega)
  have hshare : c.surplus.share o.tick u = .ok g :=
    Surplus.share_eq_ok_iff.2 (by rw [hu]; exact hg)
  have hfilled : f.toNat = c.filled o := by
    rw [hf, hd, hg, Totals.demandAt_eq_demand hown, filled_of_gt hlt]
  refine ⟨d, u, g, f, hatOwn, hupside, hshare, Amount.add_eq_ok_iff.2 hf, hfilled, ?_⟩
  rw [Amount.eq_iff, hg, hu]
  exact ⟨fun h => ⟨hlt, h⟩, fun h => h.2⟩

/-- The payout of a bid above the clearing tick is certain. -/
theorem amountsAbove_pays (hp : 0 < c.price.raw.toNat) (hlt : c.tick < o.tick)
    (hown : o.tick.price = .ok own) (hmax : o.amount ≤ Amount.maxTotal) :
    ∃ x, c.amountsAbove o.tick o.amount = .ok x ∧ c.Pays o x := by
  obtain ⟨d, u, g, f, hd, hu, hg, hf, hfilled, hfull⟩ := exists_granted hp hlt hown hmax
  unfold amountsAbove
  simp only [bind_eq_ok_iff, mapError_eq_ok_iff]
  by_cases hconv : c.Converts o
  · refine ⟨.converted o.amount f, ⟨own, hown, d, hd, u, hu, g, hg, f, hf, ?_⟩, hfilled, ?_, ?_⟩
    · rw [if_pos (hfull.2 hconv)]
      rfl
    · rw [cost, if_pos hconv]
      rfl
    · exact Nat.zero_add _
  · obtain ⟨k, hk, hcost⟩ := exists_baseAt hfilled hconv
    refine ⟨⟨f, o.amount - k, k⟩, ⟨own, hown, d, hd, u, hu, g, hg, f, hf, ?_⟩, hfilled, hcost, ?_⟩
    · rw [if_neg (mt hfull.1 hconv)]
      simp only [bind_eq_ok_iff, mapError_eq_ok_iff]
      exact ⟨k, hk, rfl⟩
    · have hle : k.toNat ≤ o.amount.toNat := hcost ▸ c.cost_le o
      rw [Amount.toNat_sub]
      exact Nat.sub_add_cancel hle

/-- And so is the one of a bid at it. -/
theorem amountsAt_pays (hp : 0 < c.price.raw.toNat) (heq : o.tick = c.tick)
    (hmax : o.amount ≤ Amount.maxTotal) :
    ∃ x, c.amountsAt o.amount = .ok x ∧ c.Pays o x := by
  obtain ⟨d, hdemand, hd⟩ := Offer.exists_scarceAt hp hmax
  have hpart : c.fill.part d.toNat < Amount.modulus :=
    Nat.lt_of_le_of_lt (c.fill.part_le _) d.isLt
  obtain ⟨f, hf⟩ := Amount.exists_toNat hpart
  have happly : c.fill.apply d = .ok f := FillRatio.apply_eq_ok_iff.2 hf
  have hfilled : f.toNat = c.filled o := by rw [hf, hd, filled_of_eq heq]
  obtain ⟨k, hk, hcost⟩ := exists_baseAt hfilled (not_converts_of_eq heq)
  refine ⟨⟨f, o.amount.subMod k, k⟩, ?_, hfilled, hcost, ?_⟩
  · simp only [amountsAt, bind_eq_ok_iff]
    exact ⟨d, hdemand, f, happly, k, hk, rfl⟩
  · have hle : k.toNat ≤ o.amount.toNat := hcost ▸ c.cost_le o
    show (o.amount.subMod k).toNat + k.toNat = o.amount.toNat
    rw [Amount.toNat_subMod hle]
    exact Nat.sub_add_cancel hle

/-- The payout of a bid that an auction accepts is certain. -/
theorem amountsFor_pays {bid : Bid} (hp : 0 < c.price.raw.toNat) (h : bid.offer.Accepted) :
    ∃ x, c.amountsFor bid = .ok x ∧ c.Pays bid.offer x := by
  obtain ⟨⟨own, hown⟩, hmax⟩ := h
  unfold amountsFor
  split
  · rename_i hlt
    exact amountsAbove_pays (o := bid.offer) hp hlt hown hmax
  · rename_i hnot
    split
    · rename_i hlt
      refine ⟨.refunded bid.amount, rfl, (filled_of_lt hlt).symm, (cost_of_lt hlt).symm, ?_⟩
      exact Nat.add_zero _
    · rename_i hnot'
      have heq : bid.offer.tick = c.tick :=
        Tick.ext (Int.le_antisymm (Int.not_lt.1 hnot) (Int.not_lt.1 hnot'))
      obtain ⟨x, hx, hpays⟩ := amountsAt_pays hp heq hmax
      exact ⟨x, mapError_eq_ok_iff.2 hx, hpays⟩

/-- Adding up what bids receive succeeds as long as the sum fits. -/
theorem foldlM_filled {bids : List Bid} :
    ∀ {total : Amount}, (∀ bid ∈ bids, ∃ x, c.amountsFor bid = .ok x ∧ c.Pays bid.offer x) →
      total.toNat + ((bids.map Bid.offer).map c.filled).sum < Amount.modulus →
      ∃ x : Amount, bids.foldlM (fun total bid => do
          (total.add (← c.amountsFor bid).filledScarce).mapError .arithmetic) total =
            (.ok x : Except PricingError Amount) ∧
        x.toNat = total.toNat + ((bids.map Bid.offer).map c.filled).sum := by
  induction bids with
  | nil =>
    intro total _ _
    exact ⟨total, rfl, rfl⟩
  | cons bid bids ih =>
    intro total hpays hfits
    simp only [List.map_cons, List.sum_cons] at hfits ⊢
    obtain ⟨x, hx, hbid⟩ := hpays bid List.mem_cons_self
    obtain ⟨t, ht⟩ := Amount.exists_toNat
      (show total.toNat + x.filledScarce.toNat < Amount.modulus by
        have := hbid.filled
        omega)
    have hadd : total.add x.filledScarce = .ok t := Amount.add_eq_ok_iff.2 ht
    rw [hbid.filled] at ht
    obtain ⟨y, hy, hsum⟩ := @ih t (fun b hb => hpays b (List.mem_cons_of_mem _ hb)) (by omega)
    refine ⟨y, foldlM_cons_eq_ok_iff.2 ⟨t, ?_, hy⟩, by omega⟩
    exact bind_eq_ok_iff.2 ⟨x, hx, mapError_eq_ok_iff.2 hadd⟩

/-- So what some bids receive together is certain as long as it fits. -/
theorem exists_totalFilled {bids : List Bid}
    (hpays : ∀ bid ∈ bids, ∃ x, c.amountsFor bid = .ok x ∧ c.Pays bid.offer x)
    (hfits : ((bids.map Bid.offer).map c.filled).sum < Amount.modulus) :
    ∃ total, c.totalFilled bids = .ok total ∧
      total.toNat = ((bids.map Bid.offer).map c.filled).sum := by
  obtain ⟨total, htotal, hsum⟩ := @foldlM_filled c bids 0 hpays (by
    rwa [Amount.toNat_zero, Nat.zero_add])
  rw [Amount.toNat_zero, Nat.zero_add] at hsum
  exact ⟨total, htotal, hsum⟩

end Commitment

end BatchAuction
