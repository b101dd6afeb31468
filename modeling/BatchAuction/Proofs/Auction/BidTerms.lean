import BatchAuction.Proofs.Auction.Sound
import BatchAuction.Proofs.Payout.Terms

/-!
# What a bid gets and what it pays for it

Once the clearing point is committed, every bid of the book is paid on known terms
(`Auction.payout_within_terms`): above the clearing tick it receives at least what it asked for at
its own tick, nowhere more than its amount buys at the clearing price, and what it does not pay is
returned.

A bid that is not below the clearing tick pays at most its own price for what it receives, with one
exception (`Auction.bid_price_kept_iff`): where the whole amount is converted, what was rounded off
is kept as well. At a high tick that can be a large amount, and the bid may receive nothing at all
(`Auction.steep_pays_for_nothing`).
-/

namespace BatchAuction

namespace Auction

variable {L : Type} {a : Auction L} {c : Commitment} {bid : Bid}

/-- What is known of a bid of the book and of the commitment. -/
theorem Sound.exists_terms (h : a.Sound) (hc : a.commitment? = some c) (hb : bid ∈ a.book.bids) :
    c.tick.price = .ok c.price ∧ ∃ own x, bid.offer.tick.price = .ok own ∧
      c.amountsFor bid = .ok x ∧ c.Pays bid.offer x := by
  obtain ⟨caps, -, hof⟩ := h.ofOffers hc
  obtain ⟨own, hown⟩ := (h.accepted _ (Book.offer_mem hb)).price
  obtain ⟨x, hx, hpays⟩ := h.pays hc hb
  exact ⟨hof.price, own, x, hown, hx, hpays⟩

variable [AssetLedger L]

/-! ## The payout of every bid -/

/-- In every state that a run reaches after the clearing point is committed, every bid has a payout
that returns what it does not cost. Above the clearing tick the bid receives at least its demand at
its own tick and at most what its amount buys at the clearing price, and either receives all of that
for the whole amount or pays the clearing price for what it receives, rounded down. At the clearing
tick it pays the same way. Below, everything is returned. -/
theorem payout_within_terms (h : a.Reachable) (hc : a.commitment? = some c)
    (hb : bid ∈ a.book.bids) :
    ∃ own x, c.tick.price = .ok c.price ∧ bid.tick.price = .ok own ∧ c.amountsFor bid = .ok x ∧
      x.baseRefund.toNat + x.baseCost.toNat = bid.amount.toNat ∧
      (c.tick < bid.tick →
        bid.offer.demandAt own ≤ x.filledScarce.toNat ∧
        x.filledScarce.toNat ≤ bid.offer.demandAt c.price ∧
        (x.filledScarce.toNat = bid.offer.demandAt c.price ∧ x.baseCost = bid.amount ∨
          x.baseCost.toNat =
            x.filledScarce.toNat * c.price.raw.toNat / Amount.scale.toNat)) ∧
      (bid.tick = c.tick →
        x.filledScarce.toNat ≤ bid.offer.demandAt c.price ∧
        x.baseCost.toNat = x.filledScarce.toNat * c.price.raw.toNat / Amount.scale.toNat) ∧
      (bid.tick < c.tick → x.filledScarce = 0 ∧ x.baseRefund = bid.amount) := by
  obtain ⟨hprice, own, x, hown, hx, hpays⟩ := h.sound.exists_terms hc hb
  refine ⟨own, x, hprice, hown, hx, hpays.whole, fun hgt => ?_, fun heq => ?_, fun hlt => ?_⟩
  · rw [hpays.filled, hpays.cost, Totals.demandAt_eq_demand hown]
    refine ⟨Commitment.demand_le_filled hgt, Commitment.filled_le hprice hown, ?_⟩
    rcases c.cost_cases bid.offer with ⟨hconv, hcost⟩ | ⟨-, hcost⟩
    · have hall := Commitment.filled_of_converts hconv hprice hown
      exact .inl ⟨hall, Amount.eq_iff.2 (hpays.cost.trans hcost)⟩
    · exact .inr hcost
  · rw [hpays.filled, hpays.cost]
    exact ⟨Commitment.filled_le hprice hown, Commitment.cost_of_eq heq⟩
  · have hfilled := hpays.filled
    have hcost := hpays.cost
    have hwhole : x.baseRefund.toNat + x.baseCost.toNat = bid.amount.toNat := hpays.whole
    rw [Commitment.filled_of_lt hlt] at hfilled
    rw [Commitment.cost_of_lt hlt] at hcost
    rw [hcost, Nat.add_zero] at hwhole
    exact ⟨Amount.eq_iff.2 hfilled, Amount.eq_iff.2 hwhole⟩

/-- The bid above the clearing tick of the small auction. -/
def smallWinningBid : Bid := ⟨smallHigh, 0, smallWinner, 70, true, .zero⟩

/-- It is in the book, closed by its settlement. -/
theorem smallWinningBid_mem : smallWinningBid ∈ small.book.bids := by
  decide +kernel

/-- It asks for 69 scarce at its own tick and could buy 70 at the clearing price. -/
theorem small_payout_within_terms :
    ∃ c x, small.commitment? = some c ∧ c.tick < smallWinningBid.tick ∧
      c.amountsFor smallWinningBid = .ok x ∧
      x.baseRefund.toNat + x.baseCost.toNat = 70 ∧
      69 ≤ x.filledScarce.toNat ∧ x.filledScarce.toNat ≤ 70 := by
  obtain ⟨c, hc⟩ := Option.isSome_iff_exists.1
    (show small.commitment?.isSome = true by decide +kernel)
  have htick : ∀ c ∈ small.commitment?, c.tick < smallWinningBid.tick := by decide +kernel
  have hall : ∀ c ∈ small.commitment?, smallWinningBid.offer.demandAt c.price = 70 := by
    decide +kernel
  have hdemand : smallWinningBid.offer.demand = 69 := by decide +kernel
  obtain ⟨own, x, -, hown, hx, hwhole, habove, -⟩ :=
    payout_within_terms small_reachable hc smallWinningBid_mem
  obtain ⟨hlow, hhigh, -⟩ := habove (htick c hc)
  rw [Totals.demandAt_eq_demand (o := smallWinningBid.offer) hown, hdemand] at hlow
  rw [hall c hc] at hhigh
  exact ⟨c, x, hc, htick c hc, hx, hwhole, hlow, hhigh⟩

/-! ## The price that a bid pays -/

/-- In every state that a run reaches after the clearing point is committed, a bid that is not below
the clearing tick pays less than its own price for one unit more than it receives. It pays at most
its own price for what it receives, unless it pays its whole amount and what that buys at the
clearing price is worth less at its own. -/
theorem bid_price_kept_iff (h : a.Reachable) (hc : a.commitment? = some c)
    (hb : bid ∈ a.book.bids) (hle : c.tick ≤ bid.tick) :
    ∃ own x, bid.tick.price = .ok own ∧ c.amountsFor bid = .ok x ∧
      x.baseCost.toNat * Amount.scale.toNat < (x.filledScarce.toNat + 1) * own.raw.toNat ∧
      (x.baseCost.toNat * Amount.scale.toNat ≤ x.filledScarce.toNat * own.raw.toNat ↔
        (x.baseCost = bid.amount →
          bid.amount.toNat * Amount.scale.toNat ≤
            bid.offer.demandAt c.price * own.raw.toNat)) := by
  obtain ⟨hprice, own, x, hown, hx, hpays⟩ := h.sound.exists_terms hc hb
  refine ⟨own, x, hown, hx, ?_, ?_⟩
  · rw [hpays.cost, hpays.filled]
    exact Commitment.cost_mul_scale_lt hprice hown hle
  · rw [Amount.eq_iff, hpays.cost, hpays.filled]
    exact Commitment.cost_mul_scale_le_iff hprice hown hle

/-- The winner of the small auction pays at most its own price. -/
theorem small_bid_price_kept :
    ∃ c own x, small.commitment? = some c ∧ c.tick ≤ smallWinningBid.tick ∧
      smallWinningBid.tick.price = .ok own ∧ c.amountsFor smallWinningBid = .ok x ∧
      x.baseCost.toNat * Amount.scale.toNat ≤ x.filledScarce.toNat * own.raw.toNat := by
  obtain ⟨c, hc⟩ := Option.isSome_iff_exists.1
    (show small.commitment?.isSome = true by decide +kernel)
  have htick : ∀ c ∈ small.commitment?, c.tick ≤ smallWinningBid.tick := by decide +kernel
  have hall : ∀ c ∈ small.commitment?, smallWinningBid.offer.demandAt c.price = 70 := by
    decide +kernel
  obtain ⟨own, x, hown, hx, -, hiff⟩ :=
    bid_price_kept_iff small_reachable hc smallWinningBid_mem (htick c hc)
  refine ⟨c, own, x, hc, htick c hc, hown, hx, hiff.2 fun _ => ?_⟩
  obtain ⟨-, rfl⟩ := Tick.price_eq_ok_iff.1 hown
  rw [hall c hc]
  decide +kernel

/-- The second highest legal tick. -/
def steepClearing : Tick := ⟨524287, by decide, by decide⟩

/-- The bid at the highest legal tick. -/
def steepBid : Bid := ⟨.highest, 0, smallWinner, 50000000000000000000000, false, .zero⟩

/-- Two accounts with 50,000 and 100,000 whole units of base. -/
def steepLedger : MemoryLedger :=
  (MemoryLedger.empty.withBalance smallWinner .base 50000000000000000000000).withBalance
    smallMarginal .base 100000000000000000000000

/-- Both offer all they have at the highest two ticks, and the lower bid reaches the base cap. -/
def steep : Auction MemoryLedger :=
  (create .standard steepLedger).after
    [.start 100000000000000000000000 100,
      .submitBid smallWinner .highest 50000000000000000000000,
      .submitBid smallMarginal steepClearing 100000000000000000000000, .finalize]

/-- The bid above the clearing tick is converted as a whole. It is worth less than one unit of
scarce there, so it pays 50,000 whole units of base and receives nothing. -/
theorem steep_pays_for_nothing :
    steep.Reachable ∧ ∃ c own x, steep.commitment? = some c ∧ steepBid ∈ steep.book.bids ∧
      steepBid.withdrawn = false ∧ c.tick ≤ steepBid.tick ∧ steepBid.tick.price = .ok own ∧
      c.amountsFor steepBid = .ok x ∧ x.filledScarce = 0 ∧ x.baseCost = steepBid.amount ∧
      ¬ x.baseCost.toNat * Amount.scale.toNat ≤ x.filledScarce.toNat * own.raw.toNat := by
  obtain ⟨c, hc⟩ := Option.isSome_iff_exists.1
    (show steep.commitment?.isSome = true by decide +kernel)
  have hbid : steepBid ∈ steep.book.bids := by decide +kernel
  have htick : ∀ c ∈ steep.commitment?, c.tick ≤ steepBid.tick := by decide +kernel
  have hx : ∀ c ∈ steep.commitment?,
      c.amountsFor steepBid = .ok (.converted steepBid.amount 0) := by decide +kernel
  have hown : steepBid.tick.price = .ok ⟨Price.power steepBid.tick.index⟩ := by decide +kernel
  refine ⟨⟨.standard, steepLedger, _, by decide, rfl⟩, c, _, _, hc, hbid, rfl, htick c hc, hown,
    hx c hc, rfl, rfl, ?_⟩
  decide +kernel

end Auction

end BatchAuction
