import BatchAuction.Proofs.Auction.Sound

/-!
# Both caps hold in every run

The payout totals are sums over the closed bids, and all bids together are paid within the caps
(`BatchAuction.Proofs.Payout.Caps`), so the totals never pass a cap, in whatever order and in
whatever batches bids are paid. The scarce owed to all bids at the committed point lies between what
has been handed out and the cap. A bid that was refunded before the end adds nothing to it: it stays
in the book, and its payout at any later commitment is its refund.
-/

namespace BatchAuction

open Offer (Lost)

/-- If all bids are closed, the sum over the closed bids is the sum over all offers. -/
theorem Book.withdrawnSum_eq_of_all {b : Book} (h : ∀ bid ∈ b.bids, bid.withdrawn = true)
    (f : Offer → Nat) : b.withdrawnSum (fun bid => f bid.offer) = (b.offers.map f).sum := by
  have hall : b.bids.filter Bid.withdrawn = b.bids := List.filter_eq_self.2 h
  rw [Book.withdrawnSum, hall, Book.offers, List.map_map]
  rfl

namespace Auction

variable {L : Type} {a a' : Auction L} {caps : Caps} {c : Commitment}

/-! ## Totals and caps -/

/-- The payout totals are the sums over the closed bids. -/
theorem Sound.totals_eq (h : a.Sound) (hc : a.commitment? = some c) :
    a.scarceDistributed.toNat = a.book.withdrawnSum (fun bid => c.filled bid.offer) ∧
      a.baseRetained.toNat = a.book.withdrawnSum fun bid => c.cost bid.offer := by
  obtain ⟨caps, paid, hs⟩ := h.coherent.commitment?_eq_some_iff.1 hc
  rw [scarceDistributed, baseRetained, hs]
  exact (h.committed hs).2

/-- The payout totals are within the caps. -/
theorem Sound.totals_le (h : a.Sound) (hcaps : a.caps? = some caps) :
    a.scarceDistributed ≤ caps.scarce ∧ a.baseRetained ≤ caps.base := by
  rcases h.coherent.caps?_eq_some_iff.1 hcaps with hs | ⟨c, paid, hs⟩
  · rw [scarceDistributed, baseRetained, hs]
    exact ⟨Nat.zero_le _, Nat.zero_le _⟩
  · have hc := commitment?_of_finalized hs
    obtain ⟨caps', hfixed, hof⟩ := h.ofOffers hc
    obtain rfl : caps = caps' := Option.some.inj (hcaps.symm.trans hfixed)
    obtain ⟨hscarce, hbase⟩ := h.totals_eq hc
    rw [Amount.le_iff, Amount.le_iff, hscarce, hbase]
    exact ⟨Nat.le_trans (a.book.withdrawnSum_le c.filled) hof.sum_filled_le,
      Nat.le_trans (a.book.withdrawnSum_le c.cost) hof.sum_cost_le⟩

/-- The scarce owed to all bids at the committed point is known, and it is the sum of what their
offers receive. -/
theorem Sound.scarceFilled_eq (h : a.Sound) (hc : a.commitment? = some c) :
    ∃ x, a.scarceFilled = .ok x ∧ x.toNat = (a.book.offers.map c.filled).sum := by
  obtain ⟨caps, -, hof⟩ := h.ofOffers hc
  obtain ⟨x, hx, hsum⟩ := Commitment.exists_totalFilled (fun bid hb => h.pays hc hb)
    (Nat.lt_of_le_of_lt hof.sum_filled_le caps.scarce.isLt)
  refine ⟨x, ?_, hsum⟩
  rw [scarceFilled, requireCommitment, require_eq_ok_iff.2 hc]
  exact mapError_eq_ok_iff.2 hx

/-- What the offers of all bids receive is the sum of the fills of the bids. -/
theorem Sound.exists_fills (h : a.Sound) (hc : a.commitment? = some c) :
    ∃ payouts, a.book.bids.mapM c.amountsFor = .ok payouts ∧
      (payouts.map fun y => y.filledScarce.toNat).sum = (a.book.offers.map c.filled).sum := by
  obtain ⟨payouts, hpayouts, hpays⟩ := exists_mapM fun bid hb => h.pays hc hb
  refine ⟨payouts, hpayouts, ?_⟩
  rw [Book.offers, List.map_map]
  exact sum_map_of_forall₂ hpays fun bid y hy => hy.filled

/-! ## Refunded bids later on -/

variable {bid : Bid}

/-- A bid of the book that is closed, and lost under the caps. -/
structure Returned (caps : Caps) (bid : Bid) (a : Auction L) : Prop where
  sound : a.Sound
  fixed : a.caps? = some caps
  mem : bid ∈ a.book.bids
  closed : bid.withdrawn = true
  lost : Lost caps a.book.offers bid.tick

/-- At every later commitment the bid is priced as a full refund. -/
theorem Returned.amountsFor (h : a.Returned caps bid) (hc : a.commitment? = some c) :
    c.amountsFor bid = .ok (.refunded bid.amount) := by
  obtain ⟨caps', hfixed, hof⟩ := h.sound.ofOffers hc
  obtain rfl : caps = caps' := Option.some.inj (h.fixed.symm.trans hfixed)
  have hlt := hof.lt_tick_of_lost h.lost
  rw [Commitment.amountsFor, if_neg (Tick.not_lt_of_lt hlt), if_pos hlt]

variable [AssetLedger L]

/-- Every outcome of a command keeps it. -/
theorem Returned.outcome {command : Command} {response : Response} (h : a.Returned caps bid)
    (ho : a.Outcome command response a') : a'.Returned caps bid := by
  have hsound := h.sound.outcome ho
  have hfixed := ho.caps?_eq h.fixed
  have batch {payouts : List Payout} (hd : a.Draft payouts) (hc : a.Closed payouts a') :
      a'.Returned caps bid := by
    refine ⟨hsound, hfixed, ?_, h.closed, ?_⟩
    · rw [hc.book]
      exact Book.mem_closeAll_of_withdrawn h.closed hd.opens h.mem
    · rw [hc.book, Book.offers_closeAll hd.opens]
      exact h.lost
  cases ho with
  | refunded _ _ hrefunds hclosed => exact batch hrefunds.draft hclosed
  | settled _ hsettles hclosed => exact batch hsettles.draft hclosed
  | @placed depositor tick amount =>
    have hbids := a.book.bids_record_perm tick depositor amount a.now
    have hoffers := a.book.offers_record_perm tick depositor amount a.now
    exact ⟨hsound, hfixed, hbids.mem_iff.2 (List.mem_cons_of_mem _ h.mem), h.closed,
      (h.lost.cons _).of_perm hoffers.symm⟩
  | uncounted _ hdraft hcount => exact absurd hcount (h.sound.not_uncounted hdraft)
  | _ => exact ⟨hsound, hfixed, h.mem, h.closed, h.lost⟩

/-- It holds after any commands. -/
theorem Returned.after (h : a.Returned caps bid) (commands : List Command) :
    (a.after commands).Returned caps bid :=
  after_invariant h.sound.coherent (fun _ ho hr => hr.outcome ho) h

omit [AssetLedger L] in
/-- A bid that is closed while bids are accepted is such a bid. -/
theorem Sound.returned (h : a.Sound) (hs : a.stage = .bidding caps) (hb : bid ∈ a.book.bids)
    (hw : bid.withdrawn = true) : a.Returned caps bid :=
  ⟨h, caps?_of_bidding hs, hb, hw, h.closedLost hs bid hb hw⟩

/-- A bid that is closed while bids are accepted stays in the book and is priced as a full refund
at every later commitment. -/
theorem Sound.returned_after (h : a.Sound) (hp : a.phase = .bidding) (hb : bid ∈ a.book.bids)
    (hw : bid.withdrawn = true) (commands : List Command)
    (hc : (a.after commands).commitment? = some c) :
    bid ∈ (a.after commands).book.bids ∧ c.amountsFor bid = .ok (.refunded bid.amount) := by
  obtain ⟨caps, hs⟩ := h.coherent.phase_eq_bidding_iff.1 hp
  have hlater := (h.returned hs hb hw).after commands
  exact ⟨hlater.mem, hlater.amountsFor hc⟩

/-! ## The result -/

/-- In every state that a run reaches after the caps are fixed, the scarce handed out and the base
kept are within the caps. Once the clearing point is committed, every bid has its fill, and the
scarce owed to all bids is the sum of these fills. It is within its cap, at least what has been
handed out, and equal to it when all bids are closed. The bids refunded before add nothing to it. -/
theorem totals_within_caps (h : a.Reachable) (hc : a.caps? = some caps) :
    a.scarceDistributed ≤ caps.scarce ∧ a.baseRetained ≤ caps.base ∧
      (a.phase = .finalized → ∃ c payouts x, a.commitment? = some c ∧
        a.book.bids.mapM c.amountsFor = .ok payouts ∧ a.scarceFilled = .ok x ∧
        x.toNat = (payouts.map fun y => y.filledScarce.toNat).sum ∧ a.scarceDistributed ≤ x ∧
        x ≤ caps.scarce ∧
        ((∀ bid ∈ a.book.bids, bid.withdrawn = true) → a.scarceDistributed = x)) ∧
      (a.phase = .bidding → ∀ bid ∈ a.book.bids, bid.withdrawn = true → ∀ commands c,
        (a.after commands).commitment? = some c → bid ∈ (a.after commands).book.bids ∧
          c.amountsFor bid = .ok (.refunded bid.amount)) := by
  have hsound := h.sound
  obtain ⟨hscarce, hbase⟩ := hsound.totals_le hc
  refine ⟨hscarce, hbase, fun hp => ?_,
    fun hp bid hb hw commands c hcommit => hsound.returned_after hp hb hw commands hcommit⟩
  obtain ⟨_, c, _, hs⟩ := hsound.coherent.phase_eq_finalized_iff.1 hp
  have hcommit := commitment?_of_finalized hs
  obtain ⟨caps', hfixed, hof⟩ := hsound.ofOffers hcommit
  obtain rfl : caps = caps' := Option.some.inj (hc.symm.trans hfixed)
  obtain ⟨hpaid, -⟩ := hsound.totals_eq hcommit
  obtain ⟨x, hx, hsum⟩ := hsound.scarceFilled_eq hcommit
  obtain ⟨payouts, hpayouts, hfills⟩ := hsound.exists_fills hcommit
  refine ⟨c, payouts, x, hcommit, hpayouts, hx, hsum.trans hfills.symm, ?_, ?_, fun hall => ?_⟩
  · rw [Amount.le_iff, hpaid, hsum]
    exact a.book.withdrawnSum_le c.filled
  · rw [Amount.le_iff, hsum]
    exact hof.sum_filled_le
  · rw [Amount.eq_iff, hpaid, hsum]
    exact Book.withdrawnSum_eq_of_all hall c.filled

/-- In the small auction both caps are used up, and all that is owed has been handed out. -/
theorem small_totals_within_caps :
    small.scarceDistributed ≤ 100 ∧ small.baseRetained ≤ 100 ∧
      ∃ x, small.scarceFilled = .ok x ∧ small.scarceDistributed = x := by
  have hcaps : small.caps? = some ⟨100, 100⟩ := by decide +kernel
  obtain ⟨hscarce, hbase, hfilled, -⟩ := totals_within_caps small_reachable hcaps
  obtain ⟨c, payouts, x, -, -, hx, -, -, -, heq⟩ := hfilled (by decide +kernel)
  exact ⟨hscarce, hbase, x, hx, heq (by decide +kernel)⟩

end Auction

end BatchAuction
