import BatchAuction.Proofs.Auction.IntakeBound
import BatchAuction.Proofs.Auction.OrderFree

/-!
# A refunded bid could not have won

While bids are accepted, the clearing result is the one of all offers ever accepted, the refunded
ones included (`Auction.Bounded.clearing_finds`). So a refund leaves it as it is, and as offers are
only added, a clearing tick that has been found stays and never falls. A bid that is refunded lies
strictly below it, and therefore strictly below the tick that is committed later
(`Auction.refunded_never_wins`).
-/

namespace BatchAuction

open Offer (ClearsAt)

namespace Auction

variable {L : Type} {a b : Auction L} {caps : Caps} {c : Commitment}

/-! ## The clearing result and all offers -/

/-- While bids are accepted, there is a clearing result, and it is what a scan finds among all
offers. -/
theorem Bounded.clearing_finds (h : a.Bounded) (hs : a.stage = .bidding caps) :
    ∃ scan : ClearingScan, a.clearing = .ok scan.result ∧ scan.Finds caps a.book.offers := by
  obtain ⟨scan, hscan, hclearing⟩ := h.exists_scan (caps?_of_bidding hs)
  exact ⟨scan, hclearing, (h.sound.closedLost hs).finds h.sound.indexed hscan⟩

/-- Under the same caps, the same offers have the same clearing result. -/
theorem Bounded.clearing_congr (ha : a.Bounded) (hb : b.Bounded) (hsa : a.stage = .bidding caps)
    (hsb : b.stage = .bidding caps) (hp : a.book.offers.Perm b.book.offers) :
    a.clearing = b.clearing := by
  obtain ⟨scan, hclearing, hfinds⟩ := ha.clearing_finds hsa
  obtain ⟨scan', hclearing', hfinds'⟩ := hb.clearing_finds hsb
  rw [hclearing, hclearing', (hfinds.of_perm hp).unique hfinds']

/-- If a price is found, all offers clear at the tick that is answered. -/
theorem Bounded.clearsAt_of_found {r : ClearingResult} (h : a.Bounded)
    (hs : a.stage = .bidding caps) (hr : a.clearing = .ok r) (hf : r.priceFound = true) :
    ∃ t, r.clearingTick = some t ∧ ClearsAt caps a.book.offers t := by
  obtain ⟨scan, hclearing, hfinds⟩ := h.clearing_finds hs
  obtain rfl : scan.result = r := Except.ok.inj (hclearing.symm.trans hr)
  cases hfinds with
  | clears ht => exact ⟨_, rfl, ht⟩
  | short => cases hf

/-- If all offers clear at a tick, a price is found there. -/
theorem Bounded.found_of_clearsAt {t : Tick} (h : a.Bounded) (hs : a.stage = .bidding caps)
    (ht : ClearsAt caps a.book.offers t) :
    ∃ r, a.clearing = .ok r ∧ r.priceFound = true ∧ r.clearingTick = some t := by
  obtain ⟨scan, hclearing, hfinds⟩ := h.clearing_finds hs
  refine ⟨scan.result, hclearing, ?_⟩
  cases hfinds with
  | clears ht' => exact ⟨rfl, congrArg some (ht'.unique ht)⟩
  | short hn => exact absurd ht (hn t)

/-- A bid that was closed while bids were accepted lies strictly below the committed tick, and a cap
binds there. -/
theorem Returned.lt_tick {bid : Bid} (h : a.Returned caps bid) (hc : a.commitment? = some c) :
    bid.tick < c.tick ∧ c.priceFound = true := by
  obtain ⟨caps', hfixed, hof⟩ := h.sound.ofOffers hc
  obtain rfl : caps = caps' := Option.some.inj (h.fixed.symm.trans hfixed)
  exact ⟨hof.lt_tick_of_lost h.lost, hof.found_of_lost h.lost⟩

/-! ## Later states -/

variable [AssetLedger L]

/-- Over any commands the caps stay as they are. -/
theorem caps?_after (hco : a.stage.Coherent) (h : a.caps? = some caps) (commands : List Command) :
    (a.after commands).caps? = some caps :=
  after_invariant (P := fun b => b.caps? = some caps) hco (fun _ ho hb => ho.caps?_eq hb) h

/-- While bids are accepted under some caps, they were accepted under the same caps before. -/
theorem stage_after (hs : a.stage = .bidding caps) {commands : List Command}
    (hp : (a.after commands).phase = .bidding) : (a.after commands).stage = .bidding caps := by
  have hco : a.stage.Coherent := hs ▸ .bidding caps
  obtain ⟨caps', hs'⟩ := (coherent_after hco commands).phase_eq_bidding_iff.1 hp
  have hcaps := caps?_after hco (caps?_of_bidding hs) commands
  obtain rfl : caps' = caps := Option.some.inj ((caps?_of_bidding hs').symm.trans hcaps)
  exact hs'

/-- A clearing tick that has been found is found later on, where it was or higher. -/
theorem Bounded.clearing_after {r : ClearingResult} (h : a.Bounded) (hp : a.phase = .bidding)
    (hr : a.clearing = .ok r) (hf : r.priceFound = true) {commands : List Command}
    (hp' : (a.after commands).phase = .bidding) :
    ∃ r' t t', (a.after commands).clearing = .ok r' ∧ r'.priceFound = true ∧
      r.clearingTick = some t ∧ r'.clearingTick = some t' ∧ t ≤ t' := by
  obtain ⟨caps, hs⟩ := h.sound.coherent.phase_eq_bidding_iff.1 hp
  have hs' := stage_after hs hp'
  obtain ⟨t, htick, ht⟩ := h.clearsAt_of_found hs hr hf
  -- the later book has the offers of the present one and those accepted in between
  obtain ⟨t', ht', hle⟩ := ht.of_sublist
    (List.sublist_append_right (a.acceptedOffers commands) a.book.offers)
  obtain ⟨r', hr', hf', htick'⟩ := (h.after commands).found_of_clearsAt hs'
    (ht'.of_perm (offers_after_perm h.sound.coherent commands).symm)
  exact ⟨r', t, t', hr', hf', htick, htick', hle⟩

/-! ## Refunds -/

/-- What a refund that succeeds has done. -/
theorem refundLosingBids_ok {refs : List BidRef} {report : PayoutReport} (hco : a.stage.Coherent)
    (h : (a.refundLosingBids refs).1 = .ok report) :
    ∃ caps, a.stage = .bidding caps ∧ (a.refundLosingBids refs).2.stage = .bidding caps ∧
      a.Draft report.payouts ∧ a.Closed report.payouts (a.refundLosingBids refs).2 := by
  have ho := refundLosingBids_outcome hco refs
  rw [h] at ho
  cases ho with
  | @refunded _ caps _ _ _ hs _ hrefunds hclosed hs' =>
    exact ⟨caps, hs, hs', hrefunds.draft, hclosed⟩

/-- A refund leaves the clearing result as it is. -/
theorem Bounded.clearing_refund {refs : List BidRef} {report : PayoutReport} (h : a.Bounded)
    (hr : (a.refundLosingBids refs).1 = .ok report) :
    (a.refundLosingBids refs).2.clearing = a.clearing := by
  have hco := h.sound.coherent
  obtain ⟨caps, hs, hs', hd, hclosed⟩ := refundLosingBids_ok hco hr
  refine (h.outcome (refundLosingBids_outcome hco refs)).clearing_congr h hs' hs ?_
  rw [hclosed.book, Book.offers_closeAll hd.opens]

/-- The bids that a refund has closed lie strictly below the tick that is committed later. -/
theorem Bounded.refund_lt_tick {refs : List BidRef} {report : PayoutReport} {p : Payout}
    (h : a.Bounded) (hr : (a.refundLosingBids refs).1 = .ok report) (hp : p ∈ report.payouts)
    {commands : List Command}
    (hc : ((a.refundLosingBids refs).2.after commands).commitment? = some c) :
    p.bid.tick < c.tick ∧ c.priceFound = true := by
  have hco := h.sound.coherent
  obtain ⟨caps, -, hs', hd, hclosed⟩ := refundLosingBids_ok hco hr
  obtain ⟨bid, hget, -⟩ := hd.found p hp
  have hmem : bid.close ∈ (a.refundLosingBids refs).2.book.bids := by
    rw [hclosed.book]
    exact Book.close_mem_closeAll hd.opens hp hget
  have hsound := (h.outcome (refundLosingBids_outcome hco refs)).sound
  have hreturned := (hsound.returned hs' hmem rfl).after commands
  have htick : bid.tick = p.bid.tick := congrArg BidRef.tick (h.sound.indexed _ _ hget)
  exact htick ▸ hreturned.lt_tick hc

/-! ## The result -/

/-- In every run, a clearing tick that has been found while bids are accepted is found at every
later such time and never falls; a refund that succeeds leaves the clearing result as a whole as it
is, and the bids that it closes lie strictly below the tick that is committed later, where a cap
binds. The same holds of all bids that are closed while bids are accepted. -/
theorem refunded_never_wins (h : a.Reachable) :
    (∀ r commands, a.phase = .bidding → a.clearing = .ok r → r.priceFound = true →
      (a.after commands).phase = .bidding →
      ∃ r' t t', (a.after commands).clearing = .ok r' ∧ r'.priceFound = true ∧
        r.clearingTick = some t ∧ r'.clearingTick = some t' ∧ t ≤ t') ∧
    (∀ refs report, (a.refundLosingBids refs).1 = .ok report →
      (∃ r, a.clearing = .ok r ∧ (a.refundLosingBids refs).2.clearing = .ok r) ∧
      ∀ commands c, ((a.refundLosingBids refs).2.after commands).commitment? = some c →
        (∀ p ∈ report.payouts, p.bid.tick < c.tick) ∧
        (report.payouts ≠ [] → c.priceFound = true)) ∧
    (a.phase = .bidding → ∀ bid ∈ a.book.bids, bid.withdrawn = true →
      ∀ commands c, (a.after commands).commitment? = some c →
        bid.tick < c.tick ∧ c.priceFound = true) := by
  have hb := h.bounded
  refine ⟨fun r commands hp hr hf hp' => hb.clearing_after hp hr hf hp', ?_, ?_⟩
  · intro refs report hr
    obtain ⟨caps, hs, -⟩ := refundLosingBids_ok hb.sound.coherent hr
    obtain ⟨scan, hscan, -⟩ := hb.clearing_finds hs
    refine ⟨⟨scan.result, hscan, (hb.clearing_refund hr).trans hscan⟩, fun commands c hc =>
      ⟨fun p hp => (hb.refund_lt_tick hr hp hc).1, fun hne => ?_⟩⟩
    obtain ⟨p, hp⟩ := List.exists_mem_of_ne_nil _ hne
    exact (hb.refund_lt_tick hr hp hc).2
  · intro hp bid hbid hw commands c hc
    obtain ⟨caps, hs⟩ := hb.sound.coherent.phase_eq_bidding_iff.1 hp
    exact ((hb.sound.returned hs hbid hw).after commands).lt_tick hc

/-- The refund in the small auction. -/
def smallReport : PayoutReport :=
  ⟨0, 5, 0, [⟨⟨smallLow, 0⟩, smallLoser, .refunded 5⟩]⟩

/-- It leaves the clearing result as it is, which is found again after a fourth bid, and the
refunded bid lies below the tick that is committed in the end. -/
theorem small_refunded_never_wins :
    ∃ r, smallOpen.clearing = .ok r ∧
      (smallOpen.refundLosingBids [⟨smallLow, 0⟩]).2.clearing = .ok r ∧
      (∃ r', (smallOpen.after [.submitBid smallLoser smallHigh 20]).clearing = .ok r' ∧
        r'.priceFound = true) ∧
      ∃ c, ((smallOpen.refundLosingBids [⟨smallLow, 0⟩]).2.after [.finalize]).commitment? = some c ∧
        smallLow < c.tick := by
  obtain ⟨hfound, hrefund, -⟩ := refunded_never_wins smallOpen_reachable
  have hreport : (smallOpen.refundLosingBids [⟨smallLow, 0⟩]).1 = .ok smallReport := by
    decide +kernel
  obtain ⟨⟨r, hr, hr'⟩, hlost⟩ := hrefund [⟨smallLow, 0⟩] smallReport hreport
  have hclearing : smallOpen.clearing = .ok ⟨true, some .zero, 70, 69⟩ := by decide +kernel
  obtain ⟨r', t, t', hlater, hf, -⟩ := hfound _ [.submitBid smallLoser smallHigh 20]
    (by decide +kernel) hclearing rfl (by decide +kernel)
  obtain ⟨c, hc⟩ := Option.isSome_iff_exists.1
    (show ((smallOpen.refundLosingBids [⟨smallLow, 0⟩]).2.after
      [.finalize]).commitment?.isSome = true by decide +kernel)
  exact ⟨r, hr, hr', ⟨r', hlater, hf⟩, c, hc, (hlost [.finalize] c hc).1 _ List.mem_cons_self⟩

end Auction

end BatchAuction
