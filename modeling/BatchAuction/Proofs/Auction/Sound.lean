import BatchAuction.Proofs.Auction.Outcome
import BatchAuction.Proofs.Payout.Caps

/-!
# The invariant of an auction

`Auction.Sound` holds in every state that a run reaches, over any ledger
(`Auction.Reachable.sound`). Its core is a clause for each stage (`Stage.Holds`). While bids are
accepted, every closed bid is lost: its tick lies strictly below the one at which all offers clear,
the returned ones included. After the clearing point is committed, the commitment is the one of all
offers ever accepted, and the two payout totals are the sums over the closed bids. The step between
the two stages is `Commitment.OfOffers.of_lost`: the returned offers were missing when the book was
cleared, and they do not matter.
-/

namespace BatchAuction

open Offer (Lost ClearsAt)

/-! ## The offers of a book and its closed bids -/

namespace Book

variable {b : Book} {caps : Caps}

/-- The offers of the bids that have been closed. -/
def withdrawnOffers (b : Book) : List Offer := (b.bids.filter Bid.withdrawn).map Bid.offer

/-- The offers are those of the active bids and those of the closed ones. -/
theorem offers_perm (b : Book) : b.offers.Perm (b.activeOffers ++ b.withdrawnOffers) := by
  have h := b.perm_active_withdrawn.map Bid.offer
  rwa [List.map_append] at h

/-- The offer of every bid is among them. -/
theorem offer_mem {bid : Bid} (h : bid ∈ b.bids) : bid.offer ∈ b.offers := List.mem_map_of_mem h

/-- The sum over the closed bids is a part of the sum over all bids. -/
theorem withdrawnSum_le (b : Book) (f : Offer → Nat) :
    b.withdrawnSum (fun bid => f bid.offer) ≤ (b.offers.map f).sum := by
  have h := b.sum_bids fun bid => f bid.offer
  rw [Book.offers, List.map_map]
  exact h ▸ Nat.le_add_left _ _

/-- Every closed bid is lost among all offers. -/
def ClosedLost (b : Book) (caps : Caps) : Prop :=
  ∀ bid ∈ b.bids, bid.withdrawn = true → Lost caps b.offers bid.tick

/-- The offers of closed bids are lost. -/
theorem ClosedLost.offers (h : b.ClosedLost caps) :
    ∀ o ∈ b.withdrawnOffers, Lost caps b.offers o.tick := by
  intro o ho
  obtain ⟨bid, hbid, rfl⟩ := List.mem_map.1 ho
  obtain ⟨hmem, hw⟩ := List.mem_filter.1 hbid
  exact h bid hmem hw

/-- What a scan of the book finds, it finds among all offers. -/
theorem ClosedLost.finds {scan : ClearingScan} (h : b.ClosedLost caps) (hi : b.Indexed)
    (hs : b.scan caps = .ok scan) : scan.Finds caps b.offers :=
  (scan_finds hi hs).of_lost b.offers_perm h.offers

/-- A tick that loses by the present clearing tick is lost among all offers. -/
theorem ClosedLost.of_losing {clearing : ClearingResult} {t : Tick} (h : b.ClosedLost caps)
    (hi : b.Indexed) (hc : b.clearing caps = .ok clearing) (hl : clearing.Losing t) :
    Lost caps b.offers t := by
  obtain ⟨scan, hscan, rfl⟩ := map_eq_ok_iff.1 hc
  obtain ⟨-, clearing, hclearing, hlt⟩ := hl
  cases h.finds hi hscan with
  | clears ht =>
    cases hclearing
    exact ⟨clearing, ht, hlt⟩
  | short => cases hclearing

/-- What the book commits is the commitment of all offers. -/
theorem ClosedLost.ofOffers {c : Commitment} (h : b.ClosedLost caps) (hi : b.Indexed)
    (hc : b.commitment? caps = .ok (some c)) : c.OfOffers caps b.offers :=
  (ofOffers_commitment hi hc).of_lost b.offers_perm h.offers

/-- A recorded bid adds its offer. -/
theorem offers_record_perm (b : Book) (tick : Tick) (depositor : Account) (amount : Amount)
    (time : Timestamp) :
    (b.record tick depositor amount time).2.offers.Perm (⟨tick, amount⟩ :: b.offers) :=
  (b.bids_record_perm tick depositor amount time).map Bid.offer

/-- Closed bids stay lost when another one is recorded. -/
theorem ClosedLost.record (h : b.ClosedLost caps) (tick : Tick) (depositor : Account)
    (amount : Amount) (time : Timestamp) :
    (b.record tick depositor amount time).2.ClosedLost caps := by
  intro bid hbid hw
  have hmem := (b.bids_record_perm tick depositor amount time).mem_iff.1 hbid
  rcases List.mem_cons.1 hmem with rfl | hmem
  · cases hw
  · exact ((h bid hmem hw).cons _).of_perm (b.offers_record_perm tick depositor amount time).symm

section
variable {ι : Type} {ref : ι → BidRef} {l : List ι}

/-- Closing bids leaves the offers alone. -/
theorem offers_closeAll (h : b.Open ref l) : (b.closeAll (l.map ref)).offers = b.offers :=
  map_bids_closeAll Bid.offer Bid.offer_close h

/-- If lost bids are closed, every closed bid is still lost. -/
theorem ClosedLost.closeAll (h : b.ClosedLost caps) (ho : b.Open ref l)
    (hl : ∀ i ∈ l, ∀ bid, b.get? (ref i) = some bid → Lost caps b.offers bid.tick) :
    (b.closeAll (l.map ref)).ClosedLost caps := by
  intro bid hbid hw
  rw [offers_closeAll ho]
  rcases mem_bids_closeAll ho hbid with hmem | ⟨i, hi, old, hold, rfl⟩
  · exact h bid hmem hw
  · exact hl i hi old hold

end

end Book

/-! ## The invariant -/

/-- What the closed bids of a book are at a stage. -/
inductive Stage.Holds (book : Book) : Stage → Prop
  /-- Before the start there are no bids. -/
  | notStarted : book.bids = [] → Holds book .notStarted
  /-- While bids are accepted, every closed bid is lost. -/
  | bidding {caps : Caps} : book.ClosedLost caps → Holds book (.bidding caps)
  /-- In the end, all offers are those of the commitment, and the closed bids make up the totals. -/
  | finalized {caps : Caps} {c : Commitment} {paid : PayoutTotals} :
      c.OfOffers caps book.offers →
      paid.scarceDistributed.toNat = book.withdrawnSum (fun bid => c.filled bid.offer) →
      paid.baseRetained.toNat = book.withdrawnSum (fun bid => c.cost bid.offer) →
      Holds book (.finalized caps c paid)

/-- The clauses are about the three forms in which a stage agrees with itself. -/
theorem Stage.Holds.coherent {book : Book} {s : Stage} (h : s.Holds book) : s.Coherent := by
  cases h with
  | notStarted => exact .notStarted
  | bidding => exact .bidding _
  | finalized => exact .finalized _ _ _

namespace Auction

variable {L : Type}

/-- The invariant of all runs. -/
structure Sound (a : Auction L) : Prop where
  accounts : a.config.escrow ≠ a.config.proceeds
  indexed : a.book.Indexed
  accepted : ∀ o ∈ a.book.offers, o.Accepted
  intake : a.intake.Sums a.book.offers
  stage : a.stage.Holds a.book

/-- A new auction with a valid configuration is sound. -/
theorem sound_create {config : Config} (h : config.validate = .ok ()) (ledger : L) :
    (create config ledger).Sound where
  accounts := (Config.validate_eq_ok_iff.1 h).1
  indexed _ _ h := nomatch h
  accepted _ h := nomatch h
  intake := Totals.sums_zero
  stage := .notStarted rfl

variable {a a' : Auction L}

/-- The phase and the records agree. -/
theorem Sound.coherent (h : a.Sound) : a.stage.Coherent := h.stage.coherent

/-- Before the start there are no bids. -/
theorem Sound.no_bids (h : a.Sound) (hs : a.stage = .notStarted) : a.book.bids = [] := by
  have hstage := h.stage
  rw [hs] at hstage
  cases hstage with
  | notStarted hnil => exact hnil

/-- While bids are accepted, every closed bid is lost. -/
theorem Sound.closedLost {caps : Caps} (h : a.Sound) (hs : a.stage = .bidding caps) :
    a.book.ClosedLost caps := by
  have hstage := h.stage
  rw [hs] at hstage
  cases hstage with
  | bidding hlost => exact hlost

/-- After the end of bidding, the commitment is that of all offers, and the totals are the sums over
the closed bids. -/
theorem Sound.committed {caps : Caps} {c : Commitment} {paid : PayoutTotals} (h : a.Sound)
    (hs : a.stage = .finalized caps c paid) :
    c.OfOffers caps a.book.offers ∧
      paid.scarceDistributed.toNat = a.book.withdrawnSum (fun bid => c.filled bid.offer) ∧
      paid.baseRetained.toNat = a.book.withdrawnSum fun bid => c.cost bid.offer := by
  have hstage := h.stage
  rw [hs] at hstage
  cases hstage with
  | finalized hof hscarce hbase => exact ⟨hof, hscarce, hbase⟩

/-- A bid that is accepted is one within bounds, at a tick that has a price. -/
theorem checkBid_ok {tick : Tick} {amount : Amount} {intake : Totals}
    (h : a.checkBid tick amount = .ok intake) :
    a.phase = .bidding ∧ amount ≤ Amount.maxTotal ∧
      ∃ p, tick.price = .ok p ∧ a.intake.addBid amount p = .ok intake ∧
        intake.base ≤ Amount.maxTotal ∧ intake.scarce ≤ Amount.maxTotal := by
  obtain ⟨⟨⟩, hphase, h⟩ := bind_eq_ok_iff.1 h
  split at h
  · cases h
  · obtain ⟨p, hp, h⟩ := bind_eq_ok_iff.1 h
    unfold intakeAfter at h
    split at h
    · cases h
    · rename_i hmax
      obtain ⟨t, ht, h⟩ := bind_eq_ok_iff.1 h
      split at h
      · cases h
      · rename_i hbound
        cases h
        obtain ⟨hbase, hscarce⟩ := not_or.1 hbound
        exact ⟨requirePhase_eq_ok_iff.1 hphase, Nat.not_lt.1 hmax, p, mapError_eq_ok_iff.1 hp,
          mapError_eq_ok_iff.1 ht, Nat.not_lt.1 hbase, Nat.not_lt.1 hscarce⟩

/-! ## What bids are owed -/

section
variable {c : Commitment} {bid : Bid}

/-- What is committed is the commitment of all offers. -/
theorem Sound.ofOffers (h : a.Sound) (hc : a.commitment? = some c) :
    ∃ caps, a.caps? = some caps ∧ c.OfOffers caps a.book.offers := by
  obtain ⟨caps, paid, hs⟩ := h.coherent.commitment?_eq_some_iff.1 hc
  exact ⟨caps, h.coherent.caps?_eq_some_iff.2 (.inr ⟨c, paid, hs⟩), (h.committed hs).1⟩

/-- The payout of every bid is certain once the clearing point is committed. -/
theorem Sound.pays (h : a.Sound) (hc : a.commitment? = some c) (hb : bid ∈ a.book.bids) :
    ∃ x, c.amountsFor bid = .ok x ∧ c.Pays bid.offer x := by
  obtain ⟨caps, -, hof⟩ := h.ofOffers hc
  exact Commitment.amountsFor_pays (Tick.price_raw_pos hof.price)
    (h.accepted _ (Book.offer_mem hb))

/-- What a payout returns and what it keeps make up the amount of its bid. -/
theorem Sound.whole_of_owed {x : BidAmounts} (h : a.Sound) (hb : bid ∈ a.book.bids)
    (hx : a.owed bid = .ok x) : x.baseRefund.toNat + x.baseCost.toNat = bid.amount.toNat := by
  cases hc : a.commitment? with
  | none =>
    rw [owed_of_none hc] at hx
    cases hx
    rfl
  | some c =>
    rw [owed_of_some hc] at hx
    obtain ⟨y, hy, hpays⟩ := h.pays hc hb
    obtain rfl : x = y := Except.ok.inj (hx.symm.trans hy)
    exact hpays.whole

end

/-! ## What a draft closes -/

section
variable {payouts : List Payout}

/-- The sum over the active bids is a part of the intake. -/
theorem Sound.activeSum_lt (h : a.Sound) :
    a.book.activeSum (fun bid => bid.amount.toNat) < Amount.modulus := by
  have hall := a.book.sum_bids fun bid => bid.amount.toNat
  have hintake : a.intake.base.toNat = (a.book.bids.map fun bid => bid.amount.toNat).sum := by
    rw [h.intake.base, Book.offers, List.map_map]
    rfl
  have hlt := a.intake.base.isLt
  omega

/-- A batch takes what its payouts are made of from the sum over the active bids. -/
theorem Sound.activeSum_draft (h : a.Sound) (hd : a.Draft payouts) :
    (a.book.closeAll (payouts.map Payout.bid)).activeSum (fun bid => bid.amount.toNat) +
        (paidSum BidAmounts.baseRefund payouts + paidSum BidAmounts.baseCost payouts) =
      a.book.activeSum fun bid => bid.amount.toNat := by
  have hclose : ∀ bid : Bid, bid.close.amount.toNat = bid.amount.toNat := fun _ => rfl
  have hall : ((a.book.closeAll (payouts.map Payout.bid)).bids.map fun bid =>
      bid.amount.toNat).sum = (a.book.bids.map fun bid => bid.amount.toNat).sum := by
    rw [Book.map_bids_closeAll (fun bid => bid.amount.toNat) hclose hd.opens]
  have hwithdrawn :
      (a.book.closeAll (payouts.map Payout.bid)).withdrawnSum (fun bid => bid.amount.toNat) =
        a.book.withdrawnSum (fun bid => bid.amount.toNat) +
          (payouts.map fun p => p.amounts.baseRefund.toNat + p.amounts.baseCost.toNat).sum := by
    refine Book.withdrawnSum_closeAll hclose hd.opens fun p hp bid hget => ?_
    obtain ⟨bid', hget', -, -, howed⟩ := hd.found p hp
    obtain rfl : bid = bid' := Option.some.inj (hget.symm.trans hget')
    exact (h.whole_of_owed (Book.mem_bids.2 ⟨_, hget⟩) howed).symm
  rw [Book.sum_bids, a.book.sum_bids, hwithdrawn, List.sum_map_add] at hall
  unfold paidSum
  omega

/-- A draft adds what its payouts pay to the sum over the closed bids. -/
theorem Sound.withdrawnSum_draft {c : Commitment} (h : a.Sound) (hcommit : a.commitment? = some c)
    (hd : a.Draft payouts) {f : Offer → Nat} {part : BidAmounts → Amount}
    (hf : ∀ o x, c.Pays o x → (part x).toNat = f o) :
    (a.book.closeAll (payouts.map Payout.bid)).withdrawnSum (fun bid => f bid.offer) =
      a.book.withdrawnSum (fun bid => f bid.offer) + paidSum part payouts := by
  refine Book.withdrawnSum_closeAll (fun bid => by rw [Bid.offer_close]) hd.opens ?_
  intro p hp bid hget
  obtain ⟨bid', hget', -, -, howed⟩ := hd.found p hp
  obtain rfl : bid = bid' := Option.some.inj (hget.symm.trans hget')
  obtain ⟨x, hx, hpays⟩ := h.pays hcommit (Book.mem_bids.2 ⟨_, hget⟩)
  rw [owed_of_some hcommit] at howed
  obtain rfl : p.amounts = x := Except.ok.inj (howed.symm.trans hx)
  exact (hf _ _ hpays).symm

/-- With a draft, the payout totals stay within the caps. -/
theorem Sound.totals_draft_le {caps : Caps} {c : Commitment} {paid : PayoutTotals} (h : a.Sound)
    (hs : a.stage = .finalized caps c paid) (hd : a.Draft payouts) :
    paid.scarceDistributed.toNat + paidSum BidAmounts.filledScarce payouts ≤ caps.scarce.toNat ∧
      paid.baseRetained.toNat + paidSum BidAmounts.baseCost payouts ≤ caps.base.toNat := by
  obtain ⟨hof, hscarce, hbase⟩ := h.committed hs
  have hcommit := commitment?_of_finalized hs
  have hoffers := Book.offers_closeAll hd.opens
  constructor
  · have hsum := h.withdrawnSum_draft hcommit hd fun _ _ hp => hp.filled
    have hle := (a.book.closeAll (payouts.map Payout.bid)).withdrawnSum_le c.filled
    rw [hscarce, ← hsum]
    exact Nat.le_trans hle (hoffers ▸ hof.sum_filled_le)
  · have hsum := h.withdrawnSum_draft hcommit hd fun _ _ hp => hp.cost
    have hle := (a.book.closeAll (payouts.map Payout.bid)).withdrawnSum_le c.cost
    rw [hbase, ← hsum]
    exact Nat.le_trans hle (hoffers ▸ hof.sum_cost_le)

/-- The scarce of a draft is within the cap. -/
theorem Sound.paidSum_filled_lt (h : a.Sound) (hd : a.Draft payouts) :
    paidSum BidAmounts.filledScarce payouts < Amount.modulus := by
  cases hc : a.commitment? with
  | none =>
    rw [(hd.paidSum_of_none hc).1]
    decide
  | some c =>
    obtain ⟨caps, paid, hs⟩ := h.coherent.commitment?_eq_some_iff.1 hc
    have hle := (h.totals_draft_le hs hd).1
    have hlt := caps.scarce.isLt
    omega

/-- The sums of a draft can be counted: what it returns and keeps is a part of the intake, and what
it hands out is within the cap. -/
theorem Sound.countable (h : a.Sound) (hd : a.Draft payouts) : Countable payouts := by
  have hactive := h.activeSum_draft hd
  have hlt := h.activeSum_lt
  exact ⟨h.paidSum_filled_lt hd, by omega, by omega⟩

/-- So adding up a draft does not overflow. -/
theorem Sound.not_uncounted {e : AuctionError} (h : a.Sound) (hd : a.Draft payouts) :
    payouts.foldlM addPayout .empty ≠ .error e := by
  obtain ⟨report, hreport, -⟩ := exists_foldlM_addPayout tallied_empty (h.countable hd)
  rw [hreport]
  exact fun heq => nomatch heq

section
variable {caps : Caps} {c : Commitment} {paid : PayoutTotals} {owner : Account}

/-- An active bid of an account can be paid to it after any others. -/
theorem Sound.payBid_next (h : a.Sound) (hs : a.stage = .finalized caps c paid)
    (done : List BidRef) (s : PayoutReport × PayoutTotals) (ref : BidRef) (bid : Bid)
    (hnew : ref ∉ done) (hget : a.book.get? ref = some bid) (hactive : bid.withdrawn = false)
    (howner : bid.depositor = owner)
    (hdone : a.Settles owner paid done s.1.payouts s.2 ∧ Tallied s.1) :
    ∃ s', payBid c owner s ref bid = .ok s' ∧
      a.Settles owner paid (done ++ [ref]) s'.1.payouts s'.2 ∧ Tallied s'.1 := by
  obtain ⟨hpaid, htallied⟩ := hdone
  have hcommit := commitment?_of_finalized hs
  obtain ⟨x, hx, -⟩ := h.pays hcommit (Book.mem_bids.2 ⟨_, hget⟩)
  have hnew' : ref ∉ s.1.payouts.map Payout.bid := hpaid.refs ▸ hnew
  have hd := hpaid.draft.snoc hnew' hget hactive ((owed_of_some hcommit bid).trans hx)
  have htotals := h.totals_draft_le hs hd
  rw [paidSum_snoc, ← Nat.add_assoc, ← hpaid.scarce, paidSum_snoc, ← Nat.add_assoc,
    ← hpaid.base] at htotals
  obtain ⟨t, ht⟩ := exists_record (Nat.lt_of_le_of_lt htotals.1 caps.scarce.isLt)
    (Nat.lt_of_le_of_lt htotals.2 caps.base.isLt)
  obtain ⟨r, hr, hr', -⟩ := exists_addPayout htallied (h.countable hd)
  have hpay : payBid c owner s ref bid = .ok (r, t) := by
    unfold payBid
    rw [if_neg (not_not.2 howner)]
    simp only [bind_eq_ok_iff, mapError_eq_ok_iff]
    refine ⟨x, hx, ?_⟩
    rw [ht]
    exact bind_eq_ok_iff.2 ⟨t, rfl, bind_eq_ok_iff.2 ⟨r, hr, rfl⟩⟩
  exact ⟨(r, t), hpay, hpaid.payBid hcommit hnew hget hactive hpay, hr'⟩

/-- The sums of a planned report are exact. -/
theorem Sound.tallied_plan {refs : List BidRef} {report : PayoutReport} {paid' : PayoutTotals}
    (h : a.Sound) (hplan : a.planSettlement owner refs = .ok (report, paid')) :
    Tallied report := by
  obtain ⟨caps, c, paid, hs, -⟩ := planSettlement_ok h.coherent hplan
  rw [planSettlement_of_finalized hs] at hplan
  refine (Book.visit_invariant
    (P := fun done s => a.Settles owner paid done s.1.payouts s.2 ∧ Tallied s.1) ?_
    ⟨.nil, tallied_empty⟩ hplan).2
  intro done s ref bid s' hnew hget hactive hpay hdone
  -- the payment that was made is the one that `payBid_next` says can be made
  obtain ⟨s₁, hs₁, hdone₁⟩ :=
    h.payBid_next hs done s ref bid hnew hget hactive (payBid_ok hpay).1 hdone
  obtain rfl : s' = s₁ := Except.ok.inj (hpay.symm.trans hs₁)
  exact hdone₁

/-- So a settlement of active bids of one account, none of them twice, can be planned. -/
theorem Sound.exists_planSettlement {refs : List BidRef} (h : a.Sound)
    (hs : a.stage = .finalized caps c paid) (hnodup : refs.Nodup)
    (hfound : ∀ ref ∈ refs, ∃ bid, a.book.get? ref = some bid ∧ bid.withdrawn = false ∧
      bid.depositor = owner) :
    ∃ report paid', a.planSettlement owner refs = .ok (report, paid') := by
  obtain ⟨s, hvisit⟩ := Book.exists_visit (s := (.empty, paid)) (h.payBid_next hs)
    ⟨.nil, tallied_empty⟩ hnodup hfound
  refine ⟨s.1, s.2, ?_⟩
  rw [planSettlement_of_finalized hs]
  exact hvisit

end

end

/-! ## Every command keeps it -/

/-- The invariant after a bid is recorded. -/
theorem Sound.record {tick : Tick} {amount : Amount} {intake : Totals} (h : a.Sound)
    (hcheck : a.checkBid tick amount = .ok intake) (depositor : Account) (ledger : L) :
    { a with ledger, intake, book := (a.book.record tick depositor amount a.now).2 }.Sound := by
  obtain ⟨hphase, hmax, p, hp, hintake, -⟩ := checkBid_ok hcheck
  obtain ⟨caps, hs⟩ := h.coherent.phase_eq_bidding_iff.1 hphase
  have hperm := a.book.offers_record_perm tick depositor amount a.now
  refine ⟨h.accounts, h.indexed.record tick depositor amount a.now, ?_, ?_, ?_⟩
  · intro o ho
    rcases List.mem_cons.1 (hperm.mem_iff.1 ho) with rfl | ho
    · exact ⟨⟨p, hp⟩, hmax⟩
    · exact h.accepted o ho
  · have hsum := h.intake.addBid (o := ⟨tick, amount⟩) hp hintake
    exact hsum.of_perm ((List.perm_append_singleton _ _).trans hperm.symm)
  · show a.stage.Holds _
    rw [hs]
    exact .bidding ((h.closedLost hs).record tick depositor amount a.now)

/-- The book after the clearing point is committed: the bids closed so far lie below the committed
tick, so they have been paid nothing. -/
theorem Sound.holds_commit {caps : Caps} {c : Commitment} (h : a.Sound)
    (hs : a.stage = .bidding caps) (hc : a.book.commitment? caps = .ok (some c)) :
    (Stage.finalized caps c .zero).Holds a.book := by
  have hlost := h.closedLost hs
  have hcommit : c.OfOffers caps a.book.offers := hlost.ofOffers h.indexed hc
  have hzero {f : Offer → Nat} (hf : ∀ o, o.tick < c.tick → f o = 0) :
      0 = a.book.withdrawnSum fun bid => f bid.offer := by
    refine (sum_map_eq_zero_iff.2 fun bid hbid => ?_).symm
    obtain ⟨hmem, hw⟩ := List.mem_filter.1 hbid
    exact hf _ (hcommit.lt_tick_of_lost (hlost bid hmem hw))
  exact .finalized hcommit (hzero fun o ho => Commitment.filled_of_lt ho)
    (hzero fun o ho => Commitment.cost_of_lt ho)

variable [AssetLedger L]

/-- A batch that is closed keeps it, if it keeps the clause of the stage. -/
theorem Sound.closed {payouts : List Payout} (h : a.Sound) (hd : a.Draft payouts)
    (hc : a.Closed payouts a') (hs : a'.stage.Holds a'.book) : a'.Sound where
  accounts := hc.config ▸ h.accounts
  indexed := hc.book ▸ h.indexed.closeAll
  accepted := by
    rw [hc.book, Book.offers_closeAll hd.opens]
    exact h.accepted
  intake := by
    rw [hc.intake, hc.book, Book.offers_closeAll hd.opens]
    exact h.intake
  stage := hs

/-- The book after a settlement. -/
theorem Sound.holds_settle {owner : Account} {refs : List BidRef} {payouts : List Payout}
    {caps : Caps} {c : Commitment} {paid paid' : PayoutTotals} (h : a.Sound)
    (hs : a.stage = .finalized caps c paid) (hsettles : a.Settles owner paid refs payouts paid')
    (hc : a.Closed payouts a') : (Stage.finalized caps c paid').Holds a'.book := by
  obtain ⟨hof, hscarce, hbase⟩ := h.committed hs
  have hcommit := commitment?_of_finalized hs
  refine .finalized ?_ ?_ ?_
  · rw [hc.book, Book.offers_closeAll hsettles.draft.opens]
    exact hof
  · rw [hsettles.scarce, hscarce, hc.book]
    exact (h.withdrawnSum_draft hcommit hsettles.draft fun _ _ hp => hp.filled).symm
  · rw [hsettles.base, hbase, hc.book]
    exact (h.withdrawnSum_draft hcommit hsettles.draft fun _ _ hp => hp.cost).symm

/-- Every outcome of a command keeps the invariant. -/
theorem Sound.outcome {command : Command} {response : Response} (h : a.Sound)
    (ho : a.Outcome command response a') : a'.Sound := by
  cases ho with
  | refused => exact h
  | unpaid => exact ⟨h.accounts, h.indexed, h.accepted, h.intake, h.stage⟩
  | undone => exact ⟨h.accounts, h.indexed, h.accepted, h.intake, h.stage⟩
  | clock => exact ⟨h.accounts, h.indexed, h.accepted, h.intake, h.stage⟩
  | timeOverflow => exact h
  | started hs =>
    refine ⟨h.accounts, h.indexed, h.accepted, h.intake, .bidding fun bid hbid => ?_⟩
    rw [emit_book, h.no_bids hs] at hbid
    exact nomatch hbid
  | @placed depositor _ _ _ ledger hcheck =>
    have hrecord := h.record hcheck depositor ledger
    exact ⟨hrecord.accounts, hrecord.indexed, hrecord.accepted, hrecord.intake, hrecord.stage⟩
  | refunded hs hclearing hrefunds hclosed hs' =>
    refine h.closed hrefunds.draft hclosed ?_
    have hlost := h.closedLost hs
    rw [hs', hclosed.book]
    exact .bidding (hlost.closeAll hrefunds.draft.opens fun p hp bid hget =>
      hlost.of_losing h.indexed hclearing (hrefunds.losing p hp bid hget))
  | committed hs hc => exact ⟨h.accounts, h.indexed, h.accepted, h.intake, h.holds_commit hs hc⟩
  | uncounted _ hdraft hcount => exact absurd hcount (h.not_uncounted hdraft)
  | settled hs hsettles hclosed hs' =>
    refine h.closed hsettles.draft hclosed ?_
    rw [hs']
    exact h.holds_settle hs hsettles hclosed

/-- The invariant holds after any commands. -/
theorem Sound.after (h : a.Sound) (commands : List Command) : (a.after commands).Sound :=
  after_invariant h.coherent (fun _ ho hb => hb.outcome ho) h

/-- The invariant does not look at the ledger, so changes from outside keep it as well. -/
theorem Attained.sound (h : a.Attained) : a.Sound := by
  induction h with
  | create ledger hvalid => exact sound_create hvalid ledger
  | step command _ ih => exact ih.outcome (step_outcome ih.coherent command)
  | withLedger ledger _ ih => exact ⟨ih.accounts, ih.indexed, ih.accepted, ih.intake, ih.stage⟩

/-- The invariant holds in every state that a run reaches. -/
theorem Reachable.sound (h : a.Reachable) : a.Sound := h.attained.sound

end Auction

end BatchAuction
