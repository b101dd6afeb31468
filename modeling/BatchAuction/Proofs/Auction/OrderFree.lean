import BatchAuction.Proofs.Auction.Sound

/-!
# The clearing point depends on the accepted offers only

Two runs over any ledgers that fix the same caps and accept the same offers commit the same clearing
point and pay the same to bids with the same offer (`Auction.commitment_unique`). The order of the
bids, their depositors and the times do not matter, and neither do the refunds: a refunded bid stays
in the book, so the book always has all offers that the run has accepted
(`Auction.offers_run_perm`), and the commitment is the one of all of them
(`Auction.Reachable.sound`).
-/

namespace BatchAuction

/-- The offers that a command has added to the book. -/
def Command.offers (command : Command) (response : Response) : List Offer :=
  ((command.accepted? response).map Prod.snd).toList

namespace Auction

variable {L L' : Type} [AssetLedger L] [AssetLedger L']

/-- The offers of the bids that are accepted in a run, one for each bid. -/
def acceptedOffers : Auction L → List Command → List Offer
  | _, [] => []
  | a, command :: commands =>
    command.offers (a.step command).1 ++ (a.step command).2.acceptedOffers commands

/-! ## The offers in the book -/

variable {a a' : Auction L} {b : Auction L'}

/-- Every outcome of a command leaves the offers in the book, with the accepted one. -/
theorem Outcome.offers_perm {command : Command} {response : Response}
    (ho : a.Outcome command response a') :
    a'.book.offers.Perm (command.offers response ++ a.book.offers) := by
  have hplaced := ho.placements_perm.map Prod.snd
  rw [List.map_append, List.map_map, List.map_map] at hplaced
  rw [Command.offers, Option.toList_map]
  exact hplaced

/-- After a run the book has the offers it had before and the accepted ones. -/
theorem offers_after_perm (hco : a.stage.Coherent) (commands : List Command) :
    (a.after commands).book.offers.Perm (a.acceptedOffers commands ++ a.book.offers) := by
  induction commands generalizing a with
  | nil => exact .refl _
  | cons command commands ih =>
    have hstep := (step_outcome hco command).offers_perm
    have hrest := ih (coherent_step hco command)
    rw [after_cons, acceptedOffers]
    refine hrest.trans ((hstep.append_left _).trans ?_)
    rw [← List.append_assoc]
    exact List.perm_append_comm.append_right _

/-- The book of a run has the offers that the run has accepted. -/
theorem offers_run_perm (config : Config) (ledger : L) (commands : List Command) :
    ((create config ledger).after commands).book.offers.Perm
      ((create config ledger).acceptedOffers commands) := by
  have hall := (create config ledger).offers_after_perm .notStarted commands
  have hnone : (create config ledger).book.offers = [] := rfl
  rwa [hnone, List.append_nil] at hall

/-! ## Two runs -/

variable {c c' : Commitment}

/-- What a settlement pays is what the commitment says of the bid. -/
theorem amounts_of_settle {owner : Account} {refs : List BidRef} {report : PayoutReport}
    {p : Payout} (hco : a.stage.Coherent) (h : (a.settle owner refs).1 = .ok report)
    (hc : a.commitment? = some c) (hp : p ∈ report.payouts) :
    ∃ bid, a.book.get? p.bid = some bid ∧ c.amountsFor bid = .ok p.amounts := by
  have ho := settle_outcome hco owner refs
  rw [h] at ho
  cases ho with
  | settled _ hsettles =>
    obtain ⟨bid, hget, -, -, howed⟩ := hsettles.draft.found p hp
    exact ⟨bid, hget, (owed_of_some hc bid).symm.trans howed⟩

/-- Two runs that fix the same caps and accept the same offers, in whatever order, commit the same
clearing point. It prices all bids of both, those with the same offer alike, and the settlements of
both runs pay bids with the same offer the same. -/
theorem commitment_unique {config config' : Config} {ledger : L} {ledger' : L'}
    {commands commands' : List Command} (hvalid : config.validate = .ok ())
    (hvalid' : config'.validate = .ok ()) (ha : a = (create config ledger).after commands)
    (hb : b = (create config' ledger').after commands') (hcaps : a.caps? = b.caps?)
    (hoffers : ((create config ledger).acceptedOffers commands).Perm
      ((create config' ledger').acceptedOffers commands'))
    (hc : a.commitment? = some c) (hc' : b.commitment? = some c') :
    c = c' ∧
    (∀ bid ∈ a.book.bids, ∀ bid' ∈ b.book.bids, bid.tick = bid'.tick → bid.amount = bid'.amount →
      ∃ x, c.amountsFor bid = .ok x ∧ c'.amountsFor bid' = .ok x) ∧
    ∀ owner refs report owner' refs' report', (a.settle owner refs).1 = .ok report →
      (b.settle owner' refs').1 = .ok report' → ∀ p ∈ report.payouts, ∀ p' ∈ report'.payouts,
      ∃ bid bid', a.book.get? p.bid = some bid ∧ b.book.get? p'.bid = some bid' ∧
        (bid.tick = bid'.tick → bid.amount = bid'.amount → p.amounts = p'.amounts) := by
  have hsound : a.Sound := ha ▸ (sound_create hvalid ledger).after commands
  have hsound' : b.Sound := hb ▸ (sound_create hvalid' ledger').after commands'
  have hbook : a.book.offers.Perm b.book.offers := by
    rw [ha, hb]
    exact (offers_run_perm ..).trans (hoffers.trans (offers_run_perm ..).symm)
  obtain ⟨caps, hfixed, hof⟩ := hsound.ofOffers hc
  obtain ⟨caps', hfixed', hof'⟩ := hsound'.ofOffers hc'
  obtain rfl : caps = caps' := Option.some.inj (hfixed.symm.trans (hcaps.trans hfixed'))
  obtain rfl : c = c' := (hof.of_perm hbook).unique hof'
  have hsame : ∀ bid ∈ a.book.bids, ∀ bid' ∈ b.book.bids, bid.tick = bid'.tick →
      bid.amount = bid'.amount → ∃ x, c.amountsFor bid = .ok x ∧ c.amountsFor bid' = .ok x := by
    intro bid hbid bid' hbid' htick hamount
    have heq : bid.offer = bid'.offer := Offer.ext htick hamount
    obtain ⟨x, hx, hxpays⟩ := hsound.pays hc hbid
    obtain ⟨y, hy, hypays⟩ := hsound'.pays hc' hbid'
    obtain rfl : x = y := hxpays.unique (heq ▸ hypays)
    exact ⟨x, hx, hy⟩
  refine ⟨rfl, hsame, ?_⟩
  intro owner refs report owner' refs' report' hreport hreport' p hp p' hp'
  obtain ⟨bid, hget, hpaid⟩ := amounts_of_settle hsound.coherent hreport hc hp
  obtain ⟨bid', hget', hpaid'⟩ := amounts_of_settle hsound'.coherent hreport' hc' hp'
  refine ⟨bid, bid', hget, hget', fun htick hamount => ?_⟩
  obtain ⟨x, hx, hx'⟩ := hsame bid (Book.mem_bids.2 ⟨_, hget⟩) bid' (Book.mem_bids.2 ⟨_, hget'⟩)
    htick hamount
  rw [hpaid] at hx
  rw [hpaid'] at hx'
  exact Except.ok.inj (hx.trans hx'.symm)

/-- The bids of the small auction, placed by other accounts in another order, with no refund. -/
def smallReordered : List Command :=
  [.start 100 100, .submitBid smallLoser smallHigh 70, .submitBid smallLoser smallLow 5,
   .submitBid smallWinner .zero 60, .finalize]

/-- Both commit the same clearing point. -/
theorem small_commitment_unique :
    ∃ c, small.commitment? = some c ∧
      ((create .compact smallLedger).after smallReordered).commitment? = some c := by
  obtain ⟨c, hc⟩ := Option.isSome_iff_exists.1
    (show small.commitment?.isSome = true by decide +kernel)
  obtain ⟨c', hc'⟩ := Option.isSome_iff_exists.1
    (show ((create .compact smallLedger).after smallReordered).commitment?.isSome = true by
      decide +kernel)
  obtain ⟨rfl, -⟩ := commitment_unique (show Config.standard.validate = .ok () by decide)
    (show Config.compact.validate = .ok () by decide)
    (show small = (create .standard smallLedger).after (smallBidding ++ smallSettling) from rfl) rfl
    (by decide +kernel) (by decide +kernel) hc hc'
  exact ⟨c, hc, hc'⟩

end Auction

end BatchAuction
