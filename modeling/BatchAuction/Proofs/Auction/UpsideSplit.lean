import BatchAuction.Proofs.Auction.WriteOnce
import BatchAuction.Proofs.Payout.TopDown

/-!
# The committed split of the upside

The split is computed at one moment, from the bids that are active then. Later states only have the
commitment, and pay the bids from it one by one. Both agree: a state with a commitment goes back to
that moment (`Auction.Reachable.exists_commit`), the book has had the same offers since
(`Auction.offers_after_commit`), and what is owed to all of them is what the active ones get, as
those returned before lie below the clearing tick (`Auction.Sound.sum_filled_active`).
`Auction.upside_split_top_down` is the result for all runs.
-/

namespace BatchAuction

open Offer (level)

namespace Auction

variable {L : Type} {a : Auction L} {caps : Caps} {c : Commitment}

/-! ## The moment of the commitment -/

/-- The active offers together receive what all offers do. -/
theorem Sound.sum_filled_active (h : a.Sound) (hs : a.stage = .bidding caps)
    (hc : a.book.commitment? caps = .ok (some c)) :
    (a.book.offers.map c.filled).sum = (a.book.activeOffers.map c.filled).sum := by
  have hlost := h.closedLost hs
  have hof : c.OfOffers caps a.book.offers := hlost.ofOffers h.indexed hc
  have hzero : (a.book.withdrawnOffers.map c.filled).sum = 0 :=
    sum_map_eq_zero_iff.2 fun o ho =>
      Commitment.filled_of_lt (hof.lt_tick_of_lost (hlost.offers o ho))
  rw [(a.book.offers_perm.map c.filled).sum_eq, List.map_append, List.sum_append, hzero,
    Nat.add_zero]

variable [AssetLedger L]

/-- A state with a commitment goes back to the command that committed it. -/
theorem Reachable.exists_commit (h : a.Reachable) (hc : a.commitment? = some c) :
    ∃ (b : Auction L) (more : List Command), b.Reachable ∧ b.finalize.1 = .ok c ∧
      a = b.finalize.2.after more := by
  obtain ⟨config, ledger, commands, hvalid, rfl⟩ := h
  obtain ⟨before, more, rfl, hfinal⟩ :=
    exists_finalize (a := create config ledger) .notStarted rfl hc
  exact ⟨_, more, ⟨config, ledger, before, hvalid, rfl⟩, hfinal,
    after_append before (.finalize :: more)⟩

/-! ## Later states -/

omit [AssetLedger L] in
/-- After the commitment no bids are accepted. -/
theorem phase_ne_bidding (hco : a.stage.Coherent) (h : a.commitment? = some c) :
    a.phase ≠ .bidding := by
  have hp : a.phase = .finalized := hco.commitment?_isSome_iff.1 (Option.isSome_of_eq_some h)
  rw [hp]
  decide

/-- After a commitment a run leaves the offers as they are. -/
theorem offers_after_commit (hco : a.stage.Coherent) (h : a.commitment? = some c)
    (commands : List Command) : (a.after commands).book.offers = a.book.offers := by
  refine (after_invariant
    (P := fun b : Auction L => b.stage.Coherent ∧ b.commitment? = some c ∧
      b.book.offers = a.book.offers) hco (fun _ ho hb => ?_) ⟨hco, h, rfl⟩).2.2
  obtain ⟨hco', hc', hoffers⟩ := hb
  exact ⟨ho.coherent hco', ho.commitment?_eq hc',
    (ho.offers_eq (phase_ne_bidding hco' hc')).trans hoffers⟩

/-! ## The result -/

/-- Every state that a run reaches with a commitment goes back to a moment at which bidding was
ended with it. Whatever that moment was, the commitment hands out the upside of the bids that were
active then from the top down, and what all bids of the state are owed together is what those bids
get. -/
theorem upside_split_top_down (h : a.Reachable) (hc : a.commitment? = some c) :
    (∃ (b : Auction L) (more : List Command), b.Reachable ∧ b.finalize.1 = .ok c ∧
      a = b.finalize.2.after more) ∧
    ∀ (b : Auction L) (more : List Command), b.Reachable → b.finalize.1 = .ok c →
      a = b.finalize.2.after more → ∃ caps total, b.stage = .bidding caps ∧
        a.caps? = some caps ∧ a.book.offers = b.book.offers ∧
        c.TopDown caps b.book.activeBids total ∧ a.scarceFilled = .ok total := by
  refine ⟨h.exists_commit hc, ?_⟩
  rintro b more hb hfinal rfl
  have hco := hb.sound.coherent
  obtain ⟨caps, hs, hcommit⟩ := finalize_ok hco hfinal
  have hcaps : (b.finalize.2.after more).caps? = some caps :=
    caps?_after hco (caps?_of_bidding hs) (.finalize :: more)
  have hnext : b.finalize.2.commitment? = some c ∧ b.finalize.2.book = b.book := by
    simp only [finalize, finalize_eq_ok_iff.1 hfinal]
    exact ⟨rfl, rfl⟩
  have hoffers : (b.finalize.2.after more).book.offers = b.book.offers := by
    have hco' : b.finalize.2.stage.Coherent := coherent_step hco .finalize
    rw [offers_after_commit hco' hnext.1, hnext.2]
  have hof : c.OfOffers caps b.book.activeOffers :=
    Book.ofOffers_commitment hb.sound.indexed hcommit
  obtain ⟨total, htop, hsum⟩ := hof.exists_topDown fun bid hbid =>
    hb.sound.accepted _ (Book.offer_mem (List.mem_filter.1 hbid).1)
  -- later on all bids are counted, but those returned before the commitment receive nothing
  obtain ⟨x, hx, hall⟩ := h.sound.scarceFilled_eq hc
  have heq : x = total := by
    rw [Amount.eq_iff, hall, hsum, hoffers]
    exact hb.sound.sum_filled_active hs hcommit
  exact ⟨caps, total, hs, hcaps, hoffers, htop, heq ▸ hx⟩

/-- The tick of the floor, at a price of about two. -/
def tieredFloor : Tick := ⟨6931, by decide, by decide⟩

/-- Six bids at four ticks, those at the highest of them for about a quarter of their amount. -/
def tiered : Auction MemoryLedger :=
  (create .standard smallLedger).after
    [.start 219 207, .submitBid smallWinner ⟨13863, by decide, by decide⟩ 40,
      .submitBid smallLoser tieredFloor 25, .submitBid smallMarginal tieredFloor 25,
      .submitBid smallWinner smallHigh 20, .submitBid smallLoser .zero 75,
      .submitBid smallMarginal .zero 75, .finalize]

/-- The floor is above the clearing tick, and there are two bids at each of them, so at most two
units of the scarce cap are left. -/
theorem tiered_split_top_down :
    ∃ c total, tiered.commitment? = some c ∧ c.tick < c.surplus.floor ∧
      tiered.scarceFilled = .ok total ∧ 205 ≤ total.toNat ∧ total ≤ 207 := by
  obtain ⟨c, hc⟩ := Option.isSome_iff_exists.1
    (show tiered.commitment?.isSome = true by decide +kernel)
  have hpoint : ∀ c ∈ tiered.commitment?, c.tick = .zero ∧ c.surplus.floor = tieredFloor := by
    decide +kernel
  obtain ⟨htick, hfloor⟩ := hpoint c hc
  have hlt : c.tick < c.surplus.floor := by
    rw [htick, hfloor]
    decide
  obtain ⟨⟨b, more, hb, hfinal, hafter⟩, hsplit⟩ :=
    upside_split_top_down (a := tiered) ⟨.standard, smallLedger, _, by decide, rfl⟩ hc
  obtain ⟨caps, total, -, hcaps, hoffers, htop, hfilled⟩ := hsplit b more hb hfinal hafter
  have hfixed : tiered.caps? = some ⟨219, 207⟩ := by decide +kernel
  obtain rfl : caps = ⟨219, 207⟩ := Option.some.inj (hcaps.symm.trans hfixed)
  -- no more bids were active than the book has
  have hcount (t : Tick) :
      (level t (b.book.activeBids.map Bid.offer)).length ≤ (level t tiered.book.offers).length := by
    rw [hoffers]
    exact ((List.filter_sublist.map _).filter _).length_le
  have hcounts : (level tieredFloor tiered.book.offers).length = 2 ∧
      (level .zero tiered.book.offers).length = 2 := by
    decide +kernel
  have hatFloor := hcount tieredFloor
  have hatTick := hcount .zero
  have hdust := (htop.dust hlt).2.2
  rw [htick, hfloor, show (207 : Amount).toNat = 207 by decide] at hdust
  exact ⟨c, total, hc, hlt, hfilled, by omega, htop.le_cap⟩

/-- Both of them are left. -/
example : tiered.scarceFilled = .ok 205 := by decide +kernel

end Auction

end BatchAuction
