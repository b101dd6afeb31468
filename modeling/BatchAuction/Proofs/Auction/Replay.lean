import BatchAuction.Audit.Replay
import BatchAuction.Proofs.Auction.History

/-!
# The log tells everything

Replaying the events of a run gives the auction at its end (`Auction.log_replays`), as far as it can
be seen from outside (`Auction.told`). The replay follows the run command by command
(`Auction.Sound.replay_step`): from what the auction tells before a command, the announced events
lead to what it tells afterwards. A batch announces its bids one by one, and the replay closes them
one by one. A settlement sets its totals in one step at the end; the replay adds them up, and comes
to the same amounts.
-/

namespace BatchAuction

/-! ## Replaying a batch -/

namespace Replay

variable {r r' : Replay} {payouts : List Payout} {now : Timestamp}

/-- The handle of an active bid can be closed. -/
theorem close_of_active {ref : BidRef} {bid : Bid} (h : r.book.get? ref = some bid)
    (hactive : bid.withdrawn = false) : r.close ref = .ok { r with book := r.book.close ref } := by
  rw [close, Book.withdraw_of_active h hactive]
  rfl

/-- Refunds of active bids close them. -/
theorem foldlM_refunds (tick : Tick) :
    ∀ {r : Replay} {first : Nat}, r.book.Open Payout.bid payouts →
      (Event.stamped first now (payouts.map (Auction.refundEvent tick))).foldlM apply r =
        .ok { r with book := r.book.closeAll (payouts.map Payout.bid) } := by
  induction payouts with
  | nil => exact fun _ => rfl
  | cons p payouts ih =>
    intro r first ho
    obtain ⟨bid, hget, hactive⟩ := ho.found p List.mem_cons_self
    rw [List.map_cons, Event.stamped, foldlM_cons_eq_ok_iff]
    exact ⟨_, close_of_active hget hactive, ih ho.tail⟩

/-- Payments of active bids close them and are added to the totals, if the sums fit. -/
theorem foldlM_payments (owner : Account) {paid' : PayoutTotals} :
    ∀ {r : Replay} {first : Nat}, r.book.Open Payout.bid payouts →
      paid'.scarceDistributed.toNat =
        r.totals.scarceDistributed.toNat + Auction.paidSum BidAmounts.filledScarce payouts →
      paid'.baseRetained.toNat =
        r.totals.baseRetained.toNat + Auction.paidSum BidAmounts.baseCost payouts →
      (Event.stamped first now (payouts.map (Auction.settledEvent owner))).foldlM apply r =
        .ok { r with book := r.book.closeAll (payouts.map Payout.bid), totals := paid' } := by
  induction payouts with
  | nil =>
    intro r first _ hscarce hbase
    have htotals : paid' = r.totals :=
      PayoutTotals.ext (Amount.eq_iff.2 hscarce) (Amount.eq_iff.2 hbase)
    rw [htotals]
    rfl
  | cons p payouts ih =>
    intro r first ho hscarce hbase
    obtain ⟨bid, hget, hactive⟩ := ho.found p List.mem_cons_self
    have hhead (f : BidAmounts → Amount) : Auction.paidSum f (p :: payouts) =
        (f p.amounts).toNat + Auction.paidSum f payouts := rfl
    rw [hhead, ← Nat.add_assoc] at hscarce hbase
    have hfits := paid'.scarceDistributed.isLt
    have hfits' := paid'.baseRetained.isLt
    obtain ⟨totals, hrecord⟩ := Auction.exists_record (t := r.totals) (x := p.amounts)
      (by omega) (by omega)
    obtain ⟨hscarce', hbase'⟩ := Auction.record_ok hrecord
    rw [List.map_cons, Event.stamped, foldlM_cons_eq_ok_iff]
    refine ⟨{ r with book := r.book.close p.bid, totals }, ?_, ih ho.tail ?_ ?_⟩
    · refine bind_eq_ok_iff.2 ⟨_, close_of_active hget hactive, ?_⟩
      simp only [pay, hrecord]
    · rw [hscarce', hscarce]
    · rw [hbase', hbase]

end Replay

namespace Auction

variable {L : Type} {a a' : Auction L}

/-! ## What an auction tells -/

/-- What a commitment tells. -/
def clearedPoint (c : Commitment) : ClearedPoint :=
  ⟨c.tick, c.price, c.priceFound, c.baseAbove, c.scarceAbove⟩

/-- What can be seen of an auction from outside, the ledger apart. -/
def told (a : Auction L) : Replay where
  phase := a.phase
  caps := a.caps?
  book := a.book
  totals := ⟨a.scarceDistributed, a.baseRetained⟩
  cleared := a.commitment?.map clearedPoint

/-- What an auction tells depends on its stage and its book. -/
theorem told_eq {stage : Stage} (h : a.stage = stage) :
    a.told =
      ⟨stage.phase, stage.caps?, a.book, stage.paid, stage.commitment?.map clearedPoint⟩ := by
  subst h
  rfl

variable [AssetLedger L]

omit [AssetLedger L] in
/-- Only a start announces something without an answer. -/
theorem announced_done {command : Command} (h : ∀ base scarce, command ≠ .start base scarce) :
    a.announced command .done = [] := by
  cases command with
  | start base scarce => exact absurd rfl (h base scarce)
  | _ => rfl

/-- The event of the start fixes the caps. -/
theorem Sound.replay_start (h : a.Sound) (base scarce : Amount) :
    (Event.stamped a.log.nextId a.now (a.announced (.start base scarce)
      (a.step (.start base scarce)).1)).foldlM Replay.apply a.told =
        .ok (a.step (.start base scarce)).2.told := by
  simp only [step, start]
  split
  · rfl
  · rename_i caps hplan
    obtain ⟨hs, hcaps⟩ := planStart_ok h.coherent hplan
    rw [told_eq hs, hs, checkCaps_eq hcaps]
    rfl

/-- The events that a command announces lead from what the auction tells before it to what it tells
afterwards. -/
theorem Sound.replay_step (h : a.Sound) (command : Command) :
    (Event.stamped a.log.nextId a.now (a.announced command (a.step command).1)).foldlM
      Replay.apply a.told = .ok (a.step command).2.told := by
  by_cases hstart : ∃ base scarce, command = .start base scarce
  · obtain ⟨base, scarce, rfl⟩ := hstart
    exact h.replay_start base scarce
  have quiet {response : Response} {b : Auction L} (hnone : a.announced command response = [])
      (hb : b.told = a.told) :
      (Event.stamped a.log.nextId a.now (a.announced command response)).foldlM Replay.apply
        a.told = .ok b.told := by
    rw [hnone, hb]
    rfl
  have ho := step_outcome h.coherent command
  generalize (a.step command).1 = response at ho
  generalize (a.step command).2 = b at ho
  cases ho with
  | refused => exact quiet (a.announced_refused _ _) rfl
  | unpaid => exact quiet rfl rfl
  | undone => exact quiet (a.announced_refused _ _) rfl
  | clock now => exact quiet (announced_done fun base scarce heq => hstart ⟨base, scarce, heq⟩) rfl
  | timeOverflow => exact quiet rfl rfl
  | started => exact absurd ⟨_, _, rfl⟩ hstart
  | placed =>
    -- the event has the tick of the handle, which is the one the bid was recorded at
    refine foldlM_cons_eq_ok_iff.2 ⟨_, if_pos rfl, rfl⟩
  | refunded hs _ hrefunds hclosed hs' =>
    refine (Replay.foldlM_refunds a.bindingTick hrefunds.draft.opens).trans ?_
    rw [told_eq hs, told_eq hs', hclosed.book]
  | committed hs =>
    rw [told_eq hs]
    rfl
  | uncounted _ hdraft hcount => exact absurd hcount (h.not_uncounted hdraft)
  | settled hs hsettles hclosed hs' =>
    rw [told_eq hs, told_eq hs', hclosed.book]
    exact Replay.foldlM_payments _ hsettles.draft.opens hsettles.scarce hsettles.base

/-! ## The result -/

/-- What a run announces leads from what the auction tells at its beginning to what it tells at its
end. -/
theorem Sound.replay_history {commands : List Command} (h : a.Sound) :
    (a.history commands).foldlM Replay.apply a.told = .ok (a.after commands).told := by
  induction commands generalizing a with
  | nil => rfl
  | cons command commands ih =>
    rw [history, List.foldlM_append, h.replay_step command]
    exact ih (h.outcome (step_outcome h.coherent command))

/-- As long as no event has been dropped, replaying the log gives the phase, the caps, the book with
every bid, the payout totals and the clearing point of the auction, over any ledger. So it never
fails, and every bid gets the handle that its event names. -/
theorem log_replays {config : Config} (hvalid : config.validate = .ok ()) (ledger : L)
    (commands : List Command)
    (hkept : ((create config ledger).after commands).log.nextId ≤ config.maxEvents + 1) :
    Replay.ofEvents ((create config ledger).after commands).log.events =
      .ok ((create config ledger).after commands).told := by
  have hsound := sound_create hvalid ledger
  have hshows : ((create config ledger).after commands).log.Shows config.maxEvents
      ([] ++ (create config ledger).history commands) :=
    hsound.log_shows (AuditLog.shows_empty config.maxEvents)
  rw [hshows.events_eq hkept, List.nil_append]
  exact hsound.replay_history

/-- The small auction with room for its eight events and no more: one of the start, three of bids,
one of the refund, one of the commitment and two of payments. -/
theorem small_log_replays :
    let config := { Config.standard with maxEvents := 8 }
    let last := (create config smallLedger).after (smallBidding ++ smallSettling)
    last.log.nextId = 9 ∧ last.told.totals.baseRetained ≠ 0 ∧
      Replay.ofEvents last.log.events = .ok last.told := by
  refine ⟨by decide +kernel, by decide +kernel, ?_⟩
  exact log_replays (by decide) smallLedger (smallBidding ++ smallSettling) (by decide +kernel)

end Auction

end BatchAuction
