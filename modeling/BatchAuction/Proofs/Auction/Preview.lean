import BatchAuction.Proofs.Auction.History
import BatchAuction.Proofs.Auction.Money
import BatchAuction.Proofs.Auction.Retry

/-!
# Settlements do what their previews say

A settlement begins with the plan that its preview shows. A preview that is refused says what the
settlement is refused for, before any move; after a preview that is not, nothing but the ledger can
stop the settlement (`Auction.settle_of_preview_ok`), whatever the policy in front of the ledger
does. And when it is done, its report is the one of the preview, and everything that has changed can
be read off this report: the payout totals, the book, the log and the balances
(`Auction.Receipt`).
-/

namespace BatchAuction

namespace Auction

open AssetLedger (performAll)
open Asset (base scarce)

section
variable {L : Type} [AssetLedger L] {a : Auction L} {owner : Account} {refs : List BidRef}
  {report : PayoutReport}

/-- After a preview only the ledger decides: if it performs the moves of the payouts, the settlement
reports what the preview showed, and if it refuses one of them, nothing else has changed. -/
theorem settle_of_preview_ok (hco : a.stage.Coherent)
    (h : a.previewSettle owner refs = .ok report) :
    (∃ a', performAll a.ledger (report.payouts.flatMap a.payoutMoves) = (.ok (), a'.ledger) ∧
        a.settle owner refs = (.ok report, a')) ∨
      ∃ e ledger, performAll a.ledger (report.payouts.flatMap a.payoutMoves) =
          (.error e, ledger) ∧
        a.settle owner refs = (.error (.ledger e), { a with ledger }) := by
  obtain ⟨⟨_, paid'⟩, hplan, rfl⟩ := map_eq_ok_iff.1 h
  rcases settle_cases hco hplan with ⟨ledger, hperform, hdone⟩ | ⟨e, ledger, hperform, hrefused⟩
  · refine .inl ⟨_, ?_, hdone⟩
    rw [hperform, withPaid, closing_eq]
  · exact .inr ⟨e, ledger, hperform, hrefused⟩

/-- What a settlement that is done has changed: the payout totals, the book and the log. -/
theorem settle_done {a' : Auction L} (hco : a.stage.Coherent)
    (h : a.settle owner refs = (.ok report, a')) :
    ∃ paid' ledger, a.planSettlement owner refs = .ok (report, paid') ∧
      performAll a.ledger (report.payouts.flatMap a.payoutMoves) = (.ok (), ledger) ∧
      ∀ caps c paid, a.stage = .finalized caps c paid →
        a' = { a with
          ledger
          stage := .finalized caps c paid'
          book := a.book.closeAll (report.payouts.map Payout.bid)
          log := a.log.emitAll a.config.maxEvents a.now
            (report.payouts.map (settledEvent owner)) } := by
  cases hplan : a.planSettlement owner refs with
  | error e =>
    rw [settle_of_plan_error hplan] at h
    cases h
  | ok plan =>
    obtain ⟨report', paid'⟩ := plan
    rcases settle_cases hco hplan with ⟨ledger, hperform, hdone⟩ | ⟨e, ledger, -, hrefused⟩
    · obtain ⟨hreport, ha'⟩ := Prod.mk.inj (h.symm.trans hdone)
      obtain rfl := Except.ok.inj hreport
      refine ⟨paid', ledger, rfl, hperform, fun caps c paid hs => ?_⟩
      simp only [ha', closing_eq, withPaid, hs]
      rfl
    · rw [hrefused] at h
      cases h

end

/-! ## What a report accounts for -/

variable {σ : Type} {a a' : Auction (GuardedLedger σ)} {owner : Account} {refs : List BidRef}
  {report : PayoutReport}

/-- A report accounts for everything that happened between two states: it pays the bids of some
handles in order what they are owed, with exact sums; by these sums the payout totals have grown;
those bids are closed and the others are as before; each has left an event; and the balances have
changed by the sums, those of one account taken together where it has several parts. -/
structure Receipt (a : Auction (GuardedLedger σ)) (owner : Account) (refs : List BidRef)
    (report : PayoutReport) (a' : Auction (GuardedLedger σ)) : Prop where
  /-- The bids paid are those of the handles, in order. -/
  handles : report.payouts.map Payout.bid = refs
  /-- Each was an active bid of the account, and is paid what it is owed. -/
  owed : ∃ c, a.commitment? = some c ∧ ∀ p ∈ report.payouts, p.depositor = owner ∧
    ∃ bid, a.book.get? p.bid = some bid ∧ bid.withdrawn = false ∧ bid.depositor = owner ∧
      c.amountsFor bid = .ok p.amounts
  /-- The sums of the report are exact. -/
  sums : Tallied report
  /-- The settings, the time and the intake are as before. -/
  frame : { a' with stage := a.stage, book := a.book, log := a.log, ledger := a.ledger } = a
  /-- So are the caps and the commitment. -/
  stage : a'.caps? = a.caps? ∧ a'.commitment? = a.commitment?
  /-- The scarce handed out has grown by the sum of the report. -/
  scarceDistributed : a'.scarceDistributed.toNat =
    a.scarceDistributed.toNat + report.totalFilledScarce.toNat
  /-- So has the base kept. -/
  baseRetained : a'.baseRetained.toNat = a.baseRetained.toNat + report.totalBaseCost.toNat
  /-- The book has changed by closing the bids. -/
  book : a'.book = a.book.closeAll refs
  /-- So exactly the handles listed find a closed bid where they found an active one. -/
  closed : ∀ ref, a'.book.get? ref =
    if ref ∈ refs then (a.book.get? ref).map Bid.close else a.book.get? ref
  /-- The log has one more event for each payout, in order, as far as its limit allows. -/
  log : a'.log =
    ⟨takeLast a.config.maxEvents (a.log.events ++
        Event.stamped a.log.nextId a.now (report.payouts.map (settledEvent owner))),
      a.log.nextId + refs.length⟩
  /-- Escrow has lost the refund and the cost, and the account and the proceeds have got them. -/
  base_balance : ∀ x, (a'.ledger.inner.balance x base).toNat +
      (if a.config.escrow = x then
        report.totalBaseRefund.toNat + report.totalBaseCost.toNat
      else 0) =
    (a.ledger.inner.balance x base).toNat +
      (if owner = x then report.totalBaseRefund.toNat else 0) +
      (if a.config.proceeds = x then report.totalBaseCost.toNat else 0)
  /-- The account has got the scarce. -/
  scarce_balance : ∀ x, (a'.ledger.inner.balance x scarce).toNat =
    (a.ledger.inner.balance x scarce).toNat +
      (if owner = x then report.totalFilledScarce.toNat else 0)

variable [RefusalPolicy σ]

/-- The report of a settlement that is done accounts for it. -/
theorem Sound.receipt {before : List Event} (h : a.Sound)
    (hlog : a.log.Shows a.config.maxEvents before)
    (hdone : a.settle owner refs = (.ok report, a')) : a.Receipt owner refs report a' := by
  obtain ⟨paid', ledger, hplan, hperform, hafter⟩ := settle_done h.coherent hdone
  obtain ⟨caps, c, paid, hs, hsettles⟩ := planSettlement_ok h.coherent hplan
  obtain ⟨hdraft, rfl, howner, hscarce, hbase⟩ := hsettles
  have hcommit := commitment?_of_finalized hs
  have hsums := h.tallied_plan hplan
  obtain ⟨-, hbalance⟩ := GuardedLedger.performFrom_ok hperform
  rw [hafter caps c paid hs]
  exact {
    handles := rfl
    owed := by
      refine ⟨c, hcommit, fun p hp => ⟨howner p hp, ?_⟩⟩
      obtain ⟨bid, hget, hactive, hdepositor, howed⟩ := hdraft.found p hp
      rw [owed_of_some hcommit] at howed
      exact ⟨bid, hget, hactive, hdepositor.symm.trans (howner p hp), howed⟩
    sums := hsums
    frame := rfl
    stage := by
      simp only [caps?, commitment?, hs]
      exact ⟨rfl, rfl⟩
    scarceDistributed := by
      simp only [scarceDistributed, hs, hsums.filled]
      exact hscarce
    baseRetained := by
      simp only [baseRetained, hs, hsums.cost]
      exact hbase
    book := rfl
    closed := fun ref => Book.get?_closeAll ref
    log := by
      rw [hlog.emitAll_eq, List.length_map, List.length_map]
    base_balance := fun x => by
      rw [hsums.refund, hsums.cost, ← paidTo_of_all howner]
      exact h.base_moved hdraft (hbalance x base)
    scarce_balance := fun x => by
      rw [hsums.filled, ← paidTo_of_all howner]
      exact h.scarce_moved hdraft (hbalance x scarce) }

/-- In every state that is attained, over a ledger of balances behind any policy, a preview and a
settlement of the same bids agree. If the preview is refused, the settlement is refused for the same
reason, and nothing has changed, the journal of the ledger included. If it is not, the ledger is
asked for the moves of the payouts; the settlement gives the same report, or the ledger refuses and
nothing but the ledger has changed. And what a settlement reports is what the preview showed, and
accounts for everything that has changed. -/
theorem preview_and_settle_agree (h : a.Attained) (owner : Account) (refs : List BidRef) :
    (∀ e, a.previewSettle owner refs = .error e → a.settle owner refs = (.error e, a)) ∧
    (∀ report, a.previewSettle owner refs = .ok report →
      (∃ a', performAll a.ledger (report.payouts.flatMap a.payoutMoves) = (.ok (), a'.ledger) ∧
          a.settle owner refs = (.ok report, a')) ∨
        ∃ e ledger, performAll a.ledger (report.payouts.flatMap a.payoutMoves) =
            (.error e, ledger) ∧
          a.settle owner refs = (.error (.ledger e), { a with ledger })) ∧
    ∀ report a', a.settle owner refs = (.ok report, a') →
      a.previewSettle owner refs = .ok report ∧ a.Receipt owner refs report a' := by
  refine ⟨fun e => settle_of_preview_error, fun report => settle_of_preview_ok h.coherent,
    fun report a' hdone => ?_⟩
  obtain ⟨paid', -, hplan, -⟩ := settle_done h.coherent hdone
  obtain ⟨before, hlog⟩ := h.exists_shows
  exact ⟨map_eq_ok_iff.2 ⟨_, hplan, rfl⟩, h.sound.receipt hlog hdone⟩

/-! ## The small auction with a pause -/

/-- The small auction after the commitment, while the issuance of scarce is paused. -/
def smallPaused : Auction (GuardedLedger (List RefusalRule)) := smallRuled [issuancePaused]

/-- The same after the pause. -/
def smallResumed : Auction (GuardedLedger (List RefusalRule)) := smallPaused.withPolicy []

/-- It is attained, for a run reaches it. -/
theorem smallPaused_attained : smallPaused.Attained :=
  Reachable.attained ⟨.standard, ⟨smallLedger, [issuancePaused], []⟩, smallBidding, by decide, rfl⟩

/-- It is attained by replacing the policy. -/
theorem smallResumed_attained : smallResumed.Attained :=
  smallPaused_attained.withLedger (smallPaused.ledger.withPolicy [])

/-- During the pause the winner has a preview, but the ledger refuses the settlement; after it the
settlement gives the report of the preview. To another bidder the bid is refused before any move. -/
theorem small_preview_and_settle_agree :
    ∃ report, smallPaused.previewSettle smallWinner [⟨smallHigh, 0⟩] = .ok report ∧
      (∃ e ledger, performAll smallPaused.ledger (report.payouts.flatMap smallPaused.payoutMoves) =
          (.error e, ledger) ∧
        smallPaused.settle smallWinner [⟨smallHigh, 0⟩] =
          (.error (.ledger e), { smallPaused with ledger })) ∧
      (∃ a', smallResumed.settle smallWinner [⟨smallHigh, 0⟩] = (.ok report, a') ∧
        smallResumed.Receipt smallWinner [⟨smallHigh, 0⟩] report a') ∧
      smallPaused.settle smallMarginal [⟨smallHigh, 0⟩] =
        (.error (.notBidOwner ⟨smallHigh, 0⟩ smallWinner smallMarginal), smallPaused) := by
  obtain ⟨-, hpaused, -⟩ :=
    preview_and_settle_agree smallPaused_attained smallWinner [⟨smallHigh, 0⟩]
  obtain ⟨-, -, hreceipt⟩ :=
    preview_and_settle_agree smallResumed_attained smallWinner [⟨smallHigh, 0⟩]
  obtain ⟨hother, -⟩ :=
    preview_and_settle_agree smallPaused_attained smallMarginal [⟨smallHigh, 0⟩]
  obtain ⟨report, hdone⟩ : ∃ report,
      (smallResumed.settle smallWinner [⟨smallHigh, 0⟩]).1 = .ok report :=
    isOk_iff.1 (by decide +kernel)
  obtain ⟨hpreview, hr⟩ := hreceipt report _ (Prod.ext hdone rfl)
  refine ⟨report, hpreview, ?_, ⟨_, Prod.ext hdone rfl, hr⟩, hother _ (by decide +kernel)⟩
  refine (hpaused report hpreview).resolve_left fun ⟨a', _, hpaid⟩ => ?_
  have hstopped : (smallPaused.settle smallWinner [⟨smallHigh, 0⟩]).1.isOk = false := by
    decide +kernel
  rw [hpaid] at hstopped
  cases hstopped

end Auction

end BatchAuction
