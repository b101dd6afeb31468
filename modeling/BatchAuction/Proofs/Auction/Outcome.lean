import BatchAuction.Auction.Command
import BatchAuction.Ledger.Memory
import BatchAuction.Proofs.Auction.Plan
import BatchAuction.Proofs.Clearing.Offer

/-!
# What a command can do

`Auction.Outcome a command response a'` lists the ways in which a command can end, with everything
that changes in each. Every step is one of them (`Auction.step_outcome`), so a property of all runs
is proved by going through the list once: `Auction.after_invariant`.

A refusal by the auction itself leaves the state as it was, and one by the ledger everything but the
ledger. Bids are closed in one way only (`Auction.Closed`), by refunds and by settlements alike. One
way to end is listed that no run ever takes: a refund whose sums overflow when its moves are made
(`Auction.Outcome.uncounted`).

Between two commands the ledger may be changed from outside (`Auction.Attained`). An outcome does
not depend on where its ledger comes from, so what does not speak about balances holds all the same.
-/

namespace BatchAuction

/-- The command closes bids if it succeeds. -/
def Command.ClosesBids : Command → Prop
  | .refundLosingBids _ => True
  | .settle _ _ => True
  | _ => False

/-- The account that a command places a bid for. -/
def Command.depositor? : Command → Option Account
  | .submitBid depositor _ _ => some depositor
  | _ => none

/-- The account and the offer of a bid that a command has placed. -/
def Command.accepted? : Command → Response → Option (Account × Offer)
  | .submitBid depositor tick amount, .recorded _ => some (depositor, ⟨tick, amount⟩)
  | _, _ => none

/-- An accepted bid is placed for the account that its command names. -/
theorem Command.depositor?_of_accepted? {command : Command} {response : Response} {x : Account}
    {o : Offer} (h : command.accepted? response = some (x, o)) : command.depositor? = some x := by
  unfold Command.accepted? at h
  split at h
  · cases h
    rfl
  · cases h

/-- A refused command has placed no bid. -/
theorem Command.accepted?_refused (command : Command) (e : AuctionError) :
    command.accepted? (.refused e) = none := by
  cases command <;> rfl

/-- And neither has one that answers nothing. -/
theorem Command.accepted?_done (command : Command) : command.accepted? .done = none := by
  cases command <;> rfl

/-- The account and the offer of a bid. -/
def Bid.placement (bid : Bid) : Account × Offer := (bid.depositor, bid.offer)

/-- The payouts that a response reports. -/
def Response.payouts : Response → List Payout
  | .reported report => report.payouts
  | _ => []

/-- A refused result is an error, if its answers are no refusals. -/
theorem Response.error_of_refused {α : Type} {answer : α → Response} {r : Except AuctionError α}
    {e : AuctionError} (h : ofResult answer r = .refused e) (hanswer : ∀ x, answer x ≠ .refused e) :
    r = .error e := by
  cases r with
  | error e' =>
    cases h
    rfl
  | ok x => exact absurd h (hanswer x)

namespace Auction

open AssetLedger (performAll transfer)

variable {L : Type}

section
variable (a : Auction L) (payload : EventPayload)

@[simp] theorem emit_config : (a.emit payload).config = a.config := rfl

@[simp] theorem emit_stage : (a.emit payload).stage = a.stage := rfl

@[simp] theorem emit_book : (a.emit payload).book = a.book := rfl

@[simp] theorem emit_ledger : (a.emit payload).ledger = a.ledger := rfl

@[simp] theorem emit_intake : (a.emit payload).intake = a.intake := rfl

end

/-- The moves that pay a payout at the present stage. -/
def payoutMoves (a : Auction L) (p : Payout) : List Move :=
  match a.commitment? with
  | none => refundMoves a.config p
  | some _ => settlementMoves a.config p.depositor p

variable [AssetLedger L]

/-- The ledger has performed the moves of some payouts, and their bids are closed. -/
structure Closed (a : Auction L) (payouts : List Payout) (a' : Auction L) : Prop where
  config : a'.config = a.config
  intake : a'.intake = a.intake
  book : a'.book = a.book.closeAll (payouts.map Payout.bid)
  ledger : performAll a.ledger (payouts.flatMap a.payoutMoves) = (.ok (), a'.ledger)

/-- How a command can end. -/
inductive Outcome (a : Auction L) : Command → Response → Auction L → Prop
  /-- The auction itself refuses. -/
  | refused {command : Command} {e : AuctionError} : e.Own → Outcome a command (.refused e) a
  /-- The ledger refuses to take the amount of a bid into escrow. -/
  | unpaid {depositor : Account} {tick : Tick} {amount : Amount} {e : LedgerError} {ledger : L} :
      transfer a.ledger depositor a.config.escrow .base amount = (.error e, ledger) →
      Outcome a (.submitBid depositor tick amount) (.refused (.ledger e)) { a with ledger }
  /-- The ledger refuses a move of a batch. -/
  | undone {command : Command} {payouts : List Payout} {e : LedgerError} {ledger : L} :
      command.ClosesBids → a.Draft payouts →
      performAll a.ledger (payouts.flatMap a.payoutMoves) = (.error e, ledger) →
      Outcome a command (.refused (.ledger e)) { a with ledger }
  /-- The clock is set. -/
  | clock {command : Command} (now : Timestamp) : Outcome a command .done (a.setTime now)
  /-- The clock would leave its range. -/
  | timeOverflow {millis : Int} : Outcome a (.advanceTime millis) .timeOverflow a
  /-- The caps are fixed. -/
  | started {base scarce : Amount} {caps : Caps} :
      a.stage = .notStarted → checkCaps base scarce = .ok caps →
      Outcome a (.start base scarce) .done
        ({ a with stage := .bidding caps }.emit (.auctionStarted caps))
  /-- A bid is paid and recorded. -/
  | placed {depositor : Account} {tick : Tick} {amount : Amount} {intake : Totals} {ledger : L} :
      a.checkBid tick amount = .ok intake →
      transfer a.ledger depositor a.config.escrow .base amount = (.ok (), ledger) →
      Outcome a (.submitBid depositor tick amount)
        (.recorded (a.book.record tick depositor amount a.now).1)
        ({ a with ledger, intake, book := (a.book.record tick depositor amount a.now).2 }.emit
          (.bidSubmitted (a.book.record tick depositor amount a.now).1 depositor amount))
  /-- Losing bids are refunded. -/
  | refunded {refs : List BidRef} {caps : Caps} {clearing : ClearingResult}
      {report : PayoutReport} {a' : Auction L} :
      a.stage = .bidding caps → a.book.clearing caps = .ok clearing →
      a.Refunds clearing refs report.payouts → a.Closed report.payouts a' →
      a'.stage = .bidding caps → Outcome a (.refundLosingBids refs) (.reported report) a'
  /-- The clearing point is committed. -/
  | committed {caps : Caps} {c : Commitment} :
      a.stage = .bidding caps → a.book.commitment? caps = .ok (some c) →
      Outcome a .finalize (.committed c)
        ({ a with stage := .finalized caps c .zero }.emit (finalizedEvent c))
  /-- The sums of a refund overflow when its moves are made, and some of its bids are closed. -/
  | uncounted {refs : List BidRef} {caps : Caps} {payouts done : List Payout} {e : AuctionError}
      {a' : Auction L} :
      a.stage = .bidding caps → a.Draft payouts → payouts.foldlM addPayout .empty = .error e →
      done <+: payouts → a'.config = a.config → a'.stage = a.stage →
      a'.book = a.book.closeAll (done.map Payout.bid) →
      Outcome a (.refundLosingBids refs) (.refused e) a'
  /-- Bids are paid. -/
  | settled {owner : Account} {refs : List BidRef} {caps : Caps} {c : Commitment}
      {paid paid' : PayoutTotals} {report : PayoutReport} {a' : Auction L} :
      a.stage = .finalized caps c paid → a.Settles owner paid refs report.payouts paid' →
      a.Closed report.payouts a' → a'.stage = .finalized caps c paid' →
      Outcome a (.settle owner refs) (.reported report) a'

variable {a a' : Auction L}

/-- The settings never change. -/
theorem Outcome.config_eq {command : Command} {response : Response}
    (h : a.Outcome command response a') : a'.config = a.config := by
  cases h with
  | refunded _ _ _ hclosed => exact hclosed.config
  | settled _ _ hclosed => exact hclosed.config
  | uncounted _ _ _ _ hconfig => exact hconfig
  | _ => rfl

/-- The caps never change once they are fixed. -/
theorem Outcome.caps?_eq {command : Command} {response : Response} {caps : Caps}
    (ho : a.Outcome command response a') (h : a.caps? = some caps) : a'.caps? = some caps := by
  cases ho with
  | started hs =>
    rw [caps?, hs] at h
    cases h
  | refunded hs _ _ _ hs' | settled hs _ _ hs' =>
    rw [caps?, hs] at h
    rwa [caps?, hs']
  | committed hs => rwa [caps?, hs] at h
  | uncounted _ _ _ _ _ hs' =>
    rw [caps?, hs']
    exact h
  | _ => exact h

/-- The phase and the records go on to agree. -/
theorem Outcome.coherent {command : Command} {response : Response}
    (ho : a.Outcome command response a') (h : a.stage.Coherent) : a'.stage.Coherent := by
  cases ho with
  | started => exact .bidding _
  | refunded _ _ _ _ hs' =>
    rw [hs']
    exact .bidding _
  | committed => exact .finalized _ _ _
  | uncounted _ _ _ _ _ hs' =>
    rw [hs']
    exact h
  | settled _ _ _ hs' =>
    rw [hs']
    exact .finalized _ _ _
  | _ => exact h

/-- The book keeps the account and the offer of every bid, and gets those of the accepted one. -/
theorem Outcome.placements_perm {command : Command} {response : Response}
    (ho : a.Outcome command response a') :
    (a'.book.bids.map Bid.placement).Perm
      ((command.accepted? response).toList ++ a.book.bids.map Bid.placement) := by
  have closing {payouts : List Payout} (hd : a.Draft payouts) :
      (a.book.closeAll (payouts.map Payout.bid)).bids.map Bid.placement =
        a.book.bids.map Bid.placement :=
    Book.map_bids_closeAll Bid.placement (fun _ => rfl) hd.opens
  cases ho with
  | @placed depositor tick amount =>
    exact (a.book.bids_record_perm tick depositor amount a.now).map Bid.placement
  | refunded _ _ hrefunds hclosed =>
    rw [hclosed.book, closing hrefunds.draft]
    exact .refl _
  | settled _ hsettles hclosed =>
    rw [hclosed.book, closing hsettles.draft]
    exact .refl _
  | uncounted _ hdraft _ hdone _ _ hbook =>
    rw [hbook, closing (hdraft.of_prefix hdone)]
    exact .refl _
  | refused | undone =>
    rw [command.accepted?_refused]
    exact .refl _
  | clock =>
    rw [command.accepted?_done]
    exact .refl _
  | _ => exact .refl _

/-- If an account has no bid afterwards, it had none before and has placed none. -/
theorem Outcome.depositor_ne {command : Command} {response : Response} {x : Account}
    (ho : a.Outcome command response a') (h : ∀ bid ∈ a'.book.bids, bid.depositor ≠ x) :
    (∀ o, command.accepted? response ≠ some (x, o)) ∧
      ∀ bid ∈ a.book.bids, bid.depositor ≠ x := by
  have hnone : ∀ q ∈ (command.accepted? response).toList ++ a.book.bids.map Bid.placement,
      q.1 ≠ x := by
    intro q hq
    obtain ⟨bid, hbid, rfl⟩ := List.mem_map.1 (ho.placements_perm.mem_iff.2 hq)
    exact h bid hbid
  refine ⟨fun o ho' => ?_, fun bid hbid => ?_⟩
  · exact hnone (x, o) (List.mem_append_left _ (Option.mem_toList.2 ho')) rfl
  · exact hnone bid.placement (List.mem_append_right _ (List.mem_map_of_mem hbid))

/-! ## Every step is listed -/

section
omit [AssetLedger L]
variable {note : PayoutReport → Payout → Except AuctionError PayoutReport}
  (event : Payout → EventPayload) {payouts : List Payout}

/-- The auction after the bids of some payouts are closed, with an event for each. -/
def closing (a : Auction L) (event : Payout → EventPayload) (payouts : List Payout) : Auction L :=
  payouts.foldl (fun a p => { a with book := a.book.close p.bid }.emit (event p)) a

/-- Closing bids changes nothing but the book and the log. -/
theorem closing_spec (payouts : List Payout) :
    ∀ a : Auction L, (a.closing event payouts).config = a.config ∧
      (a.closing event payouts).intake = a.intake ∧
      (a.closing event payouts).stage = a.stage ∧
      (a.closing event payouts).ledger = a.ledger ∧
      (a.closing event payouts).book = a.book.closeAll (payouts.map Payout.bid) := by
  induction payouts with
  | nil => exact fun _ => ⟨rfl, rfl, rfl, rfl, rfl⟩
  | cons p payouts ih => exact fun _ => ih _

/-- Bids that are active can be closed one after the other. -/
theorem closeBids_ok :
    ∀ {a : Auction L} {report report' : PayoutReport}, a.book.Open Payout.bid payouts →
      payouts.foldlM note report = .ok report' →
      closeBids note event a report payouts = (.ok report', a.closing event payouts) := by
  induction payouts with
  | nil =>
    intro a report report' _ hnote
    cases hnote
    rfl
  | cons p payouts ih =>
    intro a report report' ho hnote
    obtain ⟨r, hr, hnote⟩ := foldlM_cons_eq_ok_iff.1 hnote
    obtain ⟨bid, hget, hactive⟩ := ho.found p List.mem_cons_self
    simp only [closeBids, Book.withdraw_of_active hget hactive, hr]
    exact ih ho.tail hnote

/-- If a payout cannot be taken in, its bid and those before it are closed when that is found. -/
theorem closeBids_error {e : AuctionError} :
    ∀ {a : Auction L} {report : PayoutReport}, a.book.Open Payout.bid payouts →
      payouts.foldlM note report = .error e →
      ∃ done a', done <+: payouts ∧ closeBids note event a report payouts = (.error e, a') ∧
        a'.config = a.config ∧ a'.stage = a.stage ∧
        a'.book = a.book.closeAll (done.map Payout.bid) := by
  induction payouts with
  | nil =>
    intro a report _ hnote
    cases hnote
  | cons p payouts ih =>
    intro a report ho hnote
    obtain ⟨bid, hget, hactive⟩ := ho.found p List.mem_cons_self
    simp only [closeBids, Book.withdraw_of_active hget hactive]
    rcases foldlM_cons_eq_error_iff.1 hnote with hp | ⟨r, hr, hnote⟩
    · rw [hp]
      exact ⟨[p], _, ⟨payouts, rfl⟩, rfl, rfl, rfl, rfl⟩
    · rw [hr]
      obtain ⟨done, a', hdone, hclose, hconfig, hstage, hbook⟩ :=
        ih (a := { a with book := a.book.close p.bid }.emit (event p)) ho.tail hnote
      exact ⟨p :: done, a', List.cons_prefix_cons.2 ⟨rfl, hdone⟩, hclose, hconfig, hstage, hbook⟩

/-- Taking in nothing never fails. -/
theorem foldlM_keep (report : PayoutReport) :
    payouts.foldlM (fun report _ => (.ok report : Except AuctionError PayoutReport)) report =
      .ok report := by
  induction payouts with
  | nil => rfl
  | cons p payouts ih => exact ih

end

/-- A batch is either performed, and its bids can be closed, or only the ledger has changed. -/
theorem execute_cases {moves : List Move}
    {note : PayoutReport → Payout → Except AuctionError PayoutReport}
    {event : Payout → EventPayload} {report : PayoutReport} {payouts : List Payout}
    (hmoves : moves = payouts.flatMap a.payoutMoves) :
    (∃ ledger, performAll a.ledger (payouts.flatMap a.payoutMoves) = (.ok (), ledger) ∧
        a.execute moves note event report payouts =
          closeBids note event { a with ledger } report payouts) ∨
      ∃ e ledger, performAll a.ledger (payouts.flatMap a.payoutMoves) = (.error e, ledger) ∧
        a.execute moves note event report payouts = (.error (.ledger e), { a with ledger }) := by
  subst hmoves
  unfold execute
  split
  · rename_i e ledger hperform
    exact .inr ⟨e, ledger, hperform, rfl⟩
  · rename_i ledger hperform
    exact .inl ⟨ledger, hperform, rfl⟩

/-- When the moves are made and the bids are closed, the batch is closed. -/
theorem closed_closing {ledger : L} (event : Payout → EventPayload) {payouts : List Payout}
    (h : performAll a.ledger (payouts.flatMap a.payoutMoves) = (.ok (), ledger)) :
    a.Closed payouts ({ a with ledger }.closing event payouts) ∧
      ({ a with ledger }.closing event payouts).stage = a.stage := by
  obtain ⟨hconfig, hintake, hstage, hledger, hbook⟩ :=
    closing_spec event payouts { a with ledger }
  exact ⟨⟨hconfig, hintake, hbook, by rw [hledger, h]⟩, hstage⟩

/-- What the plan of a refund is refused for, the refund is refused for, before any move. -/
theorem refund_of_plan_error {refs : List BidRef} {e : AuctionError}
    (h : a.planRefunds refs = .error e) : a.refundLosingBids refs = (.error e, a) := by
  unfold refundLosingBids
  rw [h]

/-- What the plan of a settlement is refused for, the settlement is refused for, before any move. -/
theorem settle_of_plan_error {owner : Account} {refs : List BidRef} {e : AuctionError}
    (h : a.planSettlement owner refs = .error e) : a.settle owner refs = (.error e, a) := by
  unfold settle
  rw [h]

/-- What a preview refuses, the settlement refuses for the same reason. -/
theorem settle_of_preview_error {owner : Account} {refs : List BidRef} {e : AuctionError}
    (h : a.previewSettle owner refs = .error e) : a.settle owner refs = (.error e, a) :=
  settle_of_plan_error (map_eq_error_iff.1 h)

/-- A refund ends in one of the outcomes. -/
theorem refundLosingBids_outcome (hco : a.stage.Coherent) (refs : List BidRef) :
    a.Outcome (.refundLosingBids refs) (.ofResult .reported (a.refundLosingBids refs).1)
      (a.refundLosingBids refs).2 := by
  unfold refundLosingBids
  split
  · rename_i e hplan
    exact .refused (planRefunds_error hplan)
  · rename_i clearing payouts hplan
    obtain ⟨caps, hstage, hclearing, hrefunds⟩ := planRefunds_ok hco hplan
    have hmoves : payouts.flatMap (refundMoves a.config) = payouts.flatMap a.payoutMoves := by
      congr 1
      funext p
      rw [payoutMoves, commitment?_of_bidding hstage]
    simp only
    rcases execute_cases hmoves with ⟨ledger, hperform, hexec⟩ | ⟨e, ledger, hperform, hexec⟩
    · rw [hexec]
      have hopens : { a with ledger }.book.Open Payout.bid payouts := hrefunds.draft.opens
      cases hcount : payouts.foldlM addPayout .empty with
      | ok report =>
        rw [closeBids_ok _ hopens hcount]
        obtain rfl : report.payouts = payouts := foldlM_addPayout_ok hcount
        obtain ⟨hclosed, hstage'⟩ := closed_closing _ hperform
        exact .refunded hstage hclearing hrefunds hclosed (hstage'.trans hstage)
      | error e =>
        obtain ⟨done, a', hdone, hclose, hconfig, hstage', hbook⟩ :=
          closeBids_error _ hopens hcount
        rw [hclose]
        exact .uncounted hstage hrefunds.draft hcount hdone hconfig hstage' hbook
    · rw [hexec]
      exact .undone trivial hrefunds.draft hperform

/-- A settlement that is planned depends on the ledger only. -/
theorem settle_cases {owner : Account} {refs : List BidRef} {report : PayoutReport}
    {paid' : PayoutTotals} (hco : a.stage.Coherent)
    (hplan : a.planSettlement owner refs = .ok (report, paid')) :
    (∃ ledger, performAll a.ledger (report.payouts.flatMap a.payoutMoves) = (.ok (), ledger) ∧
        a.settle owner refs = (.ok report,
          ({ a with ledger }.closing (fun p => .bidSettled p.bid owner p.amounts)
            report.payouts).withPaid paid')) ∨
      ∃ e ledger, performAll a.ledger (report.payouts.flatMap a.payoutMoves) = (.error e, ledger) ∧
        a.settle owner refs = (.error (.ledger e), { a with ledger }) := by
  obtain ⟨caps, c, paid, hstage, hsettles⟩ := planSettlement_ok hco hplan
  have hmoves : report.payouts.flatMap (settlementMoves a.config owner) =
      report.payouts.flatMap a.payoutMoves := by
    refine List.flatMap_congr fun p hp => ?_
    rw [payoutMoves, commitment?_of_finalized hstage, hsettles.owner p hp]
  unfold settle
  rw [hplan]
  simp only
  rcases execute_cases hmoves with ⟨ledger, hperform, hexec⟩ | ⟨e, ledger, hperform, hexec⟩
  · have hopens : { a with ledger }.book.Open Payout.bid report.payouts := hsettles.draft.opens
    refine .inl ⟨ledger, hperform, ?_⟩
    rw [hexec, closeBids_ok _ hopens (foldlM_keep report)]
  · refine .inr ⟨e, ledger, hperform, ?_⟩
    rw [hexec]

/-- A settlement ends in one of the outcomes. -/
theorem settle_outcome (hco : a.stage.Coherent) (owner : Account) (refs : List BidRef) :
    a.Outcome (.settle owner refs) (.ofResult .reported (a.settle owner refs).1)
      (a.settle owner refs).2 := by
  cases hplan : a.planSettlement owner refs with
  | error e =>
    rw [settle_of_plan_error hplan]
    exact .refused (planSettlement_error hplan)
  | ok plan =>
    obtain ⟨report, paid'⟩ := plan
    obtain ⟨caps, c, paid, hstage, hsettles⟩ := planSettlement_ok hco hplan
    rcases settle_cases hco hplan with ⟨ledger, hperform, hsettle⟩ | ⟨e, ledger, hperform, hsettle⟩
    · rw [hsettle]
      obtain ⟨hclosed, hstage'⟩ := closed_closing (fun p => .bidSettled p.bid owner p.amounts)
        hperform
      generalize { a with ledger }.closing _ report.payouts = a' at hclosed hstage'
      have hpaid : a'.withPaid paid' = { a' with stage := .finalized caps c paid' } := by
        rw [withPaid, hstage', hstage, Stage.pay_finalized]
      show a.Outcome _ (.reported report) (a'.withPaid paid')
      rw [hpaid]
      exact .settled hstage hsettles
        ⟨hclosed.config, hclosed.intake, hclosed.book, hclosed.ledger⟩ rfl
    · rw [hsettle]
      exact .undone trivial hsettles.draft hperform

section
omit [AssetLedger L]

/-- Why a bid is not accepted before money moves. -/
theorem checkBid_error_cases {tick : Tick} {amount : Amount} {e : AuctionError}
    (h : a.checkBid tick amount = .error e) :
    (a.phase ≠ .bidding ∧ e = a.refuse .submitBid .notOpen) ∨ e.Plain := by
  rcases bind_eq_error_iff.1 h with h | ⟨-, -, h⟩
  · exact .inl (requirePhase_eq_error_iff.1 h)
  · refine .inr ?_
    split at h
    · cases h
      exact trivial
    · rcases bind_eq_error_iff.1 h with h | ⟨p, -, h⟩
      · obtain ⟨e', -, rfl⟩ := mapError_eq_error_iff.1 h
        exact trivial
      · unfold intakeAfter at h
        split at h
        · cases h
          exact trivial
        · rcases bind_eq_error_iff.1 h with h | ⟨t, -, h⟩
          · obtain ⟨e', -, rfl⟩ := mapError_eq_error_iff.1 h
            exact trivial
          · split at h
            · cases h
              exact trivial
            · cases h

/-- Caps are refused for their size. -/
theorem checkCaps_error {base scarce : Amount} {e : AuctionError}
    (h : checkCaps base scarce = .error e) : e.Plain := by
  unfold checkCaps at h
  split at h
  · cases h
    exact trivial
  · split at h
    · cases h
      exact trivial
    · split at h
      · cases h
        exact trivial
      · cases h

/-- Why an auction cannot be started. -/
theorem planStart_error_cases {base scarce : Amount} {e : AuctionError}
    (h : a.planStart base scarce = .error e) :
    (a.phase ≠ .notStarted ∧ e = a.refuse .start .alreadyStarted) ∨ e.Plain := by
  rcases bind_eq_error_iff.1 h with h | ⟨-, -, h⟩
  · exact .inl (requirePhase_eq_error_iff.1 h)
  · exact .inr (checkCaps_error h)

/-- What the plan of a start is refused for, the start is refused for. -/
theorem start_of_plan_error {base scarce : Amount} {e : AuctionError}
    (h : a.planStart base scarce = .error e) : a.start base scarce = (.error e, a) := by
  unfold start
  rw [h]

/-- An auction that can be started has not been, and the caps are within bounds. -/
theorem planStart_ok {base scarce : Amount} {caps : Caps} (hco : a.stage.Coherent)
    (h : a.planStart base scarce = .ok caps) :
    a.stage = .notStarted ∧ checkCaps base scarce = .ok caps := by
  obtain ⟨⟨⟩, hphase, hcaps⟩ := bind_eq_ok_iff.1 h
  exact ⟨hco.phase_eq_notStarted_iff.1 (requirePhase_eq_ok_iff.1 hphase), hcaps⟩

/-- What is committed is the commitment of the present book under the caps. -/
theorem planCommitment_ok {c : Commitment} (hco : a.stage.Coherent)
    (h : a.planCommitment = .ok c) :
    ∃ caps, a.stage = .bidding caps ∧ a.book.commitment? caps = .ok (some c) := by
  obtain ⟨⟨⟩, hphase, h⟩ := bind_eq_ok_iff.1 h
  obtain ⟨caps, hcaps, h⟩ := bind_eq_ok_iff.1 h
  obtain ⟨found, hfound, h⟩ := bind_eq_ok_iff.1 h
  obtain ⟨caps', hstage⟩ := hco.phase_eq_bidding_iff.1 (requirePhase_eq_ok_iff.1 hphase)
  have hfixed : a.caps? = some caps := require_eq_ok_iff.1 hcaps
  obtain rfl : caps = caps' := Option.some.inj (hfixed.symm.trans (caps?_of_bidding hstage))
  obtain rfl := require_eq_ok_iff.1 h
  exact ⟨caps, hstage, mapError_eq_ok_iff.1 hfound⟩

/-- While bids are accepted, the commitment of the book is the one that can be made. -/
theorem planCommitment_of_bidding {caps : Caps} {c : Commitment} (hs : a.stage = .bidding caps)
    (hc : a.book.commitment? caps = .ok (some c)) : a.planCommitment = .ok c := by
  have hphase : a.phase = .bidding := by rw [phase, hs]; rfl
  have hcaps : a.requireCaps .finalize = .ok caps := require_eq_ok_iff.2 (caps?_of_bidding hs)
  refine bind_eq_ok_iff.2 ⟨(), requirePhase_eq_ok_iff.2 hphase, bind_eq_ok_iff.2 ⟨caps, hcaps, ?_⟩⟩
  exact bind_eq_ok_iff.2 ⟨some c, mapError_eq_ok_iff.2 hc, require_eq_ok_iff.2 rfl⟩

/-- The end of bidding answers with the planned commitment. -/
theorem finalize_eq_ok_iff {c : Commitment} : a.finalize.1 = .ok c ↔ a.planCommitment = .ok c := by
  unfold finalize
  split <;> rename_i hplan <;> rw [hplan]

/-- So it is the commitment of the present book under the caps. -/
theorem finalize_ok {c : Commitment} (hco : a.stage.Coherent) (h : a.finalize.1 = .ok c) :
    ∃ caps, a.stage = .bidding caps ∧ a.book.commitment? caps = .ok (some c) :=
  planCommitment_ok hco (finalize_eq_ok_iff.1 h)

/-- Why the clearing point cannot be committed. -/
theorem planCommitment_error_cases {e : AuctionError} (h : a.planCommitment = .error e) :
    (a.phase ≠ .bidding ∧ e = a.refuse .finalize .notOpen) ∨
      (a.phase = .bidding ∧ a.caps? = none ∧ e = a.refuse .finalize .notStarted) ∨
      (∃ caps, a.phase = .bidding ∧ a.caps? = some caps ∧ a.book.commitment? caps = .ok none ∧
        e = a.refuse .finalize .noBids) ∨ e.Plain := by
  rcases bind_eq_error_iff.1 h with h | ⟨⟨⟩, hphase, h⟩
  · exact .inl (requirePhase_eq_error_iff.1 h)
  · have hp := requirePhase_eq_ok_iff.1 hphase
    rcases bind_eq_error_iff.1 h with h | ⟨caps, hcaps, h⟩
    · exact .inr (.inl ⟨hp, require_eq_error_iff.1 h⟩)
    · rcases bind_eq_error_iff.1 h with h | ⟨found, hfound, h⟩
      · obtain ⟨e', -, rfl⟩ := mapError_eq_error_iff.1 h
        exact .inr (.inr (.inr (AuctionError.plain_ofPricing e')))
      · obtain ⟨rfl, he⟩ := require_eq_error_iff.1 h
        exact .inr (.inr (.inl
          ⟨caps, hp, require_eq_ok_iff.1 hcaps, mapError_eq_ok_iff.1 hfound, he⟩))

/-- What the plan of a commitment is refused for, the commitment is refused for. -/
theorem finalize_of_plan_error {e : AuctionError} (h : a.planCommitment = .error e) :
    a.finalize = (.error e, a) := by
  unfold finalize
  rw [h]

end

/-- What a bid is checked for and refused, it is refused for, before any move. -/
theorem submitBid_of_check_error {depositor : Account} {tick : Tick} {amount : Amount}
    {e : AuctionError} (h : a.checkBid tick amount = .error e) :
    a.submitBid depositor tick amount = (.error e, a) := by
  unfold submitBid
  rw [h]

/-- A bid ends in one of the outcomes. -/
theorem submitBid_outcome (a : Auction L) (depositor : Account) (tick : Tick) (amount : Amount) :
    a.Outcome (.submitBid depositor tick amount)
      (.ofResult .recorded (a.submitBid depositor tick amount).1)
      (a.submitBid depositor tick amount).2 := by
  unfold submitBid
  split
  · rename_i e hcheck
    refine .refused ?_
    rcases checkBid_error_cases hcheck with ⟨-, rfl⟩ | hplain
    · exact trivial
    · exact hplain.own
  · rename_i intake hcheck
    split
    · rename_i e ledger htransfer
      exact .unpaid htransfer
    · rename_i ledger htransfer
      exact .placed hcheck htransfer

/-- A start ends in one of the outcomes. -/
theorem start_outcome (hco : a.stage.Coherent) (base scarce : Amount) :
    a.Outcome (.start base scarce) (.ofResult (fun _ => .done) (a.start base scarce).1)
      (a.start base scarce).2 := by
  unfold start
  split
  · rename_i e hplan
    refine .refused ?_
    rcases planStart_error_cases hplan with ⟨-, rfl⟩ | hplain
    · exact trivial
    · exact hplain.own
  · rename_i caps hplan
    obtain ⟨hstage, hcaps⟩ := planStart_ok hco hplan
    rw [hstage]
    exact .started hstage hcaps

/-- The end of bidding is one of the outcomes, or does not come. -/
theorem finalize_outcome (hco : a.stage.Coherent) :
    a.Outcome .finalize (.ofResult .committed a.finalize.1) a.finalize.2 := by
  unfold finalize
  split
  · rename_i e hplan
    refine .refused ?_
    rcases planCommitment_error_cases hplan with ⟨-, rfl⟩ | ⟨-, -, rfl⟩ | ⟨-, -, -, -, rfl⟩ | hplain
    · exact trivial
    · exact trivial
    · exact trivial
    · exact hplain.own
  · rename_i c hplan
    obtain ⟨caps, hstage, hc⟩ := planCommitment_ok hco hplan
    rw [hstage]
    exact .committed hstage hc

/-- Every step is one of the outcomes. -/
theorem step_outcome (hco : a.stage.Coherent) (command : Command) :
    a.Outcome command (a.step command).1 (a.step command).2 := by
  cases command with
  | start base scarce => exact start_outcome hco base scarce
  | submitBid depositor tick amount => exact submitBid_outcome a depositor tick amount
  | refundLosingBids refs => exact refundLosingBids_outcome hco refs
  | finalize => exact finalize_outcome hco
  | settle owner refs => exact settle_outcome hco owner refs
  | setTime now => exact .clock now
  | advanceTime millis =>
    simp only [step]
    split
    · rename_i a' ha
      obtain ⟨now, -, rfl⟩ := Option.map_eq_some_iff.1 ha
      exact .clock now
    · exact .timeOverflow

/-- A command leaves the phase and the records in agreement. -/
theorem coherent_step (hco : a.stage.Coherent) (command : Command) :
    (a.step command).2.stage.Coherent :=
  (step_outcome hco command).coherent hco

/-! ## Runs -/

@[simp] theorem after_nil : a.after [] = a := rfl

@[simp] theorem after_cons (command : Command) (commands : List Command) :
    a.after (command :: commands) = (a.step command).2.after commands := rfl

/-- Commands can be performed in two parts. -/
theorem after_append (commands more : List Command) :
    a.after (commands ++ more) = (a.after commands).after more := by
  induction commands generalizing a with
  | nil => rfl
  | cons command commands ih => exact ih

/-- What every outcome of the commands keeps holds after all of them. -/
theorem after_invariant {P : Auction L → Prop} {commands : List Command} (hco : a.stage.Coherent)
    (hkeep : ∀ {b command response b'}, command ∈ commands → b.Outcome command response b' →
      P b → P b') (h : P a) : P (a.after commands) := by
  induction commands generalizing a with
  | nil => exact h
  | cons command commands ih =>
    exact ih (coherent_step hco command) (fun hc => hkeep (List.mem_cons_of_mem _ hc))
      (hkeep List.mem_cons_self (step_outcome hco command) h)

/-- The phase and the records agree after any commands. -/
theorem coherent_after (hco : a.stage.Coherent) (commands : List Command) :
    (a.after commands).stage.Coherent :=
  after_invariant (P := fun b => b.stage.Coherent) hco (fun _ ho hb => ho.coherent hb) hco

/-! ## Changes of the ledger from outside -/

/-- A state that is attained by commands, where the ledger may be changed from outside between any
two of them: funds come in and go out, and a policy is replaced. -/
inductive Attained : Auction L → Prop
  | create {config : Config} (ledger : L) :
      config.validate = .ok () → Attained (create config ledger)
  | step {a : Auction L} (command : Command) : Attained a → Attained (a.step command).2
  | withLedger {a : Auction L} (ledger : L) : Attained a → Attained { a with ledger }

/-- A run from an attained state attains its last state. -/
theorem Attained.after {commands : List Command} (h : a.Attained) :
    (a.after commands).Attained := by
  induction commands generalizing a with
  | nil => exact h
  | cons command commands ih => exact ih (h.step command)

/-- In every state that is attained the phase and the records agree. -/
theorem Attained.coherent (h : a.Attained) : a.stage.Coherent := by
  induction h with
  | create => exact .notStarted
  | step command _ ih => exact coherent_step ih command
  | withLedger _ _ ih => exact ih

/-- The states that runs reach are attained without any such change. -/
theorem Reachable.attained (h : a.Reachable) : a.Attained := by
  obtain ⟨config, ledger, commands, hvalid, rfl⟩ := h
  exact (Attained.create ledger hvalid).after

/-! ## A small auction

Three bids under caps of 100, the lowest of which is refunded before the end. The other two are paid
one after the other. -/

/-- The bidder who is refunded. -/
def smallLoser : Account := ⟨1, by decide⟩

/-- The bidder at the clearing tick. -/
def smallMarginal : Account := ⟨2, by decide⟩

/-- The bidder above the clearing tick. -/
def smallWinner : Account := ⟨3, by decide⟩

/-- The tick of the refunded bid. -/
def smallLow : Tick := ⟨-10, by decide, by decide⟩

/-- The tick of the winner. -/
def smallHigh : Tick := ⟨10, by decide, by decide⟩

/-- Three accounts with some base. -/
def smallLedger : MemoryLedger :=
  ((MemoryLedger.empty.withBalance smallLoser .base 100).withBalance smallMarginal
    .base 100).withBalance smallWinner .base 100

/-- The bids, the refund and the commitment. -/
def smallBidding : List Command :=
  [.start 100 100, .submitBid smallLoser smallLow 5, .submitBid smallMarginal .zero 60,
   .submitBid smallWinner smallHigh 70, .refundLosingBids [⟨smallLow, 0⟩], .finalize]

/-- The two settlements. -/
def smallSettling : List Command :=
  [.settle smallWinner [⟨smallHigh, 0⟩], .settle smallMarginal [⟨.zero, 0⟩]]

/-- The state after the three bids. -/
def smallOpen : Auction MemoryLedger := (create .standard smallLedger).after (smallBidding.take 4)

/-- A run reaches the state after the three bids. -/
theorem smallOpen_reachable : smallOpen.Reachable :=
  ⟨.standard, smallLedger, smallBidding.take 4, by decide, rfl⟩

/-- The state after the commitment. -/
def smallCleared : Auction MemoryLedger := (create .standard smallLedger).after smallBidding

/-- A run reaches the state after the commitment. -/
theorem smallCleared_reachable : smallCleared.Reachable :=
  ⟨.standard, smallLedger, smallBidding, by decide, rfl⟩

/-- The state after all of them. -/
def small : Auction MemoryLedger :=
  (create .standard smallLedger).after (smallBidding ++ smallSettling)

/-- And a run reaches the last state. -/
theorem small_reachable : small.Reachable :=
  ⟨.standard, smallLedger, smallBidding ++ smallSettling, by decide, rfl⟩

end Auction

end BatchAuction
