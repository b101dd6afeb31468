import BatchAuction.Auction.Command
import BatchAuction.Proofs.Ledger.Bisimulation

/-!
# What an auction sees of its ledger

An auction asks its ledger for moves and looks at nothing but the answers. So if two ledgers, of
whatever kinds, give the same answers to the same moves for ever (`AssetLedger.Bisimulation`), the
auctions over them cannot be told apart: every run gives the same responses and ends in the same
state but for the ledger (`Auction.run_alike`). `Auction.Alike` says so of a result.
-/

namespace BatchAuction

variable {L M : Type}

namespace Auction

open AssetLedger (Bisimulation)

/-- The same auction over another ledger. -/
def onLedger (a : Auction L) (ledger : M) : Auction M :=
  ⟨a.config, a.stage, a.book, ledger, a.log, a.now, a.intake⟩

/-- The same answer, and the same state over related ledgers. -/
def Alike {α : Type} (R : L → M → Prop) (r : α × Auction L) (r' : α × Auction M) : Prop :=
  ∃ answer b ledger, r = (answer, b) ∧ r' = (answer, b.onLedger ledger) ∧ R b.ledger ledger

variable {R : L → M → Prop} {a : Auction L} {k : M}

section
variable {α β : Type}

/-- The same answer from auctions over related ledgers is alike. -/
theorem Alike.of_same (h : R a.ledger k) (x : α) : Alike R (x, a) (x, a.onLedger k) :=
  ⟨x, a, k, rfl, rfl, h⟩

/-- Alike answers stay alike when both are changed in the same way. -/
theorem Alike.map {r : α × Auction L} {r' : α × Auction M} (f : α → β) (h : Alike R r r') :
    Alike R (f r.1, r.2) (f r'.1, r'.2) := by
  obtain ⟨x, b, ledger, rfl, rfl, hledger⟩ := h
  exact ⟨f x, b, ledger, rfl, rfl, hledger⟩

end

/-! ## Operations -/

/-- A start asks nothing of the ledger. -/
theorem start_alike (h : R a.ledger k) (base scarce : Amount) :
    Alike R (a.start base scarce) ((a.onLedger k).start base scarce) := by
  have hplan : (a.onLedger k).planStart base scarce = a.planStart base scarce := rfl
  unfold start
  rw [hplan]
  rcases a.planStart base scarce with e | caps
  · exact .of_same h _
  · exact ⟨_, _, k, rfl, rfl, h⟩

/-- And neither does the end of bidding. -/
theorem finalize_alike (h : R a.ledger k) : Alike R a.finalize (a.onLedger k).finalize := by
  have hplan : (a.onLedger k).planCommitment = a.planCommitment := rfl
  unfold finalize
  rw [hplan]
  rcases a.planCommitment with e | c
  · exact .of_same h _
  · exact ⟨_, _, k, rfl, rfl, h⟩

section
variable (note : PayoutReport → Payout → Except AuctionError PayoutReport)
  (event : Payout → EventPayload)

/-- Closing bids has nothing to do with the ledger. -/
theorem closeBids_alike (payouts : List Payout) :
    ∀ {a : Auction L} (report : PayoutReport), R a.ledger k →
      Alike R (closeBids note event a report payouts)
        (closeBids note event (a.onLedger k) report payouts) := by
  induction payouts with
  | nil => exact fun report h => .of_same h _
  | cons p payouts ih =>
    intro a report h
    have hbook : (a.onLedger k).book = a.book := rfl
    unfold closeBids
    rw [hbook]
    rcases a.book.withdraw p.bid with e | ⟨-, book⟩
    · exact .of_same h _
    · simp only
      have hclosed : R { a with book }.ledger k := h
      rcases note report p with e | report
      · exact .of_same hclosed _
      · have hemitted : R ({ a with book }.emit (event p)).ledger k := h
        exact ih report hemitted

variable [AssetLedger L] [AssetLedger M]

/-- Batches are alike over related ledgers. -/
theorem execute_alike (hR : Bisimulation R) (h : R a.ledger k) (moves : List Move)
    (report : PayoutReport) (payouts : List Payout) :
    Alike R (a.execute moves note event report payouts)
      ((a.onLedger k).execute moves note event report payouts) := by
  have hledger : (a.onLedger k).ledger = k := rfl
  unfold execute
  obtain ⟨answer, l₁, k₁, hl, hk, h₁⟩ := hR.performAll h moves
  rw [hledger, hl, hk]
  have hmoved : R { a with ledger := l₁ }.ledger k₁ := h₁
  rcases answer with e | _
  · exact .of_same hmoved _
  · exact closeBids_alike note event payouts report hmoved

end

variable [AssetLedger L] [AssetLedger M]

/-- Bids are alike over related ledgers. -/
theorem submitBid_alike (hR : Bisimulation R) (h : R a.ledger k) (depositor : Account)
    (tick : Tick) (amount : Amount) :
    Alike R (a.submitBid depositor tick amount)
      ((a.onLedger k).submitBid depositor tick amount) := by
  have hcheck : (a.onLedger k).checkBid tick amount = a.checkBid tick amount := rfl
  have hledger : (a.onLedger k).ledger = k := rfl
  have hconfig : (a.onLedger k).config = a.config := rfl
  unfold submitBid
  rw [hcheck, hledger, hconfig]
  rcases a.checkBid tick amount with e | intake
  · exact .of_same h _
  · obtain ⟨answer, l₁, k₁, hl, hk, h₁⟩ :=
      hR.transfer h depositor a.config.escrow .base amount
    simp only [hl, hk]
    rcases answer with e | _
    · exact ⟨_, { a with ledger := l₁ }, k₁, rfl, rfl, h₁⟩
    · exact ⟨_, _, k₁, rfl, rfl, h₁⟩

/-- Refunds are alike over related ledgers. -/
theorem refundLosingBids_alike (hR : Bisimulation R) (h : R a.ledger k) (refs : List BidRef) :
    Alike R (a.refundLosingBids refs) ((a.onLedger k).refundLosingBids refs) := by
  have hplan : (a.onLedger k).planRefunds refs = a.planRefunds refs := rfl
  unfold refundLosingBids
  rw [hplan]
  rcases a.planRefunds refs with e | plan
  · exact .of_same h _
  · exact execute_alike _ _ hR h _ _ _

/-- Settlements are alike over related ledgers. -/
theorem settle_alike (hR : Bisimulation R) (h : R a.ledger k) (owner : Account)
    (refs : List BidRef) : Alike R (a.settle owner refs) ((a.onLedger k).settle owner refs) := by
  have hplan : (a.onLedger k).planSettlement owner refs = a.planSettlement owner refs := rfl
  have hconfig : (a.onLedger k).config = a.config := rfl
  unfold settle
  rw [hplan, hconfig]
  rcases a.planSettlement owner refs with e | ⟨report, paid⟩
  · exact .of_same h _
  · obtain ⟨answer, b, ledger, hl, hk, hb⟩ := execute_alike (fun report _ => .ok report)
      (fun p => .bidSettled p.bid owner p.amounts) hR h
      (report.payouts.flatMap (settlementMoves a.config owner)) report report.payouts
    simp only [hl, hk]
    rcases answer with e | report
    · exact .of_same hb _
    · exact ⟨.ok report, b.withPaid paid, ledger, rfl, rfl, hb⟩

/-! ## Runs -/

/-- No command tells the two ledgers apart. -/
theorem step_alike (hR : Bisimulation R) (h : R a.ledger k) (command : Command) :
    Alike R (a.step command) ((a.onLedger k).step command) := by
  cases command with
  | start base scarce => exact (start_alike h base scarce).map _
  | submitBid depositor tick amount => exact (submitBid_alike hR h depositor tick amount).map _
  | refundLosingBids refs => exact (refundLosingBids_alike hR h refs).map _
  | finalize => exact (finalize_alike h).map _
  | settle owner refs => exact (settle_alike hR h owner refs).map _
  | setTime now => exact ⟨_, a.setTime now, k, rfl, rfl, h⟩
  | advanceTime millis =>
    have hnow : (a.onLedger k).now = a.now := rfl
    simp only [step, advanceTime?, hnow]
    rcases a.now.advance? millis with _ | now
    · exact .of_same h _
    · exact ⟨_, a.setTime now, k, rfl, rfl, h⟩

/-- No run tells the two ledgers apart. -/
theorem run_alike (hR : Bisimulation R) (commands : List Command) :
    ∀ {a : Auction L} {k : M}, R a.ledger k →
      Alike R (a.run commands) ((a.onLedger k).run commands) := by
  induction commands with
  | nil => exact fun h => .of_same h _
  | cons command commands ih =>
    intro a k h
    obtain ⟨response, b, ledger, hl, hk, hb⟩ := step_alike hR h command
    simp only [run, hl, hk]
    exact (ih hb).map _

end Auction

end BatchAuction
