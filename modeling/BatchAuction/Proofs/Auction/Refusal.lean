import BatchAuction.Proofs.Auction.Money

/-!
# A refusal changes nothing

Over the ledger of balances, a command that is refused leaves the auction as it was, and the ledger
with the same balances (`Auction.refused_unchanged`); between the commands before it, funds may have
come in and gone out. A refusal by the auction itself comes before any move. A refusal by the ledger
may come after some moves of a batch, and these are undone, also where a balance is close to the
largest amount. After the moves nothing is refused any more: the bids of a plan are active, and the
sums of a refund are a part of the intake.
-/

namespace BatchAuction

namespace Auction

variable {a a' : Auction MemoryLedger} {command : Command} {e : AuctionError}

/-- An outcome that is a refusal leaves everything but the ledger as it was, and all balances. -/
theorem Outcome.unchanged (h : a.Sound) (ho : a.Outcome command (.refused e) a') :
    { a' with ledger := a.ledger } = a ∧ MemoryLedger.Same a'.ledger a.ledger := by
  cases ho with
  | refused => exact ⟨rfl, .refl _⟩
  | unpaid htransfer => exact ⟨rfl, MemoryLedger.transfer_error htransfer⟩
  | undone _ _ hperform => exact ⟨rfl, MemoryLedger.performAll_error hperform⟩
  | uncounted _ hdraft hcount => exact absurd hcount (h.not_uncounted hdraft)

/-- In every state that is attained, a command that is refused leaves the settings, the stage, the
book, the log, the time and the intake as they were, and every balance. A preview that is refused
says what the settlement would have been refused for. -/
theorem refused_unchanged (h : a.Attained) :
    (∀ command e, (a.step command).1 = .refused e →
      { (a.step command).2 with ledger := a.ledger } = a ∧
        ∀ x s, (a.step command).2.ledger.balance x s = a.ledger.balance x s) ∧
    ∀ owner refs e, a.previewSettle owner refs = .error e →
      a.settle owner refs = (.error e, a) := by
  refine ⟨fun command e hr => ?_, fun owner refs e => settle_of_preview_error⟩
  have ho := step_outcome h.sound.coherent command
  rw [hr] at ho
  exact ho.unchanged h.sound

/-- The small auction over a ledger on which the winner can take no scarce. -/
def smallFull : Auction MemoryLedger :=
  (create .standard (smallLedger.withBalance smallWinner .scarce Amount.max)).after smallBidding

/-- The last move of the winner's settlement is refused, and the moves before it are undone. -/
theorem small_refused_unchanged :
    (smallFull.step (.settle smallWinner [⟨smallHigh, 0⟩])).1 =
        .refused (.ledger (.balanceOverflow smallWinner .scarce)) ∧
      ∀ x s, (smallFull.step (.settle smallWinner [⟨smallHigh, 0⟩])).2.ledger.balance x s =
        smallFull.ledger.balance x s := by
  have hreachable : smallFull.Reachable :=
    ⟨.standard, smallLedger.withBalance smallWinner .scarce Amount.max, smallBidding, by decide,
      rfl⟩
  have hrefused : (smallFull.step (.settle smallWinner [⟨smallHigh, 0⟩])).1 =
      .refused (.ledger (.balanceOverflow smallWinner .scarce)) := by
    decide +kernel
  exact ⟨hrefused, ((refused_unchanged hreachable.attained).1 _ _ hrefused).2⟩

end Auction

end BatchAuction
