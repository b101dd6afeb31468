import BatchAuction.Proofs.Auction.Money

/-!
# Escrow holds exactly the active bids

Over the ledger of balances, the base in escrow is what was there at the start and the amounts of
the active bids, in every state of a run in which escrow itself places no bid
(`Auction.escrow_holds_active_bids`). A bid enters escrow with its amount. It leaves with its refund
and its cost, which make up its amount in every kind of payout. So the funds for a batch are always
there, and no refund and no settlement is ever refused for lack of them.
-/

namespace BatchAuction

open Asset (base)

namespace Auction

variable {a a' : Auction MemoryLedger} {payouts : List Payout}

/-- The base in escrow is that of the start and the amounts of the active bids, none of which is by
escrow itself. -/
structure Escrowed (start : Nat) (a : Auction MemoryLedger) : Prop where
  sound : a.Sound
  balance : (a.ledger.balance a.config.escrow base).toNat =
    start + a.book.activeSum fun bid => bid.amount.toNat
  others : ∀ bid ∈ a.book.bids, bid.depositor ≠ a.config.escrow

variable {start : Nat} {command : Command} {response : Response}

/-- No part of a batch goes back to escrow. -/
theorem Escrowed.paidTo_escrow (h : a.Escrowed start) (hd : a.Draft payouts)
    (part : BidAmounts → Amount) : paidTo a.config.escrow part payouts = 0 := by
  refine sum_map_eq_zero_iff.2 fun p hp => if_neg ?_
  obtain ⟨bid, hget, -, hdepositor, -⟩ := hd.found p hp
  rw [hdepositor]
  exact h.others bid (Book.mem_bids.2 ⟨_, hget⟩)

/-- Every outcome of a command that is no accepted bid by escrow keeps it. -/
theorem Escrowed.outcome (h : a.Escrowed start)
    (hne : ∀ o, command.accepted? response ≠ some (a.config.escrow, o))
    (ho : a.Outcome command response a') : a'.Escrowed start := by
  have hbalance := h.balance
  cases ho.effect h.sound with
  | idle _ _ hsame hbook =>
    refine ⟨h.sound.outcome ho, ?_, ?_⟩
    · rw [ho.config_eq, hsame, hbook]
      exact hbalance
    · rw [ho.config_eq, hbook]
      exact h.others
  | placed bid haccepted _ hw hbids htransfer =>
    have hother : bid.depositor ≠ a.config.escrow := fun heq =>
      hne bid.offer (heq ▸ haccepted)
    refine ⟨h.sound.outcome ho, ?_, ?_⟩
    · have hmoved := MemoryLedger.transfer_ok htransfer a.config.escrow base
      rw [Move.debits_debit, Move.credits_credit, if_neg fun hx => hother hx.1,
        if_pos ⟨rfl, rfl⟩] at hmoved
      rw [ho.config_eq, Book.activeSum_of_perm hbids hw]
      omega
    · intro bid' hbid'
      rw [ho.config_eq]
      rcases List.mem_cons.1 (hbids.mem_iff.1 hbid') with rfl | hmem
      · exact hother
      · exact h.others bid' hmem
  | closed _ hdraft hclosed =>
    refine ⟨h.sound.outcome ho, ?_, ?_⟩
    · have hmoved := hclosed.base_balance h.sound hdraft a.config.escrow
      have hactive := h.sound.activeSum_draft hdraft
      rw [if_pos rfl, if_neg h.sound.accounts.symm, h.paidTo_escrow hdraft] at hmoved
      rw [ho.config_eq, hclosed.book]
      omega
    · intro bid hbid
      rw [ho.config_eq]
      rw [hclosed.book] at hbid
      rcases Book.mem_bids_closeAll hdraft.opens hbid with hmem | ⟨p, -, old, hold, rfl⟩
      · exact h.others bid hmem
      · exact h.others old (Book.mem_bids.2 ⟨_, hold⟩)

/-- The funds for a batch of payouts are in escrow. -/
theorem Escrowed.covers (h : a.Escrowed start) (hd : a.Draft payouts) (x : Account) (s : Asset) :
    Move.debited (payouts.flatMap a.payoutMoves) x s ≤ (a.ledger.balance x s).toNat := by
  rw [h.sound.debited_payouts hd]
  split
  · rename_i hx
    have hactive := h.sound.activeSum_draft hd
    have hbalance := h.balance
    rw [← hx.1, ← hx.2]
    omega
  · exact Nat.zero_le _

/-- A command that closes bids is not refused for lack of funds. -/
theorem Escrowed.not_insufficient (h : a.Escrowed start) (hc : command.ClosesBids)
    (ho : a.Outcome command response a') (x : Account) (s : Asset) (requested available : Amount) :
    response ≠ .refused (.ledger (.insufficientBalance x s requested available)) := by
  rintro rfl
  cases ho with
  | refused hown => exact hown
  | unpaid => exact hc
  | undone _ hdraft hperform =>
    have hlt := MemoryLedger.performAll_insufficient hperform
    have hle := h.covers hdraft x s
    omega
  | uncounted _ hdraft hcount => exact h.sound.not_uncounted hdraft hcount

/-- A run without a bid by escrow keeps it. -/
theorem Escrowed.after {commands : List Command} (h : a.Escrowed start)
    (hne : ∀ command ∈ commands, command.depositor? ≠ some a.config.escrow) :
    (a.after commands).Escrowed start := by
  -- the commands name the escrow of the first state, so its settings go along
  have hboth : (a.after commands).Escrowed start ∧ (a.after commands).config = a.config :=
    after_invariant (P := fun b => b.Escrowed start ∧ b.config = a.config) h.sound.coherent
      (fun hc ho ⟨hb, hconfig⟩ =>
        ⟨hb.outcome (fun _ haccepted =>
            hne _ hc (hconfig ▸ Command.depositor?_of_accepted? haccepted)) ho,
          ho.config_eq.trans hconfig⟩) ⟨h, rfl⟩
  exact hboth.1

/-- In a run in which escrow itself places no bid, escrow holds what it held at the start and the
amounts of the active bids. Their sum is what the book reports, and no refund and no settlement is
refused for lack of funds. -/
theorem escrow_holds_active_bids {config : Config} {ledger : MemoryLedger} {commands : List Command}
    (hvalid : config.validate = .ok ())
    (hne : ∀ command ∈ commands, command.depositor? ≠ some config.escrow)
    (ha : a = (create config ledger).after commands) :
    a.escrowBalance.toNat = (ledger.balance config.escrow base).toNat +
        (a.book.activeBids.map fun bid => bid.amount.toNat).sum ∧
      a.book.activeEscrow.toNat = (a.book.activeBids.map fun bid => bid.amount.toNat).sum ∧
      (∀ refs x s requested available, (a.refundLosingBids refs).1 ≠
        .error (.ledger (.insufficientBalance x s requested available))) ∧
      ∀ owner refs x s requested available, (a.settle owner refs).1 ≠
        .error (.ledger (.insufficientBalance x s requested available)) := by
  have hstart : (create config ledger).Escrowed (ledger.balance config.escrow base).toNat :=
    ⟨sound_create hvalid ledger, rfl, fun _ hb => nomatch hb⟩
  have hend : a.Escrowed (ledger.balance config.escrow base).toNat := by
    rw [ha]
    exact hstart.after hne
  refine ⟨hend.balance, Book.toNat_activeEscrow hend.sound.activeSum_lt, ?_, ?_⟩
  · intro refs x s requested available hfail
    have hcloses : (Command.refundLosingBids refs).ClosesBids := trivial
    have ho := refundLosingBids_outcome hend.sound.coherent refs
    refine hend.not_insufficient hcloses ho x s requested available ?_
    rw [hfail]
    rfl
  · intro owner refs x s requested available hfail
    have hcloses : (Command.settle owner refs).ClosesBids := trivial
    have ho := settle_outcome hend.sound.coherent owner refs
    refine hend.not_insufficient hcloses ho x s requested available ?_
    rw [hfail]
    rfl

/-- Before the settlements of the small auction, escrow holds the two bids that were not
refunded. -/
theorem small_escrow_holds_active_bids :
    ((create .standard smallLedger).after smallBidding).escrowBalance.toNat = 130 := by
  have hvalid : Config.standard.validate = .ok () := by decide
  have hothers : ∀ command ∈ smallBidding,
      command.depositor? ≠ some Config.standard.escrow := by decide
  obtain ⟨hbalance, -⟩ := escrow_holds_active_bids hvalid hothers
    (Eq.refl ((create .standard smallLedger).after smallBidding))
  rw [hbalance]
  decide +kernel

end Auction

end BatchAuction
