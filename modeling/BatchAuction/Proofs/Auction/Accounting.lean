import BatchAuction.Proofs.Auction.Money

/-!
# The balances of all accounts but escrow

Over the ledger of balances, what an account holds is what it held at the start, without the amounts
of its bids, and with what its closed bids were owed; the proceeds account also has all base kept
(`Auction.balances_accounted`). Closed bids are valued by the present stage, and this is no change
for a bid that was refunded earlier: the commitment prices it as a full refund.

One command moves money as `Auction.Flow` says: base leaves an account only by a bid of its own that
is accepted, and payouts reach only the depositors of the bids and the proceeds account.
-/

namespace BatchAuction

open Asset (base scarce)

/-- A quantity of the bids of one account, and zero for other bids. -/
def Bid.ofAccount (x : Account) (f : Bid → Nat) (bid : Bid) : Nat :=
  if bid.depositor = x then f bid else 0

/-- The part of one account is a part of the whole. -/
theorem Bid.ofAccount_le (bid : Bid) (x : Account) (f : Bid → Nat) :
    bid.ofAccount x f ≤ f bid := by
  unfold ofAccount
  split
  · exact Nat.le_refl _
  · exact Nat.zero_le _

namespace Auction

/-- One part of what a bid is owed at the present stage. -/
def owedPart {L : Type} (a : Auction L) (part : BidAmounts → Amount) (bid : Bid) : Nat :=
  match a.owed bid with
  | .ok x => (part x).toNat
  | .error _ => 0

variable {a a' : Auction MemoryLedger} {payouts : List Payout} {x : Account}

/-- Every bid has something that it is owed. -/
theorem Sound.exists_owed (h : a.Sound) {bid : Bid} (hb : bid ∈ a.book.bids) :
    ∃ y, a.owed bid = .ok y := by
  cases hc : a.commitment? with
  | none => exact ⟨_, owed_of_none hc bid⟩
  | some c =>
    obtain ⟨y, hy, -⟩ := h.pays hc hb
    exact ⟨y, (owed_of_some hc bid).trans hy⟩

/-- A batch adds its payouts to an account to what the closed bids of that account were owed. -/
theorem Draft.withdrawnSum_owed (hd : a.Draft payouts) (part : BidAmounts → Amount) :
    (a.book.closeAll (payouts.map Payout.bid)).withdrawnSum
        (Bid.ofAccount x (a.owedPart part)) =
      a.book.withdrawnSum (Bid.ofAccount x (a.owedPart part)) + paidTo x part payouts := by
  refine Book.withdrawnSum_closeAll (fun _ => rfl) hd.opens fun p hp bid hget => ?_
  obtain ⟨bid', hget', -, hdepositor, howed⟩ := hd.found p hp
  obtain rfl : bid = bid' := Option.some.inj (hget.symm.trans hget')
  rw [Bid.ofAccount, owedPart, howed, hdepositor]

/-! ## One command -/

/-- What an account spends on bids in one command. -/
def spent (x : Account) (command : Command) (response : Response) : Nat :=
  match command.accepted? response with
  | some (y, o) => if y = x then o.base else 0
  | none => 0

/-- What one command moves to and from an account. -/
structure Flow (x : Account) (a : Auction MemoryLedger) (command : Command) (response : Response)
    (a' : Auction MemoryLedger) : Prop where
  /-- Base is spent on accepted bids and comes back as refunds; costs go to the proceeds. -/
  base : (a'.ledger.balance x base).toNat + spent x command response =
    (a.ledger.balance x base).toNat + paidTo x BidAmounts.baseRefund response.payouts +
      (if a.config.proceeds = x then paidSum BidAmounts.baseCost response.payouts else 0)
  /-- Scarce only comes. -/
  scarce : (a'.ledger.balance x scarce).toNat =
    (a.ledger.balance x scarce).toNat + paidTo x BidAmounts.filledScarce response.payouts
  /-- A payout goes to the account that placed the bid. -/
  depositor : ∀ p ∈ response.payouts, ∃ bid, a.book.get? p.bid = some bid ∧
    bid.depositor = p.depositor

variable {command : Command} {response : Response}

/-- Every outcome moves money as listed. -/
theorem Outcome.flow (h : a.Sound) (hx : x ≠ a.config.escrow)
    (ho : a.Outcome command response a') : a.Flow x command response a' := by
  cases ho.effect h with
  | idle haccepted hpayouts hsame =>
    refine ⟨?_, ?_, ?_⟩
    · rw [spent, haccepted, hpayouts, hsame]
      simp only [paidTo_nil, paidSum_nil, ite_self, Nat.add_zero]
    · rw [hpayouts, hsame]
      rfl
    · rw [hpayouts]
      exact fun _ hp => nomatch hp
  | placed bid haccepted hpayouts _ _ htransfer =>
    refine ⟨?_, ?_, ?_⟩
    · have hmoved := MemoryLedger.transfer_ok htransfer x base
      have hescrow : ¬ (a.config.escrow = x ∧ base = base) := fun he => hx he.1.symm
      rw [Move.debits_debit, Move.credits_credit, if_neg hescrow] at hmoved
      rw [spent, haccepted, hpayouts]
      simp only [and_true, Nat.add_zero] at hmoved
      simp only [paidTo_nil, paidSum_nil, ite_self, Nat.add_zero]
      exact hmoved
    · have hmoved := MemoryLedger.transfer_ok htransfer x scarce
      rw [hpayouts, paidTo_nil, Nat.add_zero]
      simpa using hmoved
    · rw [hpayouts]
      exact fun _ hp => nomatch hp
  | closed haccepted hdraft hclosed =>
    refine ⟨?_, hclosed.scarce_balance h hdraft x, fun p hp => ?_⟩
    · have hmoved := hclosed.base_balance h hdraft x
      rw [if_neg hx.symm] at hmoved
      rw [spent, haccepted]
      exact hmoved
    · obtain ⟨bid, hget, -, hdepositor, -⟩ := hdraft.found p hp
      exact ⟨bid, hget, hdepositor.symm⟩

/-! ## What the book says of an account -/

/-- What the closed bids of an account are owed grows by the payouts to it. -/
theorem Outcome.withdrawnSum_owed (h : a.Sound) (ho : a.Outcome command response a')
    (part : BidAmounts → Amount) :
    a'.book.withdrawnSum (Bid.ofAccount x (a'.owedPart part)) =
      a.book.withdrawnSum (Bid.ofAccount x (a.owedPart part)) +
        paidTo x part response.payouts := by
  have owed_congr (howed : ∀ bid, a'.owed bid = a.owed bid) :
      a'.owedPart part = a.owedPart part := by
    funext bid
    rw [owedPart, owedPart, howed]
  cases ho.effect h with
  | idle _ hpayouts _ hbook howed =>
    rw [hpayouts, hbook]
    -- the commitment may be new, and closed bids are owed what they were owed before
    refine Book.withdrawnSum_congr fun bid hb hw => ?_
    rw [Bid.ofAccount, Bid.ofAccount, owedPart, owedPart, howed bid hb hw]
  | placed bid _ hpayouts hw hbids _ howed =>
    rw [hpayouts, owed_congr howed, Book.withdrawnSum_of_perm hbids hw]
    rfl
  | closed _ hdraft hclosed howed =>
    rw [owed_congr howed, hclosed.book, hdraft.withdrawnSum_owed]

/-- The amounts of all bids of an account grow by what it spends. -/
theorem Outcome.sum_amounts (h : a.Sound) (ho : a.Outcome command response a') :
    (a'.book.bids.map (Bid.ofAccount x fun bid => bid.amount.toNat)).sum =
      (a.book.bids.map (Bid.ofAccount x fun bid => bid.amount.toNat)).sum +
        spent x command response := by
  cases ho.effect h with
  | idle haccepted _ _ hbook =>
    rw [hbook, spent, haccepted]
    rfl
  | placed bid haccepted _ _ hbids =>
    rw [(hbids.map _).sum_eq, List.map_cons, List.sum_cons, spent, haccepted, Nat.add_comm]
    rfl
  | closed haccepted hdraft hclosed =>
    rw [hclosed.book, Book.map_bids_closeAll _ (fun _ => rfl) hdraft.opens, spent, haccepted]
    rfl

/-- The base kept grows by the costs of the payouts. -/
theorem Outcome.baseRetained_eq (h : a.Sound) (ho : a.Outcome command response a') :
    a'.baseRetained.toNat =
      a.baseRetained.toNat + paidSum BidAmounts.baseCost response.payouts := by
  cases ho.effect h with
  | idle _ hpayouts _ _ _ hretained =>
    rw [hretained, hpayouts]
    rfl
  | placed _ _ hpayouts _ _ _ _ hretained =>
    rw [hretained, hpayouts]
    rfl
  | closed _ _ _ _ hretained => exact hretained

/-! ## All commands -/

/-- The balances of an account other than escrow, from those it had at the start. -/
structure Accounted (ledger : MemoryLedger) (x : Account) (a : Auction MemoryLedger) : Prop where
  sound : a.Sound
  other : x ≠ a.config.escrow
  base : (a.ledger.balance x base).toNat +
      (a.book.bids.map (Bid.ofAccount x fun bid => bid.amount.toNat)).sum =
    (ledger.balance x base).toNat +
      a.book.withdrawnSum (Bid.ofAccount x (a.owedPart BidAmounts.baseRefund)) +
      (if a.config.proceeds = x then a.baseRetained.toNat else 0)
  scarce : (a.ledger.balance x scarce).toNat = (ledger.balance x scarce).toNat +
    a.book.withdrawnSum (Bid.ofAccount x (a.owedPart BidAmounts.filledScarce))

variable {ledger : MemoryLedger}

/-- Every outcome of a command keeps it. -/
theorem Accounted.outcome (h : a.Accounted ledger x) (ho : a.Outcome command response a') :
    a'.Accounted ledger x := by
  have hflow := ho.flow h.sound h.other
  have hother : x ≠ a'.config.escrow := by
    rw [ho.config_eq]
    exact h.other
  refine ⟨h.sound.outcome ho, hother, ?_, ?_⟩
  · have hmoved := hflow.base
    have hbase := h.base
    rw [ho.withdrawnSum_owed h.sound, ho.sum_amounts h.sound, ho.baseRetained_eq h.sound,
      ho.config_eq]
    split
    · rename_i hproceeds
      rw [if_pos hproceeds] at hbase hmoved
      omega
    · rename_i hproceeds
      rw [if_neg hproceeds] at hbase hmoved
      omega
  · rw [ho.withdrawnSum_owed h.sound, hflow.scarce, h.scarce, Nat.add_assoc]

/-- The balances of an account other than escrow in any state that a run reaches: at the start,
without the amounts of its bids, with what its closed bids were owed at the present stage, and for
the proceeds account with the base kept. What bids are owed is always known. And each command moves
to and from the account what its response says. -/
theorem balances_accounted {config : Config} {commands : List Command}
    (hvalid : config.validate = .ok ()) (hx : x ≠ config.escrow)
    (ha : a = (create config ledger).after commands) :
    (a.ledger.balance x base).toNat +
        (a.book.bids.map (Bid.ofAccount x fun bid => bid.amount.toNat)).sum =
      (ledger.balance x base).toNat +
        a.book.withdrawnSum (Bid.ofAccount x (a.owedPart BidAmounts.baseRefund)) +
        (if config.proceeds = x then a.baseRetained.toNat else 0) ∧
    (a.ledger.balance x scarce).toNat = (ledger.balance x scarce).toNat +
      a.book.withdrawnSum (Bid.ofAccount x (a.owedPart BidAmounts.filledScarce)) ∧
    (∀ bid ∈ a.book.bids, ∃ y, a.owed bid = .ok y) ∧
    ∀ command, a.Flow x command (a.step command).1 (a.step command).2 := by
  have hstart : (create config ledger).Accounted ledger x :=
    ⟨sound_create hvalid ledger, hx, (ite_self 0).symm ▸ rfl, rfl⟩
  have hboth : a.Accounted ledger x ∧ a.config = config := by
    rw [ha]
    exact after_invariant (P := fun b => b.Accounted ledger x ∧ b.config = config)
      hstart.sound.coherent
      (fun _ ho ⟨hb, hconfig⟩ => ⟨hb.outcome ho, ho.config_eq.trans hconfig⟩) ⟨hstart, rfl⟩
  obtain ⟨hend, rfl⟩ := hboth
  exact ⟨hend.base, hend.scarce, fun bid hb => hend.sound.exists_owed hb,
    fun command => (step_outcome hend.sound.coherent command).flow hend.sound hend.other⟩

/-- In the small auction the bidder at the clearing tick pays for 30 scarce with 30 base. -/
theorem small_balances_accounted :
    (small.ledger.balance smallMarginal base).toNat + 60 = 100 + 30 ∧
      (small.ledger.balance smallMarginal scarce).toNat = 0 + 30 := by
  have hvalid : Config.standard.validate = .ok () := by decide
  have hother : smallMarginal ≠ Config.standard.escrow := by decide
  have hrun : small = (create .standard smallLedger).after (smallBidding ++ smallSettling) := rfl
  obtain ⟨hbase, hscarce, -⟩ := balances_accounted hvalid hother hrun
  have hbids : (small.book.bids.map
      (Bid.ofAccount smallMarginal fun bid => bid.amount.toNat)).sum = 60 := by decide +kernel
  have hrefund : small.book.withdrawnSum
      (Bid.ofAccount smallMarginal (small.owedPart BidAmounts.baseRefund)) = 30 := by
    decide +kernel
  have hfilled : small.book.withdrawnSum
      (Bid.ofAccount smallMarginal (small.owedPart BidAmounts.filledScarce)) = 30 := by
    decide +kernel
  have hproceeds : ¬ Config.standard.proceeds = smallMarginal := by decide
  have hstart : (smallLedger.balance smallMarginal base).toNat = 100 := by decide
  have hnothing : (smallLedger.balance smallMarginal scarce).toNat = 0 := by decide
  rw [hbids, hrefund, if_neg hproceeds, hstart] at hbase
  rw [hfilled, hnothing] at hscarce
  exact ⟨hbase, hscarce⟩

end Auction

end BatchAuction
