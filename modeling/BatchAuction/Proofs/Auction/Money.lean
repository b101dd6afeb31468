import BatchAuction.Proofs.Auction.Sound
import BatchAuction.Proofs.Ledger.Balance

/-!
# Money that a command moves

Over the ledger of balances, the moves of a payout take its refund and its cost from escrow, and
bring the refund and the scarce to the depositor and the cost to the proceeds
(`Auction.Closed.base_balance`, `Auction.Closed.scarce_balance`). This holds of refunds as well, as
they have no cost and no scarce.

`Auction.Effect` sorts the outcomes of a command by what happens to money: nothing, the intake of a
bid, a batch of payouts, or nothing but a new meaning of what closed bids were owed.
-/

namespace BatchAuction

open Asset (base scarce)

/-! ## Sums over payouts -/

/-- The sum of one part of the payouts to an account. -/
def paidTo (x : Account) (part : BidAmounts → Amount) (payouts : List Payout) : Nat :=
  (payouts.map fun p => if p.depositor = x then (part p.amounts).toNat else 0).sum

@[simp] theorem paidTo_nil (x : Account) (part : BidAmounts → Amount) : paidTo x part [] = 0 := rfl

/-- The payouts to an account are a part of all payouts. -/
theorem paidTo_le (x : Account) (part : BidAmounts → Amount) (payouts : List Payout) :
    paidTo x part payouts ≤ Auction.paidSum part payouts := by
  refine List.sum_le_sum fun p _ => ?_
  split
  · exact Nat.le_refl _
  · exact Nat.zero_le _

/-- If all payouts are to one account, this account gets everything. -/
theorem paidTo_of_all {owner : Account} {payouts : List Payout}
    (h : ∀ p ∈ payouts, p.depositor = owner) (x : Account) (part : BidAmounts → Amount) :
    paidTo x part payouts = if owner = x then Auction.paidSum part payouts else 0 := by
  split
  · rename_i howner
    refine congrArg List.sum (List.map_congr_left fun p hp => ?_)
    rw [if_pos ((h p hp).trans howner)]
  · rename_i hother
    refine sum_map_eq_zero_iff.2 fun p hp => ?_
    rw [if_neg ((h p hp).symm ▸ hother)]

namespace Move

/-- What some batches together credit is the sum of what each of them credits. -/
theorem credited_flatMap {ι : Type} (f : ι → List Move) (l : List ι) (x : Account) (s : Asset) :
    credited (l.flatMap f) x s = (l.map fun i => credited (f i) x s).sum := by
  induction l with
  | nil => rfl
  | cons i l ih => rw [List.flatMap_cons, credited_append, ih, List.map_cons, List.sum_cons]

/-- And what they debit is the sum of what each of them debits. -/
theorem debited_flatMap {ι : Type} (f : ι → List Move) (l : List ι) (x : Account) (s : Asset) :
    debited (l.flatMap f) x s = (l.map fun i => debited (f i) x s).sum := by
  induction l with
  | nil => rfl
  | cons i l ih => rw [List.flatMap_cons, debited_append, ih, List.map_cons, List.sum_cons]

end Move

namespace Auction

/-- A credit that is left out if it is zero credits its amount all the same. -/
theorem credited_creditUnlessZero (y : Account) (s' : Asset) (amount : Amount) (x : Account)
    (s : Asset) :
    Move.credited (creditUnlessZero y s' amount) x s =
      if y = x ∧ s' = s then amount.toNat else 0 := by
  unfold creditUnlessZero
  split
  · rename_i hzero
    simp [hzero]
  · simp

/-- And it debits nothing. -/
theorem debited_creditUnlessZero (y : Account) (s' : Asset) (amount : Amount) (x : Account)
    (s : Asset) : Move.debited (creditUnlessZero y s' amount) x s = 0 := by
  unfold creditUnlessZero
  split <;> simp

section
variable {L : Type} {a : Auction L} {payouts : List Payout} {p : Payout}

/-! ## The moves of one payout -/

/-- What leaves escrow for a payout is its refund and its cost. -/
theorem Sound.debited_payoutMoves (h : a.Sound) (hd : a.Draft payouts) (hp : p ∈ payouts)
    (x : Account) (s : Asset) :
    Move.debited (a.payoutMoves p) x s =
      if a.config.escrow = x ∧ base = s then
        p.amounts.baseRefund.toNat + p.amounts.baseCost.toNat
      else 0 := by
  unfold payoutMoves
  split
  · rename_i hc
    obtain ⟨amount, hamounts⟩ := hd.amounts_of_none hp hc
    simp [refundMoves, hamounts, BidAmounts.refunded]
  · obtain ⟨bid, hget, -, -, howed⟩ := hd.found p hp
    have hwhole := h.whole_of_owed (Book.mem_bids.2 ⟨_, hget⟩) howed
    have hadd : (p.amounts.baseRefund.addMod p.amounts.baseCost).toNat =
        p.amounts.baseRefund.toNat + p.amounts.baseCost.toNat :=
      Amount.toNat_ofNat_of_lt (hwhole ▸ bid.amount.isLt)
    simp [settlementMoves, Move.debited_append, debited_creditUnlessZero, hadd]

/-- The moves of a payout credit the refund to the depositor and the cost to the proceeds. -/
theorem Draft.credited_payoutMoves_base (hd : a.Draft payouts) (hp : p ∈ payouts) (x : Account) :
    Move.credited (a.payoutMoves p) x base =
      (if p.depositor = x then p.amounts.baseRefund.toNat else 0) +
        (if a.config.proceeds = x then p.amounts.baseCost.toNat else 0) := by
  unfold payoutMoves
  split
  · rename_i hc
    obtain ⟨amount, hamounts⟩ := hd.amounts_of_none hp hc
    simp [refundMoves, hamounts, BidAmounts.refunded]
  · simp [settlementMoves, Move.credited_append, credited_creditUnlessZero]

/-- And they credit the scarce to the depositor. -/
theorem Draft.credited_payoutMoves_scarce (hd : a.Draft payouts) (hp : p ∈ payouts)
    (x : Account) :
    Move.credited (a.payoutMoves p) x scarce =
      if p.depositor = x then p.amounts.filledScarce.toNat else 0 := by
  unfold payoutMoves
  split
  · rename_i hc
    obtain ⟨amount, hamounts⟩ := hd.amounts_of_none hp hc
    simp [refundMoves, hamounts, BidAmounts.refunded]
  · simp [settlementMoves, Move.credited_append, credited_creditUnlessZero]

/-- The base that comes in by a batch of payouts. -/
theorem Draft.credited_payouts_base (hd : a.Draft payouts) (x : Account) :
    Move.credited (payouts.flatMap a.payoutMoves) x base =
      paidTo x BidAmounts.baseRefund payouts +
        (if a.config.proceeds = x then paidSum BidAmounts.baseCost payouts else 0) := by
  rw [Move.credited_flatMap, List.map_congr_left fun p hp => hd.credited_payoutMoves_base hp x,
    List.sum_map_add]
  congr 1
  split
  · rfl
  · exact sum_map_eq_zero_iff.2 fun _ _ => rfl

/-- The scarce that comes in by a batch of payouts. -/
theorem Draft.credited_payouts_scarce (hd : a.Draft payouts) (x : Account) :
    Move.credited (payouts.flatMap a.payoutMoves) x scarce =
      paidTo x BidAmounts.filledScarce payouts := by
  rw [Move.credited_flatMap, List.map_congr_left fun p hp => hd.credited_payoutMoves_scarce hp x]
  rfl

/-- What leaves escrow for a batch of payouts. -/
theorem Sound.debited_payouts (h : a.Sound) (hd : a.Draft payouts) (x : Account) (s : Asset) :
    Move.debited (payouts.flatMap a.payoutMoves) x s =
      if a.config.escrow = x ∧ base = s then
        paidSum BidAmounts.baseRefund payouts + paidSum BidAmounts.baseCost payouts
      else 0 := by
  rw [Move.debited_flatMap, List.map_congr_left fun p hp => h.debited_payoutMoves hd hp x s]
  split
  · exact List.sum_map_add
  · exact sum_map_eq_zero_iff.2 fun _ _ => rfl

/-! ## A batch of payouts -/

/-- The base that a batch of payouts moves, whatever performs its moves. -/
theorem Sound.base_moved (h : a.Sound) (hd : a.Draft payouts) {x : Account} {n m : Nat}
    (hmoved : n + Move.debited (payouts.flatMap a.payoutMoves) x base =
      m + Move.credited (payouts.flatMap a.payoutMoves) x base) :
    n + (if a.config.escrow = x then
          paidSum BidAmounts.baseRefund payouts + paidSum BidAmounts.baseCost payouts
        else 0) =
      m + paidTo x BidAmounts.baseRefund payouts +
        (if a.config.proceeds = x then paidSum BidAmounts.baseCost payouts else 0) := by
  rw [h.debited_payouts hd, hd.credited_payouts_base, ← Nat.add_assoc] at hmoved
  simpa only [and_true] using hmoved

/-- The scarce that a batch of payouts brings. -/
theorem Sound.scarce_moved (h : a.Sound) (hd : a.Draft payouts) {x : Account} {n m : Nat}
    (hmoved : n + Move.debited (payouts.flatMap a.payoutMoves) x scarce =
      m + Move.credited (payouts.flatMap a.payoutMoves) x scarce) :
    n = m + paidTo x BidAmounts.filledScarce payouts := by
  rw [h.debited_payouts hd, hd.credited_payouts_scarce] at hmoved
  simpa using hmoved

end

variable {a a' : Auction MemoryLedger} {payouts : List Payout}

/-- What a batch that was performed has moved in base: out of escrow, to depositors and to the
proceeds. -/
theorem Closed.base_balance (h : a.Sound) (hd : a.Draft payouts) (hc : a.Closed payouts a')
    (x : Account) :
    (a'.ledger.balance x base).toNat +
        (if a.config.escrow = x then
          paidSum BidAmounts.baseRefund payouts + paidSum BidAmounts.baseCost payouts
        else 0) =
      (a.ledger.balance x base).toNat + paidTo x BidAmounts.baseRefund payouts +
        (if a.config.proceeds = x then paidSum BidAmounts.baseCost payouts else 0) :=
  h.base_moved hd (MemoryLedger.performAll_ok hc.ledger x base)

/-- And in scarce: to depositors only. -/
theorem Closed.scarce_balance (h : a.Sound) (hd : a.Draft payouts) (hc : a.Closed payouts a')
    (x : Account) :
    (a'.ledger.balance x scarce).toNat =
      (a.ledger.balance x scarce).toNat + paidTo x BidAmounts.filledScarce payouts :=
  h.scarce_moved hd (MemoryLedger.performAll_ok hc.ledger x scarce)

/-! ## What happens to money -/

/-- What a command does to money, by its response. -/
inductive Effect (a : Auction MemoryLedger) (command : Command) (response : Response)
    (a' : Auction MemoryLedger) : Prop
  /-- No balance changes, and closed bids are owed what they were owed. -/
  | idle : command.accepted? response = none → response.payouts = [] →
      MemoryLedger.Same a'.ledger a.ledger → a'.book = a.book →
      (∀ bid ∈ a.book.bids, bid.withdrawn = true → a'.owed bid = a.owed bid) →
      a'.baseRetained = a.baseRetained → Effect a command response a'
  /-- The amount of a bid goes into escrow. -/
  | placed (bid : Bid) : command.accepted? response = some (bid.depositor, bid.offer) →
      response.payouts = [] → bid.withdrawn = false → a'.book.bids.Perm (bid :: a.book.bids) →
      AssetLedger.transfer a.ledger bid.depositor a.config.escrow base bid.amount =
        (.ok (), a'.ledger) →
      (∀ bid, a'.owed bid = a.owed bid) → a'.baseRetained = a.baseRetained →
      Effect a command response a'
  /-- A batch of payouts leaves escrow. -/
  | closed : command.accepted? response = none → a.Draft response.payouts →
      a.Closed response.payouts a' → (∀ bid, a'.owed bid = a.owed bid) →
      a'.baseRetained.toNat = a.baseRetained.toNat + paidSum BidAmounts.baseCost response.payouts →
      Effect a command response a'

/-- Every outcome has one of the effects. -/
theorem Outcome.effect {command : Command} {response : Response} (h : a.Sound)
    (ho : a.Outcome command response a') : a.Effect command response a' := by
  cases ho with
  | @refused command e =>
    exact .idle (command.accepted?_refused e) rfl (.refl _) rfl (fun _ _ _ => rfl) rfl
  | @unpaid depositor tick amount e ledger htransfer =>
    exact .idle (Command.accepted?_refused _ _) rfl (MemoryLedger.transfer_error htransfer) rfl
      (fun _ _ _ => rfl) rfl
  | @undone command payouts e ledger _ _ hperform =>
    exact .idle (command.accepted?_refused _) rfl (MemoryLedger.performAll_error hperform) rfl
      (fun _ _ _ => rfl) rfl
  | @clock command now =>
    exact .idle (command.accepted?_done) rfl (.refl _) rfl (fun _ _ _ => rfl) rfl
  | timeOverflow => exact .idle rfl rfl (.refl _) rfl (fun _ _ _ => rfl) rfl
  | started hs =>
    refine .idle rfl rfl (.refl _) rfl (fun bid _ _ => ?_) ?_
    · have hnone : a.commitment? = none := by
        rw [commitment?, hs]
        rfl
      rw [owed_of_none hnone]
      rfl
    · simp [baseRetained, hs]
  | @placed depositor tick amount intake ledger hcheck htransfer =>
    exact .placed (a.book.newBid tick depositor amount a.now) rfl rfl rfl
      (a.book.bids_record_perm tick depositor amount a.now) htransfer (fun _ => rfl) rfl
  | @refunded refs caps clearing report a' hs hclearing hrefunds hclosed hs' =>
    refine .closed rfl hrefunds.draft hclosed (fun bid => ?_) ?_
    · rw [owed_of_none (commitment?_of_bidding hs), owed_of_none (commitment?_of_bidding hs')]
    · have hzero := (hrefunds.draft.paidSum_of_none (commitment?_of_bidding hs)).2
      simp only [Response.payouts, hzero]
      simp [baseRetained, hs, hs']
  | @committed caps c hs hc =>
    refine .idle rfl rfl (.refl _) rfl (fun bid hb hw => ?_) ?_
    · have hlost := h.closedLost hs
      have hcommit : c.OfOffers caps a.book.offers := hlost.ofOffers h.indexed hc
      have hlt : bid.tick < c.tick := hcommit.lt_tick_of_lost (hlost bid hb hw)
      rw [owed_of_none (commitment?_of_bidding hs)]
      show c.amountsFor bid = _
      rw [Commitment.amountsFor, if_neg (Tick.not_lt_of_lt hlt), if_pos hlt]
    · simp [baseRetained, hs]
  | uncounted _ hdraft hcount => exact absurd hcount (h.not_uncounted hdraft)
  | @settled owner refs caps c paid paid' report a' hs hsettles hclosed hs' =>
    refine .closed rfl hsettles.draft hclosed (fun bid => ?_) ?_
    · rw [owed_of_some (commitment?_of_finalized hs), owed_of_some (commitment?_of_finalized hs')]
    · have hbase := hsettles.base
      simp only [baseRetained, hs, hs', Stage.paid_finalized]
      exact hbase

end Auction

end BatchAuction
