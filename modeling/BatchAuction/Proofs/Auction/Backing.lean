import BatchAuction.Proofs.Auction.Money

/-!
# What an accepted bid takes in

An accepted bid comes last in the bucket of its tick (`Book.Appended`), the sum over the active bids
grows by its amount, and the log gets one event. Behind it there should be fresh base: escrow has
the amount more, the depositor has it less, and no other balance changes (`MemoryLedger.TakenIn`).
This holds for every depositor but one, the escrow account itself (`Auction.bid_backed_iff`). Escrow
pays such a bid to itself, so that no balance changes, and afterwards the active bids are worth more
than what it holds (`Auction.bid_by_escrow_unbacked`).
-/

namespace BatchAuction

open Asset (base)

/-! ## The book -/

namespace Book

/-- A book has one more bid, at the end of the bucket of its tick, and is the same otherwise. -/
structure Appended (b : Book) (bid : Bid) (b' : Book) : Prop where
  bucket : b'.bucket? bid.tick = some (((b.bucket? bid.tick).getD .empty).push bid)
  others : ∀ t ≠ bid.tick, b'.bucket? t = b.bucket? t
  size : b'.size = if b.size < maxSize then b.size + 1 else b.size

/-- A recorded bid is appended. -/
theorem appended_record (b : Book) (tick : Tick) (depositor : Account) (amount : Amount)
    (time : Timestamp) :
    b.Appended (b.newBid tick depositor amount time)
      (b.record tick depositor amount time).2 where
  bucket := SortedMap.get?_upsert_self ..
  others _ ht := SortedMap.get?_upsert_of_ne _ _ ht.symm
  size := rfl

end Book

/-! ## The ledger -/

namespace MemoryLedger

open AssetLedger (transfer)

/-- An amount of base has gone from the depositor into escrow, and no other balance has changed. -/
structure TakenIn (l : MemoryLedger) (depositor escrow : Account) (amount : Amount)
    (l' : MemoryLedger) : Prop where
  gained : (l'.balance escrow base).toNat = (l.balance escrow base).toNat + amount.toNat
  paid : (l'.balance depositor base).toNat + amount.toNat = (l.balance depositor base).toNat
  others : ∀ x s, (s = base → x ≠ depositor ∧ x ≠ escrow) → l'.balance x s = l.balance x s

variable {l l' : MemoryLedger} {depositor escrow : Account} {amount : Amount}

/-- A transfer between two accounts takes the amount in. -/
theorem takenIn_of_transfer (h : transfer l depositor escrow base amount = (.ok (), l'))
    (hne : depositor ≠ escrow) : l.TakenIn depositor escrow amount l' where
  gained := by
    have hmoved := transfer_ok h escrow base
    rwa [Move.debits_debit, Move.credits_credit, if_neg fun hx => hne hx.1,
      if_pos ⟨rfl, rfl⟩] at hmoved
  paid := by
    have hmoved := transfer_ok h depositor base
    rwa [Move.debits_debit, Move.credits_credit, if_pos ⟨rfl, rfl⟩,
      if_neg fun hx => hne hx.1.symm] at hmoved
  others x s hother := by
    have hmoved := transfer_ok h x s
    rw [Move.debits_debit, Move.credits_credit, if_neg fun hx => (hother hx.2.symm).1 hx.1.symm,
      if_neg fun hx => (hother hx.2.symm).2 hx.1.symm] at hmoved
    exact Amount.eq_iff.2 hmoved

/-- A transfer of an account to itself changes no balance. -/
theorem same_of_transfer_self {x : Account} {s : Asset}
    (h : transfer l x x s amount = (.ok (), l')) : Same l' l := by
  intro y s'
  have hmoved := transfer_ok h y s'
  rw [Move.debits_debit, Move.credits_credit] at hmoved
  exact Amount.eq_iff.2 (Nat.add_right_cancel hmoved)

end MemoryLedger

/-! ## Accepted bids -/

namespace Auction

section
variable {L : Type} {a a' : Auction L} {depositor : Account} {tick : Tick} {amount : Amount}

/-- No bid of nothing is accepted. -/
theorem amount_pos_of_checkBid {intake : Totals} (h : a.checkBid tick amount = .ok intake) :
    0 < amount.toNat := by
  obtain ⟨⟨⟩, -, h⟩ := bind_eq_ok_iff.1 h
  split at h
  · cases h
  · rename_i hzero
    exact Nat.pos_of_ne_zero fun heq => hzero (Amount.eq_iff.2 heq)

variable [AssetLedger L]

/-- An accepted bid has passed the check, its amount has been transferred, and it is recorded. -/
theorem submitBid_ok {ref : BidRef} (h : a.submitBid depositor tick amount = (.ok ref, a')) :
    ∃ intake ledger, a.checkBid tick amount = .ok intake ∧
      AssetLedger.transfer a.ledger depositor a.config.escrow base amount = (.ok (), ledger) ∧
      ref = ⟨tick, a.book.nextIndex tick⟩ ∧
      a' = { a with
        ledger, intake, book := (a.book.record tick depositor amount a.now).2 }.emit
          (.bidSubmitted ref depositor amount) := by
  unfold submitBid at h
  split at h
  · cases h
  · rename_i intake hcheck
    split at h
    · cases h
    · rename_i ledger htransfer
      cases h
      exact ⟨intake, ledger, hcheck, htransfer, rfl, rfl⟩

end

variable {a a' : Auction MemoryLedger} {depositor : Account} {tick : Tick} {amount : Amount}
  {ref : BidRef}

/-- In every state that is attained, an accepted bid takes its amount in, unless escrow itself
places it; then no balance changes. In either case the bid is active and comes last at its tick, its
handle is the answer, the sum over the active bids grows by its amount, one event is added, and the
settings, the stage and the time stay as they are. -/
theorem bid_backed_iff (h : a.Attained)
    (hok : a.submitBid depositor tick amount = (.ok ref, a')) :
    (a.ledger.TakenIn depositor a.config.escrow amount a'.ledger ↔ depositor ≠ a.config.escrow) ∧
      (depositor = a.config.escrow → ∀ x s, a'.ledger.balance x s = a.ledger.balance x s) ∧
      ref = ⟨tick, ((a.book.bucket? tick).getD .empty).size⟩ ∧
      a.book.Appended ⟨tick, ref.index, depositor, amount, false, a.now⟩ a'.book ∧
      a'.book.activeEscrow.toNat = a.book.activeEscrow.toNat + amount.toNat ∧
      a'.log.events = takeLast a.config.maxEvents
        (a.log.events ++ [⟨a.log.nextId, a.now, .bidSubmitted ref depositor amount⟩]) ∧
      a'.log.nextId = a.log.nextId + 1 ∧
      a'.config = a.config ∧ a'.stage = a.stage ∧ a'.now = a.now := by
  have hsound' : a'.Sound := by
    have ho := a.submitBid_outcome depositor tick amount
    rw [hok] at ho
    exact h.sound.outcome ho
  obtain ⟨intake, ledger, hcheck, htransfer, rfl, rfl⟩ := submitBid_ok hok
  have hself (heq : depositor = a.config.escrow) : MemoryLedger.Same ledger a.ledger :=
    MemoryLedger.same_of_transfer_self (heq ▸ htransfer)
  refine ⟨⟨fun htaken heq => ?_, MemoryLedger.takenIn_of_transfer htransfer⟩, hself, rfl,
    a.book.appended_record tick depositor amount a.now, ?_, rfl, rfl, rfl, rfl, rfl⟩
  · -- a positive amount cannot have come in where no balance has changed
    have hgrown := htaken.gained
    have hpos := amount_pos_of_checkBid hcheck
    have hsame : ledger.balance a.config.escrow base = a.ledger.balance a.config.escrow base :=
      hself heq _ _
    simp only [emit_ledger, hsame] at hgrown
    omega
  · rw [Book.toNat_activeEscrow hsound'.activeSum_lt,
      Book.toNat_activeEscrow h.sound.activeSum_lt, Nat.add_comm]
    exact Book.activeSum_of_perm (a.book.bids_record_perm tick depositor amount a.now) rfl _

/-- The small auction before its refund, with some base on the proceeds account. -/
def smallProceeds : Auction MemoryLedger :=
  (create .standard (smallLedger.withBalance Config.standard.proceeds .base 10)).after
    (smallBidding.take 4)

/-- The proceeds account may bid as any other. -/
theorem small_bid_backed :
    ∃ a', smallProceeds.submitBid Config.standard.proceeds .zero 10 = (.ok ⟨.zero, 1⟩, a') ∧
      smallProceeds.ledger.TakenIn Config.standard.proceeds Config.standard.escrow 10
        a'.ledger := by
  have hreachable : smallProceeds.Reachable :=
    ⟨.standard, smallLedger.withBalance Config.standard.proceeds .base 10, smallBidding.take 4,
      by decide, rfl⟩
  have hok : (smallProceeds.submitBid Config.standard.proceeds .zero 10).1 = .ok ⟨.zero, 1⟩ := by
    decide +kernel
  obtain ⟨a', ha'⟩ : ∃ a', smallProceeds.submitBid Config.standard.proceeds .zero 10 =
      (.ok ⟨.zero, 1⟩, a') := ⟨_, Prod.ext hok rfl⟩
  have hescrow : smallProceeds.config.escrow = Config.standard.escrow := by decide +kernel
  obtain ⟨hiff, -⟩ := bid_backed_iff hreachable.attained ha'
  rw [hescrow] at hiff
  exact ⟨a', ha', hiff.2 (by decide)⟩

/-! ## A bid by escrow -/

/-- One bid of 60 in escrow. -/
def smallBacked : Auction MemoryLedger :=
  (create .standard smallLedger).after [.start 100 100, .submitBid smallMarginal .zero 60]

/-- The same with another bid of 60, which escrow places with the base of the first one. -/
def smallUnbacked : Auction MemoryLedger :=
  (smallBacked.submitBid Config.standard.escrow .zero 60).2

/-- A bid by escrow is accepted and takes nothing in: the active bids are worth 120, and escrow
holds 60. So when the clearing point is committed and escrow is paid, there is too little left for
the bidder whose base it was. -/
theorem bid_by_escrow_unbacked :
    smallBacked.Reachable ∧
      (smallBacked.submitBid Config.standard.escrow .zero 60).1 = .ok ⟨.zero, 1⟩ ∧
      ¬ smallBacked.ledger.TakenIn Config.standard.escrow smallBacked.config.escrow 60
        smallUnbacked.ledger ∧
      smallUnbacked.book.activeEscrow = 120 ∧ smallUnbacked.escrowBalance = 60 ∧
      ((smallUnbacked.after [.finalize, .settle Config.standard.escrow [⟨.zero, 1⟩]]).settle
          smallMarginal [⟨.zero, 0⟩]).1 =
        .error (.ledger (.insufficientBalance Config.standard.escrow .base 60 10)) := by
  refine ⟨⟨.standard, smallLedger, _, by decide, rfl⟩, by decide +kernel, ?_, by decide +kernel,
    by decide +kernel, by decide +kernel⟩
  intro htaken
  have hescrow : (smallUnbacked.ledger.balance smallBacked.config.escrow base).toNat =
      (smallBacked.ledger.balance smallBacked.config.escrow base).toNat := by decide +kernel
  have hgrown := htaken.gained
  rw [hescrow] at hgrown
  exact absurd hgrown (by decide +kernel)

end Auction

end BatchAuction
