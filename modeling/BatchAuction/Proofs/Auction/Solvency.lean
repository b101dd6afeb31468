import BatchAuction.Proofs.Auction.Accounting
import BatchAuction.Proofs.Auction.Escrow
import BatchAuction.Proofs.Auction.IntakeBound
import BatchAuction.Proofs.Ledger.Total

/-!
# The ledger can always pay

`Auction.Balanced` puts together what is known of the balances in a run in which escrow has no bid:
what escrow holds, what every other account holds, and that the base of all accounts together is
what it was at the start. From this two things follow. The balances and the payout totals are a
function of the bids and the commitment (`Auction.Balanced.same_money`), so they do not depend on
the way in which a state was reached. And if the ledger had room at the start
(`MemoryLedger.HasRoom`), it performs every batch of payouts
(`Auction.Balanced.exists_performAll`): a refund or a cost comes from escrow and can raise no
balance above the base of all accounts, and the scarce handed out is within its cap.
-/

namespace BatchAuction

open Asset (base scarce)

/-- The base of all accounts is an amount, and every account has room for a total of scarce. -/
structure MemoryLedger.HasRoom (l : MemoryLedger) : Prop where
  base : l.total base < Amount.modulus
  scarce : ∀ x, (l.balance x scarce).toNat ≤ Amount.modulus - 2 ^ 128

/-- What payouts bring to all accounts is their sum. -/
theorem sum_paidTo (part : BidAmounts → Amount) (payouts : List Payout) :
    ∑ x : Account, paidTo x part payouts = Auction.paidSum part payouts := by
  induction payouts with
  | nil => exact Finset.sum_eq_zero fun _ _ => rfl
  | cons p payouts ih =>
    have hcons : ∀ x, paidTo x part (p :: payouts) =
        (if p.depositor = x then (part p.amounts).toNat else 0) + paidTo x part payouts :=
      fun _ => rfl
    simp only [hcons, Finset.sum_add_distrib, ih, Finset.sum_ite_eq, Finset.mem_univ, if_true]
    rfl

namespace Auction

variable {a a' : Auction MemoryLedger} {payouts : List Payout} {command : Command}
  {response : Response}

/-! ## The base of all accounts -/

/-- A batch of payouts moves base between accounts only. -/
theorem Closed.total_base (h : a.Sound) (hd : a.Draft payouts) (hc : a.Closed payouts a') :
    a'.ledger.total base = a.ledger.total base := by
  have hsum := MemoryLedger.total_of_balances fun x =>
    (hc.base_balance h hd x).trans (Nat.add_assoc _ _ _)
  simp only [Finset.sum_add_distrib, Finset.sum_ite_eq, Finset.mem_univ, if_true, sum_paidTo]
    at hsum
  omega

/-- So does every command. -/
theorem Outcome.total_base (h : a.Sound) (ho : a.Outcome command response a') :
    a'.ledger.total base = a.ledger.total base := by
  cases ho.effect h with
  | idle _ _ hsame => exact hsame.total_eq base
  | placed _ _ _ _ _ htransfer => exact MemoryLedger.total_transfer htransfer base
  | closed _ hdraft hclosed => exact hclosed.total_base h hdraft

/-! ## All balances -/

/-- Every balance is known from the ledger at the start, the bids and the commitment. -/
structure Balanced (ledger : MemoryLedger) (a : Auction MemoryLedger) : Prop where
  bounded : a.Bounded
  escrowed : a.Escrowed (ledger.balance a.config.escrow base).toNat
  accounted : ∀ x, x ≠ a.config.escrow → a.Accounted ledger x
  total : a.ledger.total base = ledger.total base
  unmoved : a.ledger.balance a.config.escrow scarce = ledger.balance a.config.escrow scarce

variable {ledger : MemoryLedger}

/-- At the start the balances are those of the start. -/
theorem balanced_create {config : Config} (h : config.validate = .ok ()) (ledger : MemoryLedger) :
    (create config ledger).Balanced ledger where
  bounded := bounded_create h ledger
  escrowed := ⟨sound_create h ledger, rfl, fun _ hb => nomatch hb⟩
  accounted _ hx := ⟨sound_create h ledger, hx, (ite_self 0).symm ▸ rfl, rfl⟩
  total := rfl
  unmoved := rfl

/-- Every outcome of a command that is no accepted bid by escrow keeps it. -/
theorem Balanced.outcome (h : a.Balanced ledger)
    (hne : ∀ o, command.accepted? response ≠ some (a.config.escrow, o))
    (ho : a.Outcome command response a') : a'.Balanced ledger := by
  have hsound := h.bounded.sound
  refine ⟨h.bounded.outcome ho, ?_, fun x hx => ?_, (ho.total_base hsound).trans h.total, ?_⟩
  · rw [ho.config_eq]
    exact h.escrowed.outcome hne ho
  · rw [ho.config_eq] at hx
    exact (h.accounted x hx).outcome ho
  · rw [ho.config_eq, ← h.unmoved]
    cases ho.effect hsound with
    | idle _ _ hsame => exact hsame _ _
    | placed bid _ _ _ _ htransfer =>
      have hmoved := MemoryLedger.transfer_ok htransfer a.config.escrow scarce
      exact Amount.eq_iff.2 (by simpa using hmoved)
    | closed _ hdraft hclosed =>
      have hmoved := hclosed.scarce_balance hsound hdraft a.config.escrow
      rw [h.escrowed.paidTo_escrow hdraft, Nat.add_zero] at hmoved
      exact Amount.eq_iff.2 hmoved

/-- It holds in every state that a run reaches, if escrow has no bid in that state. -/
theorem balanced_after {config : Config} {commands : List Command}
    (hvalid : config.validate = .ok ()) (ha : a = (create config ledger).after commands)
    (hothers : ∀ bid ∈ a.book.bids, bid.depositor ≠ config.escrow) :
    a.config = config ∧ a.Balanced ledger := by
  -- bids stay in the book, so escrow has had no bid in any state before
  have hboth : a.config = config ∧
      ((∀ bid ∈ a.book.bids, bid.depositor ≠ config.escrow) → a.Balanced ledger) := by
    rw [ha]
    refine after_invariant (P := fun b => b.config = config ∧
      ((∀ bid ∈ b.book.bids, bid.depositor ≠ config.escrow) → b.Balanced ledger)) .notStarted ?_
      ⟨rfl, fun _ => balanced_create hvalid ledger⟩
    rintro b command response b' - ho ⟨hconfig, hb⟩
    refine ⟨ho.config_eq.trans hconfig, fun hothers' => ?_⟩
    obtain ⟨hne, hothers⟩ := ho.depositor_ne hothers'
    exact (hb hothers).outcome (hconfig ▸ hne) ho
  exact ⟨hboth.1, hboth.2 hothers⟩

/-- Two states with the same bids and the same commitment have the same balances and the same payout
totals. -/
theorem Balanced.same_money {b : Auction MemoryLedger} {c : Commitment} (h : a.Balanced ledger)
    (h' : b.Balanced ledger) (hconfig : a.config = b.config)
    (hbids : a.book.bids = b.book.bids) (hc : a.commitment? = some c)
    (hc' : b.commitment? = some c) :
    MemoryLedger.Same a.ledger b.ledger ∧ a.scarceDistributed = b.scarceDistributed ∧
      a.baseRetained = b.baseRetained := by
  have hwithdrawn : a.book.withdrawnSum = b.book.withdrawnSum := by
    funext f
    rw [Book.withdrawnSum, Book.withdrawnSum, hbids]
  have hactive : a.book.activeSum = b.book.activeSum := by
    funext f
    rw [Book.activeSum, Book.activeSum, Book.activeBids, Book.activeBids, hbids]
  have howed : a.owedPart = b.owedPart := by
    funext part bid
    rw [owedPart, owedPart, owed_of_some hc, owed_of_some hc']
  obtain ⟨hscarce, hbase⟩ := h.bounded.sound.totals_eq hc
  obtain ⟨hscarce', hbase'⟩ := h'.bounded.sound.totals_eq hc'
  have hretained : a.baseRetained = b.baseRetained :=
    Amount.eq_iff.2 (by rw [hbase, hbase', hwithdrawn])
  refine ⟨fun x s => Amount.eq_iff.2 ?_,
    Amount.eq_iff.2 (by rw [hscarce, hscarce', hwithdrawn]), hretained⟩
  by_cases hx : x = a.config.escrow
  · subst hx
    cases s with
    | base =>
      rw [h.escrowed.balance, hconfig, h'.escrowed.balance, hactive]
    | scarce => rw [h.unmoved, hconfig, h'.unmoved]
  · have hx' : x ≠ b.config.escrow := hconfig ▸ hx
    cases s with
    | base =>
      have hsum := (h.accounted x hx).base
      have hsum' := (h'.accounted x hx').base
      rw [hbids, hwithdrawn, howed, hconfig, hretained] at hsum
      omega
    | scarce =>
      rw [(h.accounted x hx).scarce, (h'.accounted x hx').scarce, hwithdrawn, howed]

/-! ## No batch is refused -/

/-- What closed bids were owed in scarce is what has been handed out. -/
theorem Sound.withdrawnSum_filled (h : a.Sound) :
    a.book.withdrawnSum (a.owedPart BidAmounts.filledScarce) = a.scarceDistributed.toNat := by
  cases hc : a.commitment? with
  | some c =>
    rw [(h.totals_eq hc).1]
    refine Book.withdrawnSum_congr fun bid hb _ => ?_
    obtain ⟨x, hx, hpays⟩ := h.pays hc hb
    rw [owedPart, owed_of_some hc, hx]
    exact hpays.filled
  | none =>
    rw [scarceDistributed, h.coherent.paid_of_none hc]
    refine sum_map_eq_zero_iff.2 fun bid _ => ?_
    rw [owedPart, owed_of_none hc]
    rfl

/-- With a draft, the scarce handed out stays within the largest total. -/
theorem Bounded.scarce_draft_le (h : a.Bounded) (hd : a.Draft payouts) :
    a.scarceDistributed.toNat + paidSum BidAmounts.filledScarce payouts ≤
      Amount.maxTotal.toNat := by
  have hco := h.sound.coherent
  cases hc : a.commitment? with
  | some c =>
    obtain ⟨caps, paid, hs⟩ := hco.commitment?_eq_some_iff.1 hc
    obtain ⟨-, hcap⟩ := h.caps caps (hco.caps?_eq_some_iff.2 (.inr ⟨c, paid, hs⟩))
    rw [scarceDistributed, hs]
    exact Nat.le_trans (h.sound.totals_draft_le hs hd).1 hcap
  | none =>
    rw [(hd.paidSum_of_none hc).1, scarceDistributed, hco.paid_of_none hc]
    exact Nat.zero_le _

/-- A batch brings nothing to escrow. -/
theorem Balanced.credited_escrow (h : a.Balanced ledger) (hd : a.Draft payouts) (s : Asset) :
    Move.credited (payouts.flatMap a.payoutMoves) a.config.escrow s = 0 := by
  cases s with
  | base =>
    rw [hd.credited_payouts_base, h.escrowed.paidTo_escrow hd,
      if_neg h.bounded.sound.accounts.symm]
  | scarce => rw [hd.credited_payouts_scarce, h.escrowed.paidTo_escrow hd]

section
variable {x : Account}

/-- The base that a batch brings to an account comes from escrow, and the two accounts hold no more
than all. -/
theorem Balanced.credited_base_le (h : a.Balanced ledger) (hx : x ≠ a.config.escrow)
    (hd : a.Draft payouts) :
    (a.ledger.balance x base).toNat + Move.credited (payouts.flatMap a.payoutMoves) x base ≤
      ledger.total base := by
  have hcovered := h.escrowed.covers hd a.config.escrow base
  rw [h.bounded.sound.debited_payouts hd, if_pos ⟨rfl, rfl⟩] at hcovered
  have htwo := MemoryLedger.add_le_total (l := a.ledger) (s := base) hx
  rw [h.total] at htwo
  have hpart := paidTo_le x BidAmounts.baseRefund payouts
  rw [hd.credited_payouts_base]
  split <;> omega

/-- With the scarce that a batch brings, an account has gained no more than the largest total. -/
theorem Balanced.credited_scarce_le (h : a.Balanced ledger) (hx : x ≠ a.config.escrow)
    (hd : a.Draft payouts) :
    (a.ledger.balance x scarce).toNat + Move.credited (payouts.flatMap a.payoutMoves) x scarce ≤
      (ledger.balance x scarce).toNat + Amount.maxTotal.toNat := by
  have hgained : a.book.withdrawnSum (Bid.ofAccount x (a.owedPart BidAmounts.filledScarce)) ≤
      a.book.withdrawnSum (a.owedPart BidAmounts.filledScarce) :=
    Book.withdrawnSum_mono fun bid _ _ => bid.ofAccount_le x _
  rw [h.bounded.sound.withdrawnSum_filled] at hgained
  have hpart := paidTo_le x BidAmounts.filledScarce payouts
  have hcap := h.bounded.scarce_draft_le hd
  rw [hd.credited_payouts_scarce, (h.accounted x hx).scarce]
  omega

end

/-- Every account has room for what a batch brings. -/
theorem Balanced.credited_lt (h : a.Balanced ledger) (hroom : ledger.HasRoom) (hd : a.Draft payouts)
    (x : Account) (s : Asset) :
    (a.ledger.balance x s).toNat + Move.credited (payouts.flatMap a.payoutMoves) x s <
      Amount.modulus := by
  by_cases hx : x = a.config.escrow
  · rw [hx, h.credited_escrow hd]
    exact (a.ledger.balance a.config.escrow s).isLt
  · cases s with
    | base => exact Nat.lt_of_le_of_lt (h.credited_base_le hx hd) hroom.base
    | scarce =>
      have hle := h.credited_scarce_le hx hd
      have hstart := hroom.scarce x
      have hlimit : Amount.modulus - 2 ^ 128 + Amount.maxTotal.toNat < Amount.modulus := by decide
      omega

/-- The ledger performs every batch of payouts. -/
theorem Balanced.exists_performAll (h : a.Balanced ledger) (hroom : ledger.HasRoom)
    (hd : a.Draft payouts) :
    ∃ l, AssetLedger.performAll a.ledger (payouts.flatMap a.payoutMoves) = (.ok (), l) :=
  MemoryLedger.exists_performAll (h.escrowed.covers hd) (h.credited_lt hroom hd)

end Auction

end BatchAuction
