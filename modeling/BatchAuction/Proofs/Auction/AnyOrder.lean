import BatchAuction.Proofs.Auction.Solvency

/-!
# Every way to pay off an auction succeeds, and all end alike

After the clearing point is committed, the active bids can be shared out among settlements in any
way and any order, each settlement with bids of one account. None is refused, and in the end
everything that matters is the same (`Auction.paid_in_any_order`).

A settlement pays a batch of active bids (`Auction.Settled`), and settlements one after the other
pay the batches put together (`Auction.Settled.trans`). What has been paid in the end is therefore
one draft of the state at the beginning, and two drafts of the same bids have the same payouts. The
bids at the end are those at the beginning, closed, and they determine all balances.
-/

namespace BatchAuction

open Asset (base scarce)

namespace Auction

/-! ## Calls -/

section
variable {L : Type}

/-- The handles of some settlements find active bids of the accounts that ask for them, and none of
them occurs twice. -/
structure Payable (a : Auction L) (calls : List (Account × List BidRef)) : Prop where
  nodup : (calls.flatMap Prod.snd).Nodup
  found : ∀ call ∈ calls, ∀ ref ∈ call.2, ∃ bid, a.book.get? ref = some bid ∧
    bid.withdrawn = false ∧ bid.depositor = call.1

/-- Some settlements share out all active bids. -/
structure PaysOff (a : Auction L) (calls : List (Account × List BidRef)) : Prop where
  payable : a.Payable calls
  all : ∀ ref bid, a.book.get? ref = some bid → bid.withdrawn = false →
    ref ∈ calls.flatMap Prod.snd

/-- After the first settlement, the others find what they found before. -/
theorem Payable.tail {a b : Auction L} {owner : Account} {refs : List BidRef}
    {calls : List (Account × List BidRef)} (h : a.Payable ((owner, refs) :: calls))
    (hbook : b.book = a.book.closeAll refs) : b.Payable calls := by
  have hnodup := h.nodup
  rw [List.flatMap_cons, List.nodup_append] at hnodup
  obtain ⟨-, hrest, hdisjoint⟩ := hnodup
  refine ⟨hrest, fun call hcall ref href => ?_⟩
  have hnew : ref ∉ refs := fun hr =>
    hdisjoint ref hr ref (List.mem_flatMap.2 ⟨call, hcall, href⟩) rfl
  rw [hbook, Book.get?_closeAll, if_neg hnew]
  exact h.found call (List.mem_cons_of_mem _ hcall) ref href

/-- Two ways to pay off an auction list the same handles. -/
theorem PaysOff.perm {a : Auction L} {calls calls' : List (Account × List BidRef)}
    (h : a.PaysOff calls) (h' : a.PaysOff calls') :
    (calls.flatMap Prod.snd).Perm (calls'.flatMap Prod.snd) := by
  have listed {calls calls' : List (Account × List BidRef)} (h : a.PaysOff calls)
      (h' : a.PaysOff calls') {ref : BidRef} (href : ref ∈ calls.flatMap Prod.snd) :
      ref ∈ calls'.flatMap Prod.snd := by
    obtain ⟨call, hcall, hmem⟩ := List.mem_flatMap.1 href
    obtain ⟨bid, hget, hactive, -⟩ := h.payable.found call hcall ref hmem
    exact h'.all ref bid hget hactive
  exact (List.perm_ext_iff_of_nodup h.payable.nodup h'.payable.nodup).2 fun _ =>
    ⟨listed h h', listed h' h⟩

/-- The order of the settlements does not matter. -/
theorem PaysOff.of_perm {a : Auction L} {calls calls' : List (Account × List BidRef)}
    (h : a.PaysOff calls) (hp : calls.Perm calls') : a.PaysOff calls' := by
  have hrefs : (calls.flatMap Prod.snd).Perm (calls'.flatMap Prod.snd) := hp.flatMap_right _
  exact ⟨⟨hrefs.nodup h.payable.nodup, fun call hcall =>
      h.payable.found call (hp.mem_iff.2 hcall)⟩,
    fun ref bid hget hactive => hrefs.mem_iff.1 (h.all ref bid hget hactive)⟩

/-- Performs some settlements in order. -/
def settleAll [AssetLedger L] (a : Auction L) (calls : List (Account × List BidRef)) :
    List Response × Auction L :=
  a.run (calls.map fun call => .settle call.1 call.2)

end

variable {a b d : Auction MemoryLedger} {ledger : MemoryLedger} {c : Commitment}

/-! ## Batches that are paid -/

/-- State `b` comes from state `a` by some payouts to active bids. -/
structure Settled (ledger : MemoryLedger) (a : Auction MemoryLedger) (payouts : List Payout)
    (b : Auction MemoryLedger) : Prop where
  balanced : b.Balanced ledger
  config : b.config = a.config
  commitment : b.commitment? = a.commitment?
  draft : a.Draft payouts
  book : b.book = a.book.closeAll (payouts.map Payout.bid)

/-- No batch at all is a batch. -/
theorem Settled.refl (h : a.Balanced ledger) : Settled ledger a [] a :=
  ⟨h, rfl, rfl, .nil, rfl⟩

/-- One batch after another is one batch. -/
theorem Settled.trans {payouts more : List Payout} (h : Settled ledger a payouts b)
    (h' : Settled ledger b more d) : Settled ledger a (payouts ++ more) d where
  balanced := h'.balanced
  config := h'.config.trans h.config
  commitment := h'.commitment.trans h.commitment
  draft := h.draft.append h.book (fun bid => by rw [owed, owed, h.commitment]) h'.draft
  book := by rw [h'.book, h.book, List.map_append, Book.closeAll_append]

/-- A settlement of active bids of one account, none of them twice, is not refused. -/
theorem Balanced.settle_ok (h : a.Balanced ledger) (hroom : ledger.HasRoom)
    (hc : a.commitment? = some c) {owner : Account} {refs : List BidRef} (hnodup : refs.Nodup)
    (hfound : ∀ ref ∈ refs, ∃ bid, a.book.get? ref = some bid ∧ bid.withdrawn = false ∧
      bid.depositor = owner) :
    ∃ report b, a.step (.settle owner refs) = (.reported report, b) ∧
      Settled ledger a report.payouts b ∧ report.payouts.map Payout.bid = refs := by
  obtain ⟨caps, paid, hs⟩ := h.bounded.sound.coherent.commitment?_eq_some_iff.1 hc
  obtain ⟨report, paid', hplan⟩ := h.bounded.sound.exists_planSettlement hs hnodup hfound
  obtain ⟨_, _, _, _, hsettles⟩ := planSettlement_ok h.bounded.sound.coherent hplan
  obtain ⟨l, hperform⟩ := h.exists_performAll hroom hsettles.draft
  rcases settle_cases h.bounded.sound.coherent hplan with ⟨_, -, hsettle⟩ | ⟨e, _, herror, -⟩
  · obtain ⟨b, hstep⟩ : ∃ b, a.step (.settle owner refs) = (.reported report, b) :=
      ⟨(a.settle owner refs).2, by simp only [step, hsettle, Response.ofResult]⟩
    have ho := step_outcome h.bounded.sound.coherent (.settle owner refs)
    rw [hstep] at ho
    have hnone : (Command.settle owner refs).accepted? (.reported report) = none := rfl
    have hbalanced : b.Balanced ledger :=
      h.outcome (fun _ heq => Option.some_ne_none _ (heq.symm.trans hnone)) ho
    refine ⟨report, b, hstep, ?_, hsettles.refs⟩
    cases ho with
    | settled hs' _ hclosed hsb =>
      refine ⟨hbalanced, hclosed.config, ?_, hsettles.draft, hclosed.book⟩
      rw [commitment?_of_finalized hs', commitment?_of_finalized hsb]
  · rw [hperform] at herror
    cases herror

/-- No settlement of a list that can be paid is refused, and together they pay one batch. -/
theorem Balanced.settleAll_ok (hroom : ledger.HasRoom) {calls : List (Account × List BidRef)} :
    ∀ {a : Auction MemoryLedger}, a.Balanced ledger → a.commitment? = some c → a.Payable calls →
      (∀ response ∈ (a.settleAll calls).1, ∃ report, response = .reported report) ∧
      Settled ledger a ((a.settleAll calls).1.flatMap Response.payouts) (a.settleAll calls).2 ∧
      ((a.settleAll calls).1.flatMap Response.payouts).map Payout.bid = calls.flatMap Prod.snd := by
  induction calls with
  | nil => exact fun h _ _ => ⟨fun _ hr => (nomatch hr), .refl h, rfl⟩
  | cons call calls ih =>
    obtain ⟨owner, refs⟩ := call
    intro a h hc hp
    have hnodup : refs.Nodup := by
      have hall := hp.nodup
      rw [List.flatMap_cons, List.nodup_append] at hall
      exact hall.1
    obtain ⟨report, b, hstep, hsettled, hrefs⟩ :=
      h.settle_ok hroom hc hnodup (hp.found (owner, refs) List.mem_cons_self)
    have hrest := ih hsettled.balanced (hsettled.commitment.trans hc)
      (hp.tail (hrefs ▸ hsettled.book))
    obtain ⟨hreports, hsettled', hrefs'⟩ := hrest
    have hrun : a.settleAll ((owner, refs) :: calls) =
        (.reported report :: (b.settleAll calls).1, (b.settleAll calls).2) := by
      simp only [settleAll, List.map_cons, run, hstep]
    rw [hrun]
    refine ⟨fun response hr => ?_, hsettled.trans hsettled', ?_⟩
    · rcases List.mem_cons.1 hr with rfl | hr
      · exact ⟨report, rfl⟩
      · exact hreports response hr
    · rw [List.flatMap_cons, List.map_append, hrefs', List.flatMap_cons]
      exact congrArg (· ++ _) hrefs

/-! ## The end -/

/-- When the handles of all active bids have been paid, all bids are closed. -/
theorem Settled.bids_eq {payouts : List Payout} (h : Settled ledger a payouts b)
    (hall : ∀ ref bid, a.book.get? ref = some bid → bid.withdrawn = false →
      ref ∈ payouts.map Payout.bid) : b.book.bids = a.book.bids.map Bid.close := by
  rw [h.book]
  exact Book.bids_closeAll_of_all h.draft.opens hall

/-- When all bids are closed, escrow holds what it held at the start. -/
theorem Balanced.escrowBalance_eq (h : a.Balanced ledger)
    (hclosed : ∀ bid ∈ a.book.bids, bid.isActive = false) :
    a.escrowBalance = ledger.balance a.config.escrow base := by
  have hnone : a.book.activeBids = [] :=
    List.filter_eq_nil_iff.2 fun bid hbid => Bool.eq_false_iff.1 (hclosed bid hbid)
  have hbalance := h.escrowed.balance
  rw [Book.activeSum, hnone] at hbalance
  exact Amount.eq_iff.2 hbalance

/-- After the clearing point is committed, in a run in which escrow has no bid and no balance can
overflow, every way to share out the active bids among settlements succeeds: each bid is paid what
the commitment says, all bids are closed, and escrow holds what it held at the start. And all ways
end with the same payouts, the same balances of all accounts and the same payout totals. -/
theorem paid_in_any_order {config : Config} {commands : List Command}
    {calls : List (Account × List BidRef)} (hvalid : config.validate = .ok ())
    (ha : a = (create config ledger).after commands) (hc : a.commitment? = some c)
    (hothers : ∀ bid ∈ a.book.bids, bid.depositor ≠ config.escrow)
    (hbase : ledger.total base < Amount.modulus)
    (hscarce : ∀ x, (ledger.balance x scarce).toNat ≤ Amount.modulus - 2 ^ 128)
    (hcalls : a.PaysOff calls) :
    (∀ response ∈ (a.settleAll calls).1, ∃ report, response = .reported report) ∧
      (∀ ref bid, a.book.get? ref = some bid → bid.withdrawn = false →
        ∃ x, c.amountsFor bid = .ok x ∧
          ⟨ref, bid.depositor, x⟩ ∈ (a.settleAll calls).1.flatMap Response.payouts) ∧
      (a.settleAll calls).2.book.bids = a.book.bids.map Bid.close ∧
      (a.settleAll calls).2.escrowBalance = ledger.balance config.escrow base ∧
      ∀ calls', a.PaysOff calls' →
        ((a.settleAll calls).1.flatMap Response.payouts).Perm
          ((a.settleAll calls').1.flatMap Response.payouts) ∧
        (∀ x s, (a.settleAll calls).2.ledger.balance x s =
          (a.settleAll calls').2.ledger.balance x s) ∧
        (a.settleAll calls).2.scarceDistributed = (a.settleAll calls').2.scarceDistributed ∧
        (a.settleAll calls).2.baseRetained = (a.settleAll calls').2.baseRetained := by
  obtain ⟨rfl, h⟩ := balanced_after hvalid ha hothers
  have hroom : ledger.HasRoom := ⟨hbase, hscarce⟩
  obtain ⟨hreports, hsettled, hrefs⟩ := h.settleAll_ok hroom hc hcalls.payable
  have hbids := hsettled.bids_eq (hrefs ▸ hcalls.all)
  refine ⟨hreports, fun ref bid hget hactive => ?_, hbids, ?_, fun calls' hcalls' => ?_⟩
  · obtain ⟨x, hx, hmem⟩ := hsettled.draft.pays hget (hrefs ▸ hcalls.all ref bid hget hactive)
    exact ⟨x, (owed_of_some hc bid).symm.trans hx, hmem⟩
  · rw [hsettled.balanced.escrowBalance_eq, hsettled.config]
    intro bid hbid
    rw [hbids] at hbid
    obtain ⟨old, -, rfl⟩ := List.mem_map.1 hbid
    rfl
  · obtain ⟨-, hsettled', hrefs'⟩ := h.settleAll_ok hroom hc hcalls'.payable
    have hbids' := hsettled'.bids_eq (hrefs' ▸ hcalls'.all)
    refine ⟨hsettled.draft.perm hsettled'.draft ?_, ?_⟩
    · rw [hrefs, hrefs']
      exact hcalls.perm hcalls'
    · exact hsettled.balanced.same_money hsettled'.balanced
        (hsettled.config.trans hsettled'.config.symm) (hbids.trans hbids'.symm)
        (hsettled.commitment.trans hc) (hsettled'.commitment.trans hc)

/-- The two active bids of the small auction, each paid by itself. -/
def smallShares : List (Account × List BidRef) :=
  [(smallWinner, [⟨smallHigh, 0⟩]), (smallMarginal, [⟨.zero, 0⟩])]

/-- Together they pay off all active bids. -/
theorem smallShares_paysOff : smallCleared.PaysOff smallShares := by
  have hwinner : smallCleared.book.get? ⟨smallHigh, 0⟩ =
      some ⟨smallHigh, 0, smallWinner, 70, false, .zero⟩ := by
    decide +kernel
  have hmarginal : smallCleared.book.get? ⟨.zero, 0⟩ =
      some ⟨.zero, 0, smallMarginal, 60, false, .zero⟩ := by
    decide +kernel
  have hall : ∀ bid ∈ smallCleared.book.bids, bid.withdrawn = false →
      bid.ref ∈ smallShares.flatMap Prod.snd := by
    decide +kernel
  refine ⟨⟨by decide, fun call hcall ref href => ?_⟩, fun ref bid hget hactive => ?_⟩
  · simp only [smallShares, List.mem_cons, List.not_mem_nil, or_false] at hcall
    rcases hcall with rfl | rfl
    · obtain rfl := List.mem_singleton.1 href
      exact ⟨_, hwinner, rfl, rfl⟩
    · obtain rfl := List.mem_singleton.1 href
      exact ⟨_, hmarginal, rfl, rfl⟩
  · rw [← smallCleared_reachable.sound.indexed ref bid hget]
    exact hall bid (Book.mem_bids.2 ⟨ref, hget⟩) hactive

/-- The two bids of the small auction can be paid in either order. -/
theorem small_paid_in_any_order :
    (∀ response ∈ (smallCleared.settleAll smallShares.reverse).1,
        ∃ report, response = .reported report) ∧
      (smallCleared.settleAll smallShares.reverse).2.escrowBalance = 0 ∧
      ∀ x s, (smallCleared.settleAll smallShares.reverse).2.ledger.balance x s =
        (smallCleared.settleAll smallShares).2.ledger.balance x s := by
  obtain ⟨c, hc⟩ := Option.isSome_iff_exists.1
    (show smallCleared.commitment?.isSome = true by decide +kernel)
  have hvalid : Config.standard.validate = .ok () := by decide
  have hothers : ∀ bid ∈ smallCleared.book.bids, bid.depositor ≠ Config.standard.escrow := by
    decide +kernel
  have hbase : smallLedger.total base < Amount.modulus := by decide +kernel
  have hscarce : ∀ x, (smallLedger.balance x scarce).toNat ≤ Amount.modulus - 2 ^ 128 := by
    intro x
    simp only [smallLedger, MemoryLedger.balance_withBalance, reduceCtorEq, and_false, if_false]
    exact Nat.zero_le _
  have hescrow : smallLedger.balance Config.standard.escrow base = 0 := by decide
  have hback := smallShares_paysOff.of_perm (List.reverse_perm smallShares).symm
  obtain ⟨hreports, -, -, hleft, hsame⟩ :=
    paid_in_any_order hvalid (Eq.refl smallCleared) hc hothers hbase hscarce hback
  exact ⟨hreports, hleft.trans hescrow, (hsame smallShares smallShares_paysOff).2.1⟩

end Auction

end BatchAuction
