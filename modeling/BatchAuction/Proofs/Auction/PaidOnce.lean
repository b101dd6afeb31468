import BatchAuction.Proofs.Auction.Sound

/-!
# No bid is paid twice

A run reports the payouts of all refunds and settlements that succeed (`Auction.reported`). At every
moment the bids closed so far are exactly the bids of the payouts reported so far, and no bid has
two of them: the invariant is `Auction.PaidOff`. A batch adds the payouts of bids that it finds
active and closes them; a new bid is active and has a handle that nothing was reported for
(`Book.get?_record_new`); nothing else touches the bids, and a batch that the ledger refuses reports
nothing. A bid only ever changes by being closed (`Auction.Outcome.bid_kept`), so what was reported
about it stays true (`Auction.paid_at_most_once`).
-/

namespace BatchAuction

/-- Nothing about a bid has changed since, except that it may have been closed. -/
structure Bid.Since (bid bid' : Bid) : Prop where
  same : bid'.close = bid.close
  withdrawn : bid.withdrawn = true → bid'.withdrawn = true

/-- A bid is what it was. -/
theorem Bid.Since.refl (bid : Bid) : bid.Since bid := ⟨rfl, id⟩

/-- A bid may have been closed since. -/
theorem Bid.since_close (bid : Bid) : bid.Since bid.close := ⟨rfl, fun _ => rfl⟩

/-- What a bid is after two moments it is after the first. -/
theorem Bid.Since.trans {b₁ b₂ b₃ : Bid} (h : b₁.Since b₂) (h' : b₂.Since b₃) : b₁.Since b₃ :=
  ⟨h'.same.trans h.same, fun hw => h'.withdrawn (h.withdrawn hw)⟩

namespace Auction

variable {L : Type} {a a' : Auction L} {payouts more : List Payout} {ref : BidRef} {bid : Bid}

/-! ## What has been reported -/

/-- The payouts reported so far are those of the bids closed so far, one each, to the account of the
bid, and what a payout returns and keeps is the amount of the bid. -/
structure PaidOff (a : Auction L) (payouts : List Payout) : Prop where
  nodup : (payouts.map Payout.bid).Nodup
  closed : ∀ p ∈ payouts, ∃ bid, a.book.get? p.bid = some bid ∧ bid.withdrawn = true ∧
    p.depositor = bid.depositor ∧
    p.amounts.baseRefund.toNat + p.amounts.baseCost.toNat = bid.amount.toNat
  complete : ∀ ref bid, a.book.get? ref = some bid → bid.withdrawn = true →
    ref ∈ payouts.map Payout.bid

/-- A new auction has paid nothing. -/
theorem paidOff_create (config : Config) (ledger : L) : (create config ledger).PaidOff [] :=
  ⟨List.nodup_nil, fun _ hp => (nomatch hp), fun _ _ hget => nomatch hget⟩

/-- What is paid off is read off the book. -/
theorem PaidOff.of_book (h : a.PaidOff payouts) (hbook : a'.book = a.book) : a'.PaidOff payouts :=
  ⟨h.nodup, hbook ▸ h.closed, hbook ▸ h.complete⟩

/-- The flag of a bid says whether the bid has been reported. -/
theorem PaidOff.withdrawn_iff (h : a.PaidOff payouts) (hget : a.book.get? ref = some bid) :
    bid.withdrawn = true ↔ ref ∈ payouts.map Payout.bid := by
  refine ⟨h.complete ref bid hget, fun hmem => ?_⟩
  obtain ⟨p, hp, rfl⟩ := List.mem_map.1 hmem
  obtain ⟨bid', hget', hw, -⟩ := h.closed p hp
  obtain rfl : bid = bid' := Option.some.inj (hget.symm.trans hget')
  exact hw

/-- A new bid has not been reported. -/
theorem PaidOff.record {tick : Tick} {depositor : Account} {amount : Amount} {time : Timestamp}
    (h : a.PaidOff payouts)
    (hbook : a'.book = (a.book.record tick depositor amount time).2) : a'.PaidOff payouts := by
  have hnew := a.book.get?_record_new tick depositor amount time
  refine ⟨h.nodup, fun p hp => ?_, fun ref bid hget hw => ?_⟩
  · obtain ⟨bid, hget, hrest⟩ := h.closed p hp
    refine ⟨bid, ?_, hrest⟩
    have hne : p.bid ≠ (a.book.record tick depositor amount time).1 := by
      intro heq
      rw [heq, hnew] at hget
      cases hget
    rw [hbook, Book.get?_record, if_neg hne, hget]
  · rw [hbook, Book.get?_record] at hget
    split at hget
    · cases hget
      cases hw
    · exact h.complete ref bid hget hw

/-- A batch reports bids that were active, and closes them. -/
theorem PaidOff.batch (hs : a.Sound) (h : a.PaidOff payouts) (hd : a.Draft more)
    (hbook : a'.book = a.book.closeAll (more.map Payout.bid)) : a'.PaidOff (payouts ++ more) := by
  have hfresh : ∀ p ∈ more, p.bid ∉ payouts.map Payout.bid := by
    intro p hp hmem
    obtain ⟨bid, hget, hactive, -⟩ := hd.found p hp
    rw [(h.withdrawn_iff hget).2 hmem] at hactive
    cases hactive
  refine ⟨?_, fun p hp => ?_, fun ref bid hget hw => ?_⟩
  · rw [List.map_append, List.nodup_append]
    refine ⟨h.nodup, hd.nodup, fun r hr r' hr' heq => ?_⟩
    obtain ⟨p, hp, rfl⟩ := List.mem_map.1 hr'
    exact hfresh p hp (heq ▸ hr)
  · rcases List.mem_append.1 hp with hold | hnew
    · obtain ⟨bid, hget, hrest⟩ := h.closed p hold
      refine ⟨bid, ?_, hrest⟩
      rw [hbook, Book.get?_closeAll, hget, Option.map_some, Bid.close_of_withdrawn hrest.1,
        ite_self]
    · obtain ⟨bid, hget, -, hdepositor, howed⟩ := hd.found p hnew
      have hwhole := hs.whole_of_owed (Book.mem_bids.2 ⟨_, hget⟩) howed
      refine ⟨bid.close, ?_, rfl, hdepositor, hwhole⟩
      rw [hbook, Book.get?_closeAll, if_pos (List.mem_map_of_mem hnew), hget, Option.map_some]
  · rw [List.map_append, List.mem_append]
    rw [hbook, Book.get?_closeAll] at hget
    split at hget
    · rename_i hmem
      exact .inr hmem
    · exact .inl (h.complete ref bid hget hw)

variable [AssetLedger L]

/-- Every outcome of a command reports the bids that it closes. -/
theorem PaidOff.outcome {command : Command} {response : Response} (hs : a.Sound)
    (h : a.PaidOff payouts) (ho : a.Outcome command response a') :
    a'.PaidOff (payouts ++ response.payouts) := by
  cases ho with
  | refunded _ _ hrefunds hclosed => exact h.batch hs hrefunds.draft hclosed.book
  | settled _ hsettles hclosed => exact h.batch hs hsettles.draft hclosed.book
  | uncounted _ hdraft hcount => exact absurd hcount (hs.not_uncounted hdraft)
  | placed =>
    simp only [Response.payouts, List.append_nil]
    exact h.record rfl
  | _ =>
    simp only [Response.payouts, List.append_nil]
    exact h.of_book rfl

/-- The payouts that a run reports. -/
def reported (a : Auction L) (commands : List Command) : List Payout :=
  (a.run commands).1.flatMap Response.payouts

/-- The payouts of the first command are reported first. -/
theorem reported_cons (a : Auction L) (command : Command) (commands : List Command) :
    a.reported (command :: commands) =
      (a.step command).1.payouts ++ (a.step command).2.reported commands := rfl

/-- A run reports the bids that it closes. -/
theorem PaidOff.after {commands : List Command} (hs : a.Sound) (h : a.PaidOff payouts) :
    (a.after commands).PaidOff (payouts ++ a.reported commands) := by
  induction commands generalizing a payouts with
  | nil =>
    rw [reported, run, List.flatMap_nil, List.append_nil]
    exact h
  | cons command commands ih =>
    have ho := step_outcome hs.coherent command
    rw [after_cons, reported_cons, ← List.append_assoc]
    exact ih (hs.outcome ho) (h.outcome hs ho)

/-! ## What becomes of a bid -/

/-- A bid keeps its handle, and nothing but its flag changes. -/
theorem Outcome.bid_kept {command : Command} {response : Response}
    (ho : a.Outcome command response a') (hget : a.book.get? ref = some bid) :
    ∃ bid', a'.book.get? ref = some bid' ∧ bid.Since bid' := by
  have closing {refs : List BidRef} (hbook : a'.book = a.book.closeAll refs) :
      ∃ bid', a'.book.get? ref = some bid' ∧ bid.Since bid' := by
    rw [hbook, Book.get?_closeAll, hget]
    split
    · exact ⟨bid.close, rfl, bid.since_close⟩
    · exact ⟨bid, rfl, .refl bid⟩
  cases ho with
  | refunded _ _ _ hclosed => exact closing hclosed.book
  | settled _ _ hclosed => exact closing hclosed.book
  | uncounted _ _ _ _ _ _ hbook => exact closing hbook
  | @placed depositor tick amount =>
    have hne : ref ≠ (a.book.record tick depositor amount a.now).1 := by
      rintro rfl
      rw [Book.get?_record_new] at hget
      cases hget
    refine ⟨bid, ?_, .refl bid⟩
    rw [emit_book, Book.get?_record, if_neg hne, hget]
  | _ => exact ⟨bid, hget, .refl bid⟩

/-- And so it does over any commands. -/
theorem bid_kept_after (hco : a.stage.Coherent) (hget : a.book.get? ref = some bid)
    (commands : List Command) :
    ∃ bid', (a.after commands).book.get? ref = some bid' ∧ bid.Since bid' :=
  after_invariant (P := fun b => ∃ bid', b.book.get? ref = some bid' ∧ bid.Since bid') hco
    (fun _ ho hb => by
      obtain ⟨bid₁, hget₁, hsince₁⟩ := hb
      obtain ⟨bid₂, hget₂, hsince₂⟩ := ho.bid_kept hget₁
      exact ⟨bid₂, hget₂, hsince₁.trans hsince₂⟩)
    ⟨bid, hget, .refl bid⟩

/-- In every run over any ledger no bid is reported twice, and the closed bids are exactly those
that have been reported. Every payout names the account of its bid, and what it returns and keeps is
the amount of that bid. Whatever comes after, a bid keeps its handle and all its data, and is never
opened again. -/
theorem paid_at_most_once {config : Config} (hvalid : config.validate = .ok ()) (ledger : L)
    (commands : List Command) :
    (((create config ledger).reported commands).map Payout.bid).Nodup ∧
      (∀ ref bid, ((create config ledger).after commands).book.get? ref = some bid →
        (bid.withdrawn = true ↔
          ref ∈ ((create config ledger).reported commands).map Payout.bid)) ∧
      (∀ p ∈ (create config ledger).reported commands, ∃ bid,
        ((create config ledger).after commands).book.get? p.bid = some bid ∧
          p.depositor = bid.depositor ∧
          p.amounts.baseRefund.toNat + p.amounts.baseCost.toNat = bid.amount.toNat) ∧
      ∀ more ref bid, ((create config ledger).after commands).book.get? ref = some bid →
        ∃ bid', ((create config ledger).after (commands ++ more)).book.get? ref = some bid' ∧
          bid'.close = bid.close ∧ (bid.withdrawn = true → bid'.withdrawn = true) := by
  have hstart : (create config ledger).Sound := sound_create hvalid ledger
  have hpaid : ((create config ledger).after commands).PaidOff
      ((create config ledger).reported commands) :=
    (paidOff_create config ledger).after hstart
  refine ⟨hpaid.nodup, fun ref bid hget => hpaid.withdrawn_iff hget, fun p hp => ?_,
    fun more ref bid hget => ?_⟩
  · obtain ⟨bid, hget, -, hdepositor, hwhole⟩ := hpaid.closed p hp
    exact ⟨bid, hget, hdepositor, hwhole⟩
  · rw [after_append]
    have hco := (hstart.after commands).coherent
    obtain ⟨bid', hget', hsame, hwithdrawn⟩ := bid_kept_after hco hget more
    exact ⟨bid', hget', hsame, hwithdrawn⟩

/-- The small auction reports its three bids, each once, in a refund and two settlements. Settling
the winner again leaves its bid closed. -/
theorem small_paid_at_most_once :
    ((create .standard smallLedger).reported (smallBidding ++ smallSettling)).map Payout.bid =
        [⟨smallLow, 0⟩, ⟨smallHigh, 0⟩, ⟨.zero, 0⟩] ∧
      ([⟨smallLow, 0⟩, ⟨smallHigh, 0⟩, ⟨.zero, 0⟩] : List BidRef).Nodup ∧
      ∃ bid, (small.after [.settle smallWinner [⟨smallHigh, 0⟩]]).book.get? ⟨smallHigh, 0⟩ =
        some bid ∧ bid.withdrawn = true := by
  have hreported :
      ((create .standard smallLedger).reported (smallBidding ++ smallSettling)).map Payout.bid =
        [⟨smallLow, 0⟩, ⟨smallHigh, 0⟩, ⟨.zero, 0⟩] := by
    decide +kernel
  have hvalid : Config.standard.validate = .ok () := by decide
  obtain ⟨hnodup, hiff, -, hkept⟩ :=
    paid_at_most_once hvalid smallLedger (smallBidding ++ smallSettling)
  rw [hreported] at hnodup hiff
  obtain ⟨bid, hget⟩ := Option.isSome_iff_exists.1
    (show (small.book.get? ⟨smallHigh, 0⟩).isSome = true by decide +kernel)
  have hwithdrawn : bid.withdrawn = true := (hiff _ bid hget).2 (by decide)
  obtain ⟨bid', hget', -, hclosed⟩ := hkept [.settle smallWinner [⟨smallHigh, 0⟩]] _ bid hget
  rw [after_append] at hget'
  exact ⟨hreported, hnodup, bid', hget', hclosed hwithdrawn⟩

end Auction

end BatchAuction
