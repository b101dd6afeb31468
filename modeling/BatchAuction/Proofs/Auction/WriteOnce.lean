import BatchAuction.Proofs.Auction.IntakeBound
import BatchAuction.Proofs.Auction.LosingBids
import BatchAuction.Proofs.Auction.PaidOnce

/-!
# The phases, and what each of them fixes

A phase is left for the next one only (`Phase.Next`), and what it fixes stays: the caps and the
payout totals from the start on, and the commitment from the end of bidding on. The totals begin at
zero and grow with settlements only. Bids are added while bidding is open, and nothing but their
flags ever changes. Each of these is read off the outcomes of one command and then carried along a
run.

A state with a commitment goes back to one command that committed it (`Auction.exists_finalize`), so
the committed tick has a bid that was active at that moment. If no cap binds there, it is the lowest
such tick. The sums above it are found by taking its own sums away from those of all active bids,
and all sums together are strictly below both caps (`Commitment.OfOffers.sums_of_short`).
-/

namespace BatchAuction

/-- The phases that one command can lead to. -/
inductive Phase.Next : Phase → Phase → Prop
  /-- Nothing changes. -/
  | stays (p : Phase) : Next p p
  /-- Bidding is opened. -/
  | opens : Next .notStarted .bidding
  /-- The clearing point is committed. -/
  | closes : Next .bidding .finalized

/-- Two bids that are the same once closed have all their data in common but the flag. -/
theorem Bid.close_eq_iff {bid bid' : Bid} :
    bid'.close = bid.close ↔ bid'.tick = bid.tick ∧ bid'.index = bid.index ∧
      bid'.depositor = bid.depositor ∧ bid'.amount = bid.amount ∧
      bid'.submittedAt = bid.submittedAt := by
  rw [Bid.ext_iff]
  simp [Bid.close]

/-- In a book that reaches no cap, the committed sums above the tick and at it make up those of all
offers, and are strictly below the caps. -/
theorem Commitment.OfOffers.sums_of_short {caps : Caps} {offers : List Offer} {c : Commitment}
    (h : c.OfOffers caps offers) (hf : c.priceFound = false) :
    c.baseAbove.toNat + c.bucket.base.toNat = (offers.map Offer.base).sum ∧
      c.scarceAbove.toNat + c.bucket.scarce.toNat = (offers.map Offer.demand).sum ∧
      (offers.map Offer.base).sum < caps.base.toNat ∧
      (offers.map Offer.demand).sum < caps.scarce.toNat := by
  obtain ⟨hno, hlow⟩ := h.point.short hf
  have hne : offers ≠ [] := by
    rintro rfl
    obtain ⟨o, ho, -⟩ := h.point.occupied
    cases ho
  have hnot : ¬ Offer.Reaches caps offers := Offer.not_reaches_all hne fun o ho hr => by
    obtain ⟨t, ht, -⟩ := Offer.exists_clearsAt ho hr
    exact hno t ht
  have habove : c.baseAbove.toNat = _ := h.point.above.base
  have hdemand : c.scarceAbove.toNat = _ := h.point.above.scarce
  have hown : c.bucket.base.toNat = _ := h.point.bucket.base
  have hasked : c.bucket.scarce.toNat = _ := h.point.bucket.scarce
  refine ⟨?_, ?_, Offer.lt_of_not_reaches hnot⟩
  · rw [habove, hown, Nat.add_comm]
    exact (Offer.sum_eq_of_forall_le Offer.base hlow).symm
  · rw [hdemand, hasked, Nat.add_comm]
    exact (Offer.sum_eq_of_forall_le Offer.demand hlow).symm

namespace Auction

variable {L : Type} [AssetLedger L] {a a' : Auction L} {c : Commitment} {command : Command}
  {response : Response}

/-! ## One command -/

/-- A phase is left for the next one only. -/
theorem Outcome.phase_next (ho : a.Outcome command response a') : a.phase.Next a'.phase := by
  have kept (h : a'.stage = a.stage) : a.phase.Next a'.phase := by
    rw [phase, phase, h]
    exact .stays _
  cases ho with
  | started hs =>
    rw [phase, hs]
    exact .opens
  | committed hs =>
    rw [phase, hs]
    exact .closes
  | refunded hs _ _ _ hs' => exact kept (hs'.trans hs.symm)
  | uncounted _ _ _ _ _ hs' => exact kept hs'
  | settled hs _ _ hs' =>
    rw [phase, phase, hs, hs']
    exact .stays _
  | _ => exact kept rfl

/-- A commitment stays as it is. -/
theorem Outcome.commitment?_eq (ho : a.Outcome command response a') (h : a.commitment? = some c) :
    a'.commitment? = some c := by
  cases ho with
  | started hs | committed hs =>
    rw [commitment?, hs] at h
    cases h
  | refunded hs _ _ _ hs' =>
    rw [commitment?_of_bidding hs] at h
    cases h
  | uncounted _ _ _ _ _ hs' => rwa [commitment?, hs']
  | settled hs _ _ hs' =>
    rw [commitment?_of_finalized hs] at h
    rw [commitment?_of_finalized hs', h]
  | _ => exact h

/-- A commitment comes from the command that ends bidding. -/
theorem Outcome.committed_of_new (ho : a.Outcome command response a') (h : a.commitment? = none)
    (h' : a'.commitment? = some c) : command = .finalize ∧ response = .committed c := by
  cases ho with
  | started => cases h'
  | committed =>
    cases h'
    exact ⟨rfl, rfl⟩
  | refunded _ _ _ _ hs' =>
    rw [commitment?_of_bidding hs'] at h'
    cases h'
  | uncounted _ _ _ _ _ hs' =>
    rw [commitment?, hs', ← commitment?, h] at h'
    cases h'
  | settled hs =>
    rw [commitment?_of_finalized hs] at h
    cases h
  | _ => cases h.symm.trans h'

/-- The payout totals never fall. -/
theorem Outcome.totals_le (ho : a.Outcome command response a') :
    a.scarceDistributed ≤ a'.scarceDistributed ∧ a.baseRetained ≤ a'.baseRetained := by
  have kept (h : a'.stage.paid = a.stage.paid) :
      a.scarceDistributed ≤ a'.scarceDistributed ∧ a.baseRetained ≤ a'.baseRetained := by
    rw [scarceDistributed, baseRetained, scarceDistributed, baseRetained, h]
    exact ⟨Nat.le_refl _, Nat.le_refl _⟩
  cases ho with
  | started hs | committed hs =>
    refine kept ?_
    rw [hs]
    rfl
  | refunded hs _ _ _ hs' =>
    refine kept ?_
    rw [hs, hs']
  | uncounted _ _ _ _ _ hs' => exact kept (congrArg Stage.paid hs')
  | settled hs hsettles _ hs' =>
    rw [scarceDistributed, baseRetained, scarceDistributed, baseRetained, hs, hs']
    exact ⟨Nat.le.intro hsettles.scarce.symm, Nat.le.intro hsettles.base.symm⟩
  | _ => exact kept rfl

/-- While bidding is not open, the book stays as it is unless bids are paid. -/
theorem Outcome.book_cases (ho : a.Outcome command response a') (hp : a.phase ≠ .bidding) :
    a'.book = a.book ∨ ∃ payouts, a.Draft payouts ∧ a.Closed payouts a' := by
  have open_of {caps : Caps} (hs : a.stage = .bidding caps) : a.phase = .bidding := by
    rw [phase, hs]
    rfl
  cases ho with
  | placed hcheck => exact absurd (checkBid_ok hcheck).1 hp
  | refunded hs => exact absurd (open_of hs) hp
  | uncounted hs => exact absurd (open_of hs) hp
  | settled _ hsettles hclosed => exact .inr ⟨_, hsettles.draft, hclosed⟩
  | _ => exact .inl rfl

/-- So nothing but the flags of bids changes. -/
theorem Outcome.get?_eq (ho : a.Outcome command response a') (hp : a.phase ≠ .bidding)
    (ref : BidRef) : (a'.book.get? ref).map Bid.close = (a.book.get? ref).map Bid.close := by
  rcases ho.book_cases hp with hbook | ⟨payouts, -, hclosed⟩
  · rw [hbook]
  · rw [hclosed.book, Book.get?_closeAll]
    split
    · rw [Option.map_map]
      rfl
    · rfl

/-- And the offers stay as they are. -/
theorem Outcome.offers_eq (ho : a.Outcome command response a') (hp : a.phase ≠ .bidding) :
    a'.book.offers = a.book.offers := by
  rcases ho.book_cases hp with hbook | ⟨payouts, hdraft, hclosed⟩
  · rw [hbook]
  · rw [hclosed.book]
    exact Book.offers_closeAll hdraft.opens

/-- An auction that has not started has an empty book. -/
theorem Outcome.book_empty (ho : a.Outcome command response a')
    (h : a.phase = .notStarted → a.book = .empty) : a'.phase = .notStarted → a'.book = .empty := by
  cases ho with
  | started =>
    intro hp
    cases hp
  | placed hcheck =>
    intro hp
    cases hp.symm.trans (checkBid_ok hcheck).1
  | committed =>
    intro hp
    cases hp
  | refunded _ _ _ _ hs' | settled _ _ _ hs' =>
    intro hp
    rw [phase, hs'] at hp
    cases hp
  | uncounted hs _ _ _ _ hs' =>
    intro hp
    rw [phase, hs', hs] at hp
    cases hp
  | _ => exact h

/-! ## Runs -/

/-- Over any commands a commitment stays as it is. -/
theorem commitment?_after (hco : a.stage.Coherent) (h : a.commitment? = some c)
    (commands : List Command) : (a.after commands).commitment? = some c :=
  after_invariant (P := fun b => b.commitment? = some c) hco
    (fun _ ho hb => ho.commitment?_eq hb) h

/-- Over any commands the payout totals never fall. -/
theorem totals_le_after (hco : a.stage.Coherent) (commands : List Command) :
    a.scarceDistributed ≤ (a.after commands).scarceDistributed ∧
      a.baseRetained ≤ (a.after commands).baseRetained :=
  after_invariant
    (P := fun b => a.scarceDistributed ≤ b.scarceDistributed ∧ a.baseRetained ≤ b.baseRetained)
    hco (fun _ ho hb => ⟨Nat.le_trans hb.1 ho.totals_le.1, Nat.le_trans hb.2 ho.totals_le.2⟩)
    ⟨Nat.le_refl _, Nat.le_refl _⟩

/-- Before the start of a run its book is empty. -/
theorem Reachable.book_empty (h : a.Reachable) : a.phase = .notStarted → a.book = .empty := by
  obtain ⟨config, ledger, commands, -, rfl⟩ := h
  exact after_invariant (P := fun b => b.phase = .notStarted → b.book = .empty) .notStarted
    (fun _ ho hb => ho.book_empty hb) fun _ => rfl

/-- What a run reaches from a state that a run reaches, a run reaches. -/
theorem Reachable.after (h : a.Reachable) (commands : List Command) :
    (a.after commands).Reachable := by
  obtain ⟨config, ledger, before, hvalid, rfl⟩ := h
  exact ⟨config, ledger, before ++ commands, hvalid, (after_append before commands).symm⟩

/-- If there is a commitment at the end of a run and none at its beginning, one command of the run
has committed it. -/
theorem exists_finalize {commands : List Command} (hco : a.stage.Coherent)
    (h : a.commitment? = none) (h' : (a.after commands).commitment? = some c) :
    ∃ before more,
      commands = before ++ .finalize :: more ∧ (a.after before).finalize.1 = .ok c := by
  induction commands generalizing a with
  | nil => exact nomatch h.symm.trans h'
  | cons command commands ih =>
    have ho := step_outcome hco command
    have hco' := coherent_step hco command
    cases hc : (a.step command).2.commitment? with
    | none =>
      obtain ⟨before, more, rfl, hfinal⟩ := ih hco' hc h'
      exact ⟨command :: before, more, rfl, hfinal⟩
    | some c' =>
      obtain rfl : c' = c :=
        Option.some.inj ((commitment?_after hco' hc commands).symm.trans h')
      obtain ⟨rfl, hresponse⟩ := ho.committed_of_new h hc
      refine ⟨[], commands, rfl, ?_⟩
      show a.finalize.1 = .ok c'
      cases hfinal : a.finalize.1 with
      | ok c =>
        simp only [step, hfinal, Response.ofResult] at hresponse
        rw [Response.committed.inj hresponse]
      | error e =>
        simp only [step, hfinal, Response.ofResult] at hresponse
        cases hresponse

/-! ## The moment of the commitment -/

omit [AssetLedger L] in
/-- The tick that is committed has an active bid. If no cap binds, it is the lowest such tick, and
the committed sums are strictly below both caps. -/
theorem Sound.finalize_tick (h : a.Sound) (hc : a.finalize.1 = .ok c) :
    ∃ caps, a.stage = .bidding caps ∧
      (∃ bid ∈ a.book.bids, bid.withdrawn = false ∧ bid.tick = c.tick) ∧
      (c.priceFound = false →
        (∀ bid ∈ a.book.bids, bid.withdrawn = false → c.tick ≤ bid.tick) ∧
        c.baseAbove.toNat + c.bucket.base.toNat < caps.base.toNat ∧
        c.scarceAbove.toNat + c.bucket.scarce.toNat < caps.scarce.toNat) := by
  obtain ⟨caps, hs, hcommit⟩ := finalize_ok h.coherent hc
  have hof : c.OfOffers caps a.book.activeOffers := Book.ofOffers_commitment h.indexed hcommit
  refine ⟨caps, hs, ?_, fun hf => ?_⟩
  · obtain ⟨o, ho, htick⟩ := hof.point.occupied
    obtain ⟨bid, hbid, rfl⟩ := List.mem_map.1 ho
    obtain ⟨hmem, hactive⟩ := List.mem_filter.1 hbid
    exact ⟨bid, hmem, (Bool.not_eq_true' _).mp hactive, htick⟩
  · obtain ⟨hbase, hscarce, hlt, hlt'⟩ := hof.sums_of_short hf
    refine ⟨fun bid hmem hw => ?_, hbase ▸ hlt, hscarce ▸ hlt'⟩
    have hactive : bid.isActive = true := by rw [Bid.isActive, hw, Bool.not_false]
    exact (hof.point.short hf).2 bid.offer
      (List.mem_map_of_mem (List.mem_filter.2 ⟨hmem, hactive⟩))

/-! ## The result -/

/-- In every state that a run reaches, over any ledger, the caps and the payout totals are set
exactly after the start, and the commitment exactly after the end of bidding; before the start the
book is empty, and before the end nothing has been paid. A command leaves the phase or takes it to
the next one, and the book gets bids only while bidding is open. Along every run the caps, the
commitment and all data of a bid but its flag stay as they are, and the payout totals never fall. A
commitment was made by one command; its tick is that of a bid that was active then, and if no cap
binds, it is the lowest such tick, and the committed sums are strictly below both caps. -/
theorem lifecycle_written_once (h : a.Reachable) :
    ((a.caps?.isSome ↔ a.phase ≠ .notStarted) ∧ (a.totals?.isSome ↔ a.phase ≠ .notStarted) ∧
      (a.commitment?.isSome ↔ a.phase = .finalized) ∧
      (a.clearingTick?.isSome ↔ a.phase = .finalized) ∧
      (a.phase = .notStarted → a.book = .empty) ∧
      (a.phase ≠ .finalized → a.scarceDistributed = 0 ∧ a.baseRetained = 0)) ∧
    (∀ command, a.phase.Next (a.step command).2.phase ∧
      (a.phase ≠ .bidding → ∀ ref,
        ((a.step command).2.book.get? ref).map Bid.close = (a.book.get? ref).map Bid.close)) ∧
    (∀ commands,
      (∀ caps, a.caps? = some caps → (a.after commands).caps? = some caps) ∧
      (∀ c, a.commitment? = some c → (a.after commands).commitment? = some c) ∧
      a.scarceDistributed ≤ (a.after commands).scarceDistributed ∧
      a.baseRetained ≤ (a.after commands).baseRetained ∧
      ∀ ref bid, a.book.get? ref = some bid → ∃ bid',
        (a.after commands).book.get? ref = some bid' ∧ bid'.tick = bid.tick ∧
          bid'.index = bid.index ∧ bid'.depositor = bid.depositor ∧ bid'.amount = bid.amount ∧
          bid'.submittedAt = bid.submittedAt) ∧
    ∀ c, a.commitment? = some c → ∃ (b : Auction L) (caps : Caps) (more : List Command),
      b.Reachable ∧ b.stage = .bidding caps ∧ b.finalize.1 = .ok c ∧
        a = b.finalize.2.after more ∧ a.caps? = some caps ∧
        (∃ bid ∈ b.book.bids, bid.withdrawn = false ∧ bid.tick = c.tick) ∧
        (c.priceFound = false →
          (∀ bid ∈ b.book.bids, bid.withdrawn = false → c.tick ≤ bid.tick) ∧
          c.baseAbove.toNat + c.bucket.base.toNat < caps.base.toNat ∧
          c.scarceAbove.toNat + c.bucket.scarce.toNat < caps.scarce.toNat) := by
  have hco : a.stage.Coherent := h.sound.coherent
  have htick : a.clearingTick?.isSome ↔ a.phase = .finalized := by
    rw [clearingTick?, Option.isSome_map]
    exact hco.commitment?_isSome_iff
  refine ⟨⟨hco.caps?_isSome_iff, hco.totals?_isSome_iff, hco.commitment?_isSome_iff, htick,
    h.book_empty, fun hp => ?_⟩, fun command => ?_, fun commands => ?_, fun c hc => ?_⟩
  · have hnone : a.commitment? = none :=
      Option.not_isSome_iff_eq_none.1 (mt hco.commitment?_isSome_iff.1 hp)
    rw [scarceDistributed, baseRetained, hco.paid_of_none hnone]
    exact ⟨rfl, rfl⟩
  · exact ⟨(step_outcome hco command).phase_next, (step_outcome hco command).get?_eq⟩
  · obtain ⟨hscarce, hbase⟩ := totals_le_after hco commands
    refine ⟨fun caps hcaps => caps?_after hco hcaps commands,
      fun c hc => commitment?_after hco hc commands, hscarce, hbase, fun ref bid hget => ?_⟩
    obtain ⟨bid', hget', hsince⟩ := bid_kept_after hco hget commands
    exact ⟨bid', hget', Bid.close_eq_iff.1 hsince.same⟩
  · obtain ⟨config, ledger, commands, hvalid, rfl⟩ := h
    obtain ⟨before, more, rfl, hfinal⟩ :=
      exists_finalize (a := create config ledger) .notStarted rfl hc
    have hb : ((create config ledger).after before).Reachable :=
      ⟨config, ledger, before, hvalid, rfl⟩
    obtain ⟨caps, hs, hactive, hshort⟩ := hb.sound.finalize_tick hfinal
    have hcaps := caps?_after hb.sound.coherent (caps?_of_bidding hs) (.finalize :: more)
    rw [← after_append] at hcaps
    exact ⟨_, caps, more, hb, hs, hfinal, after_append before (.finalize :: more), hcaps, hactive,
      hshort⟩

/-- Two bids that together reach no cap, and the commitment. -/
def smallShort : Auction MemoryLedger :=
  (create .standard smallLedger).after
    [.start 100 100, .submitBid smallMarginal .zero 40, .submitBid smallWinner smallHigh 50,
     .finalize]

/-- A run reaches it. -/
theorem smallShort_reachable : smallShort.Reachable :=
  ⟨.standard, smallLedger, _, by decide, rfl⟩

/-- The lower of them is at the committed tick, and a settlement leaves the commitment alone. -/
theorem small_lifecycle_written_once :
    ∃ c, smallShort.commitment? = some c ∧ c.priceFound = false ∧ c.tick = .zero ∧
      c.baseAbove.toNat + c.bucket.base.toNat < 100 ∧
      (smallShort.after [.settle smallWinner [⟨smallHigh, 0⟩]]).commitment? = some c ∧
      smallShort.baseRetained ≤
        (smallShort.after [.settle smallWinner [⟨smallHigh, 0⟩]]).baseRetained := by
  obtain ⟨-, -, hrun, hcommitted⟩ := lifecycle_written_once smallShort_reachable
  have hpoint : smallShort.commitment?.map (fun c => (c.priceFound, c.tick)) =
      some (false, .zero) := by
    decide +kernel
  obtain ⟨c, hc, heq⟩ := Option.map_eq_some_iff.1 hpoint
  obtain ⟨hfound, htick⟩ := Prod.mk.inj heq
  have hcaps : smallShort.caps? = some ⟨100, 100⟩ := by decide +kernel
  obtain ⟨b, caps, more, -, -, -, -, hfixed, -, hshort⟩ := hcommitted c hc
  obtain rfl : caps = ⟨100, 100⟩ := Option.some.inj (hfixed.symm.trans hcaps)
  obtain ⟨-, hkept, -, hbase, -⟩ := hrun [.settle smallWinner [⟨smallHigh, 0⟩]]
  exact ⟨c, hc, hfound, htick, (hshort hfound).2.1, hkept c hc, hbase⟩

end Auction

end BatchAuction
