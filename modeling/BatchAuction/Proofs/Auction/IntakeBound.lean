import BatchAuction.Proofs.Auction.CapSafety

/-!
# The bound on the intake makes all arithmetic safe

Each bid is checked once, at its own tick, against `Amount.maxTotal`. So in every state that a run
reaches, over any ledger, the offers in the book are bounded (`Auction.Bounded.offers`), and from
there on no arithmetic refuses anything and none wraps around (`Auction.arithmetic_certain`). A
clearing result exists at any time after the start, a commitment as soon as there is an active bid,
and a settlement can be planned for any active bids of one account.
-/

namespace BatchAuction

/-- A book has offers that are active exactly if it has such a bid. -/
theorem Book.activeOffers_ne_nil_iff {b : Book} :
    b.activeOffers ≠ [] ↔ ∃ bid ∈ b.bids, bid.withdrawn = false := by
  simp [activeOffers, activeBids, Bid.isActive, List.filter_eq_nil_iff]

namespace Auction

variable {L : Type} {a a' : Auction L}

/-! ## The invariant -/

/-- The intake and the caps are within the largest total. -/
structure Bounded (a : Auction L) : Prop where
  sound : a.Sound
  intake : a.intake.Within
  caps : ∀ caps, a.caps? = some caps →
    caps.base ≤ Amount.maxTotal ∧ caps.scarce ≤ Amount.maxTotal

/-- A new auction has taken in nothing. -/
theorem bounded_create {config : Config} (h : config.validate = .ok ()) (ledger : L) :
    (create config ledger).Bounded :=
  ⟨sound_create h ledger, ⟨Nat.zero_le _, Nat.zero_le _⟩, fun _ hc => nomatch hc⟩

/-- The caps of an auction are within the largest total. -/
theorem checkCaps_ok {base scarce : Amount} {caps : Caps} (h : checkCaps base scarce = .ok caps) :
    caps.base ≤ Amount.maxTotal ∧ caps.scarce ≤ Amount.maxTotal := by
  unfold checkCaps at h
  split at h
  · cases h
  · split at h
    · cases h
    · rename_i hbase
      split at h
      · cases h
      · rename_i hscarce
        cases h
        exact ⟨Nat.not_lt.1 hbase, Nat.not_lt.1 hscarce⟩

/-- All offers of the book are bounded. -/
theorem Bounded.offers (h : a.Bounded) : Offer.Bounded a.book.offers :=
  ⟨h.sound.accepted, h.sound.intake.base ▸ h.intake.base, h.sound.intake.scarce ▸ h.intake.scarce⟩

/-- And so are those of the active bids. -/
theorem Bounded.activeOffers (h : a.Bounded) : Offer.Bounded a.book.activeOffers :=
  h.offers.of_sublist (List.filter_sublist.map _)

section
variable [AssetLedger L] {command : Command} {response : Response}

/-- Every outcome of a command keeps it. -/
theorem Bounded.outcome (h : a.Bounded) (ho : a.Outcome command response a') : a'.Bounded := by
  have hsound := h.sound.outcome ho
  cases ho with
  | started _ hcaps =>
    refine ⟨hsound, h.intake, fun caps hc => ?_⟩
    obtain rfl := Option.some.inj hc
    exact checkCaps_ok hcaps
  | placed hcheck =>
    obtain ⟨-, -, _, -, -, hbase, hscarce⟩ := checkBid_ok hcheck
    exact ⟨hsound, ⟨hbase, hscarce⟩, h.caps⟩
  | refunded hs _ _ hclosed hs' | settled hs _ hclosed hs' =>
    refine ⟨hsound, hclosed.intake ▸ h.intake, fun caps hc => ?_⟩
    rw [caps?, hs'] at hc
    refine h.caps caps ?_
    rw [caps?, hs]
    exact hc
  | committed hs =>
    refine ⟨hsound, h.intake, fun caps hc => h.caps caps ?_⟩
    rw [caps?, hs]
    exact hc
  | uncounted _ hdraft hcount => exact absurd hcount (h.sound.not_uncounted hdraft)
  | _ => exact ⟨hsound, h.intake, h.caps⟩

/-- It holds after any commands. -/
theorem Bounded.after (h : a.Bounded) (commands : List Command) : (a.after commands).Bounded :=
  after_invariant h.sound.coherent (fun _ ho hb => hb.outcome ho) h

/-- The bound does not look at the ledger, so it holds in every state that is attained. -/
theorem Attained.bounded (h : a.Attained) : a.Bounded := by
  induction h with
  | create ledger hvalid => exact bounded_create hvalid ledger
  | step command _ ih => exact ih.outcome (step_outcome ih.sound.coherent command)
  | withLedger ledger h ih => exact ⟨(h.withLedger ledger).sound, ih.intake, ih.caps⟩

/-- In particular it holds in every state that a run reaches. -/
theorem Reachable.bounded (h : a.Reachable) : a.Bounded := h.attained.bounded

/-! ## Nothing is refused by the arithmetic -/

/-- The intake with one more bid can be computed, so no bid is refused by the arithmetic. -/
theorem Bounded.submitBid_ne_arithmetic (h : a.Bounded) (depositor : Account) (tick : Tick)
    (amount : Amount) (e : ArithmeticError) :
    (a.submitBid depositor tick amount).1 ≠ .error (.arithmetic e) := by
  have hcheck : a.checkBid tick amount ≠ .error (.arithmetic e) := by
    intro hfail
    rcases bind_eq_error_iff.1 hfail with hphase | ⟨-, -, hfail⟩
    · obtain ⟨-, he⟩ := requirePhase_eq_error_iff.1 hphase
      cases he
    · split at hfail
      · cases hfail
      · rcases bind_eq_error_iff.1 hfail with hprice | ⟨p, hp, hfail⟩
        · obtain ⟨e', -, he⟩ := mapError_eq_error_iff.1 hprice
          cases he
        · rw [mapError_eq_ok_iff] at hp
          unfold intakeAfter at hfail
          split at hfail
          · cases hfail
          · rename_i hmax
            obtain ⟨intake, hintake⟩ := h.intake.exists_addBid (Tick.price_raw_pos hp)
              (Nat.not_lt.1 hmax)
            rw [hintake] at hfail
            rcases bind_eq_error_iff.1 hfail with hfail | ⟨t, -, hfail⟩
            · cases hfail
            · split at hfail <;> cases hfail
  unfold submitBid
  split
  · rename_i e' he'
    intro heq
    obtain rfl : e' = .arithmetic e := Except.error.inj heq
    exact hcheck he'
  · split
    · exact fun heq => nomatch heq
    · exact fun heq => nomatch heq

end

section
variable {caps : Caps} {c : Commitment}

/-- Once the caps are fixed, the book can be scanned; the clearing result is that of the scan. -/
theorem Bounded.exists_scan (h : a.Bounded) (hcaps : a.caps? = some caps) :
    ∃ scan : ClearingScan, a.book.scan caps = .ok scan ∧ a.clearing = .ok scan.result := by
  obtain ⟨scan, hscan⟩ : ∃ scan, a.book.scan caps = .ok scan :=
    Book.exists_scan h.sound.indexed h.activeOffers
  exact ⟨scan, hscan, clearing_eq_ok_iff.2 ⟨caps, hcaps, map_eq_ok_iff.2 ⟨scan, hscan, rfl⟩⟩⟩

/-- So an auction that has started has a clearing result. -/
theorem Bounded.exists_clearing (h : a.Bounded) (hp : a.phase ≠ .notStarted) :
    ∃ r, a.clearing = .ok r := by
  obtain ⟨caps, hcaps⟩ := Option.isSome_iff_exists.1 (h.sound.coherent.caps?_isSome_iff.2 hp)
  obtain ⟨scan, -, hclearing⟩ := h.exists_scan hcaps
  exact ⟨scan.result, hclearing⟩

/-- The book has a commitment exactly if some bid is active. -/
theorem Bounded.exists_commitment_iff (h : a.Bounded) (hcaps : a.caps? = some caps) :
    (∃ c, a.book.commitment? caps = .ok (some c)) ↔
      ∃ bid ∈ a.book.bids, bid.withdrawn = false := by
  rw [← Book.activeOffers_ne_nil_iff]
  constructor
  · rintro ⟨c, hc⟩ hnil
    rw [Book.commitment_of_nil h.sound.indexed hnil] at hc
    cases hc
  · exact Book.exists_commitment h.sound.indexed h.activeOffers (h.caps caps hcaps).1

/-- While bids are accepted, the clearing point can be committed exactly if some bid is active. -/
theorem Bounded.finalize_iff (h : a.Bounded) (hp : a.phase = .bidding) :
    (∃ c, a.finalize.1 = .ok c) ↔ ∃ bid ∈ a.book.bids, bid.withdrawn = false := by
  obtain ⟨caps, hs⟩ := h.sound.coherent.phase_eq_bidding_iff.1 hp
  have hcaps := caps?_of_bidding hs
  rw [← h.exists_commitment_iff hcaps]
  constructor
  · rintro ⟨c, hc⟩
    obtain ⟨caps', hs', hcommit⟩ := finalize_ok h.sound.coherent hc
    obtain rfl : caps = caps' := Option.some.inj (hcaps.symm.trans (caps?_of_bidding hs'))
    exact ⟨c, hcommit⟩
  · rintro ⟨c, hc⟩
    exact ⟨c, finalize_eq_ok_iff.2 (planCommitment_of_bidding hs hc)⟩

/-- A settlement of active bids of one account, none of them twice, has a preview. -/
theorem Sound.exists_previewSettle (h : a.Sound) (hp : a.phase = .finalized) {owner : Account}
    {refs : List BidRef} (hnodup : refs.Nodup)
    (hfound : ∀ ref ∈ refs, ∃ bid, a.book.get? ref = some bid ∧ bid.withdrawn = false ∧
      bid.depositor = owner) :
    ∃ report, a.previewSettle owner refs = .ok report := by
  obtain ⟨caps, c, paid, hs⟩ := h.coherent.phase_eq_finalized_iff.1 hp
  obtain ⟨report, paid', hplan⟩ := h.exists_planSettlement hs hnodup hfound
  exact ⟨report, map_eq_ok_iff.2 ⟨_, hplan, rfl⟩⟩

end

/-! ## Nothing wraps around -/

/-- Every operation modulo `2 ^ 256` on the way to a commitment and to payouts is exact. -/
structure Unwrapped (a : Auction L) : Prop where
  /-- The price of every tick with a bid. -/
  price : ∀ bid ∈ a.book.bids, Price.Exact bid.tick.index
  /-- The room that is left at each bucket when the upside is split. -/
  room : ∀ c, a.finalize.1 = .ok c → ∃ caps, a.stage = .bidding caps ∧
    Surplus.Walk c.tick c.price (c.room caps) a.book.activeDescending c.surplus
  /-- The amount of a bid without its cost, and its refund with its cost. -/
  payout : ∀ c, a.commitment? = some c → ∀ bid ∈ a.book.bids, ∃ x, c.amountsFor bid = .ok x ∧
    (bid.amount.subMod x.baseCost).toNat + x.baseCost.toNat = bid.amount.toNat ∧
    (x.baseRefund.addMod x.baseCost).toNat = x.baseRefund.toNat + x.baseCost.toNat
  /-- The sum of the active amounts. -/
  escrow : a.book.activeEscrow.toNat = (a.book.activeBids.map fun bid => bid.amount.toNat).sum

/-- In every sound state, nothing wraps around. -/
theorem Sound.unwrapped (h : a.Sound) : a.Unwrapped where
  price bid hb := by
    obtain ⟨p, hp⟩ := (h.accepted _ (Book.offer_mem hb)).price
    exact Price.exact_of_legal (Tick.price_eq_ok_iff.1 hp).1
  room c hc := by
    obtain ⟨caps, hs, hcommit⟩ := finalize_ok h.coherent hc
    exact ⟨caps, hs, Book.walk_commitment hcommit⟩
  payout c hc bid hb := by
    obtain ⟨x, hx, hpays⟩ := h.pays hc hb
    have hwhole : x.baseRefund.toNat + x.baseCost.toNat = bid.amount.toNat := hpays.whole
    have hle : x.baseCost.toNat ≤ bid.amount.toNat := by omega
    refine ⟨x, hx, ?_, Amount.toNat_ofNat_of_lt (hwhole ▸ bid.amount.isLt)⟩
    rw [Amount.toNat_subMod hle]
    exact Nat.sub_add_cancel hle
  escrow := Book.toNat_activeEscrow h.activeSum_lt

/-! ## The result -/

variable [AssetLedger L]

/-- In every state that a run reaches, over any ledger, the intake is the exact sum over all bids
ever recorded, each valued at the price of its own tick, and within `Amount.maxTotal`. Therefore no
bid is refused by the arithmetic; a clearing result exists once the auction has started; the
clearing point can be committed exactly if some bid is active; afterwards the scarce owed to all
bids is known, and every settlement of active bids of one account has a preview; and nothing wraps
around. -/
theorem arithmetic_certain (h : a.Reachable) :
    (a.intake.base.toNat = (a.book.bids.map fun bid => bid.amount.toNat).sum ∧
      (∀ bid ∈ a.book.bids, ∃ p, bid.tick.price = .ok p ∧ 0 < p.raw.toNat ∧
        bid.offer.demand = bid.amount.toNat * Amount.scale.toNat / p.raw.toNat) ∧
      a.intake.scarce.toNat = (a.book.bids.map fun bid => bid.offer.demand).sum ∧
      a.intake.base ≤ Amount.maxTotal ∧ a.intake.scarce ≤ Amount.maxTotal) ∧
    (∀ depositor tick amount e,
      (a.submitBid depositor tick amount).1 ≠ .error (.arithmetic e)) ∧
    (a.phase ≠ .notStarted → ∃ r, a.clearing = .ok r) ∧
    (a.phase = .bidding →
      ((∃ c, a.finalize.1 = .ok c) ↔ ∃ bid ∈ a.book.bids, bid.withdrawn = false)) ∧
    (a.phase = .finalized → (∃ x, a.scarceFilled = .ok x) ∧
      ∀ (owner : Account) (refs : List BidRef), refs.Nodup →
        (∀ ref ∈ refs, ∃ bid, a.book.get? ref = some bid ∧ bid.withdrawn = false ∧
          bid.depositor = owner) →
        ∃ report, a.previewSettle owner refs = .ok report) ∧
    a.Unwrapped := by
  have hb := h.bounded
  have hs := hb.sound
  refine ⟨⟨?_, ?_, ?_, hb.intake.base, hb.intake.scarce⟩, hb.submitBid_ne_arithmetic,
    hb.exists_clearing, hb.finalize_iff, fun hp => ⟨?_, fun owner refs => ?_⟩, hs.unwrapped⟩
  · rw [hs.intake.base, Book.offers, List.map_map]
    rfl
  · intro bid hbid
    obtain ⟨p, hp⟩ := (hs.accepted _ (Book.offer_mem hbid)).price
    exact ⟨p, hp, Tick.price_raw_pos hp, (Totals.demandAt_eq_demand hp).symm⟩
  · rw [hs.intake.scarce, Book.offers, List.map_map]
    rfl
  · obtain ⟨_, c, _, hstage⟩ := hs.coherent.phase_eq_finalized_iff.1 hp
    obtain ⟨x, hx, -⟩ := hs.scarceFilled_eq (commitment?_of_finalized hstage)
    exact ⟨x, hx⟩
  · exact hs.exists_previewSettle hp

/-- After the commitment of the small auction, the winner has a preview of the payout. -/
theorem small_arithmetic_certain :
    smallCleared.phase = .finalized ∧
      ∃ report, smallCleared.previewSettle smallWinner [⟨smallHigh, 0⟩] = .ok report := by
  obtain ⟨-, -, -, -, hfinal, -⟩ := arithmetic_certain smallCleared_reachable
  have hphase : smallCleared.phase = .finalized := by decide +kernel
  have hget : smallCleared.book.get? ⟨smallHigh, 0⟩ =
      some ⟨smallHigh, 0, smallWinner, 70, false, .zero⟩ := by
    decide +kernel
  refine ⟨hphase, (hfinal hphase).2 smallWinner _ (by decide) fun ref href => ?_⟩
  obtain rfl := List.mem_singleton.1 href
  exact ⟨_, hget, rfl, rfl⟩

end Auction

end BatchAuction
