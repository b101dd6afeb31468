import BatchAuction.Proofs.Auction.History
import BatchAuction.Proofs.Auction.IntakeBound

/-!
# What stands in the way of an operation

An operation asks for the phase it belongs to, and then for the records that it reads. A coherent
stage has the records that its phase promises. So in every state that is attained a command is
refused for the state of the auction exactly if it comes in another phase, or if bidding is to end
without an active bid (`Auction.Attained.blocked_iff`). No record is ever missing; only the two
questions that may be asked in any phase are refused for that, before the start and before the end
of bidding (`Auction.Attained.unanswered_iff`).
-/

namespace BatchAuction

namespace AuctionError

/-- An error that is plain does not blame the state. -/
theorem Plain.ne_invalidState {e : AuctionError} (h : e.Plain) (operation : Operation)
    (phase : Phase) (obstacle : Obstacle) : e ≠ .invalidState operation phase obstacle := by
  rintro rfl
  exact h

end AuctionError

namespace Auction

variable {L : Type} {a : Auction L} {e : AuctionError} {operation : Operation} {p : Phase}
  {obstacle : Obstacle}

/-- What stands in the way of a command. -/
inductive Blocked (a : Auction L) : Command → Operation → Obstacle → Prop
  /-- The caps can be fixed once. -/
  | start {base scarce : Amount} : a.phase ≠ .notStarted →
      Blocked a (.start base scarce) .start .alreadyStarted
  /-- Bids are placed while they are accepted. -/
  | submitBid {depositor : Account} {tick : Tick} {amount : Amount} : a.phase ≠ .bidding →
      Blocked a (.submitBid depositor tick amount) .submitBid .notOpen
  /-- And so are losing bids refunded. -/
  | refund {refs : List BidRef} : a.phase ≠ .bidding →
      Blocked a (.refundLosingBids refs) .refund .notOpen
  /-- Bidding that is not open cannot end. -/
  | closed : a.phase ≠ .bidding → Blocked a .finalize .finalize .notOpen
  /-- And it cannot end without a bid. -/
  | empty : a.phase = .bidding → (∀ bid ∈ a.book.bids, bid.withdrawn = true) →
      Blocked a .finalize .finalize .noBids
  /-- Bids are paid at the committed clearing point. -/
  | settle {owner : Account} {refs : List BidRef} : a.phase ≠ .finalized →
      Blocked a (.settle owner refs) .settle .notFinalized

/-- How a command is refused: for an obstacle in the present phase, for what it says, or by the
ledger. -/
def Refusal (a : Auction L) (command : Command) (e : AuctionError) : Prop :=
  (∃ operation obstacle, a.Blocked command operation obstacle ∧ e = a.refuse operation obstacle) ∨
    e.Plain ∨ ∃ e', e = .ledger e'

/-! ## Refused commands -/

/-- What begins with a request for another phase is refused for the present one. -/
theorem requirePhase_bind {α : Type} {expected : Phase} {next : Unit → Except AuctionError α}
    (hp : a.phase ≠ expected) :
    (a.requirePhase operation expected obstacle >>= next) =
      .error (a.refuse operation obstacle) :=
  bind_eq_error_iff.2 (.inl (requirePhase_eq_error_iff.2 ⟨hp, rfl⟩))

/-- A start is refused in every phase but the first. -/
theorem start_refusal {base scarce : Amount} (h : (a.start base scarce).1 = .error e) :
    a.Refusal (.start base scarce) e := by
  unfold start at h
  split at h
  · rename_i hplan
    cases h
    rcases planStart_error_cases hplan with ⟨hp, he⟩ | hplain
    · exact .inl ⟨_, _, .start hp, he⟩
    · exact .inr (.inl hplain)
  · cases h

/-- The end of bidding is refused if it has come already, and without an active bid. -/
theorem Bounded.finalize_refusal (h : a.Bounded) (hr : a.finalize.1 = .error e) :
    a.Refusal .finalize e := by
  have hco := h.sound.coherent
  unfold finalize at hr
  split at hr
  · rename_i hplan
    cases hr
    rcases planCommitment_error_cases hplan with
      ⟨hp, he⟩ | ⟨hp, hnone, -⟩ | ⟨caps, hp, hcaps, hc, he⟩ | hplain
    · exact .inl ⟨_, _, .closed hp, he⟩
    · obtain ⟨caps, hs⟩ := hco.phase_eq_bidding_iff.1 hp
      exact nomatch hnone.symm.trans (caps?_of_bidding hs)
    · refine .inl ⟨_, _, .empty hp fun bid hbid => ?_, he⟩
      by_contra hw
      obtain ⟨c, hc'⟩ := (h.exists_commitment_iff hcaps).2 ⟨bid, hbid, Bool.eq_false_iff.2 hw⟩
      exact nomatch hc.symm.trans hc'
    · exact .inr (.inl hplain)
  · cases hr

/-- Without an active bid there is nothing to commit. -/
theorem Bounded.planCommitment_of_empty (h : a.Bounded) (hp : a.phase = .bidding)
    (hclosed : ∀ bid ∈ a.book.bids, bid.withdrawn = true) :
    a.planCommitment = .error (a.refuse .finalize .noBids) := by
  obtain ⟨caps, hs⟩ := h.sound.coherent.phase_eq_bidding_iff.1 hp
  have hnil : a.book.activeOffers = [] := by
    by_contra hne
    obtain ⟨bid, hbid, hw⟩ := Book.activeOffers_ne_nil_iff.1 hne
    exact nomatch hw.symm.trans (hclosed bid hbid)
  have hnone : a.book.commitment? caps = .ok none :=
    Book.commitment_of_nil h.sound.indexed hnil
  refine bind_eq_error_iff.2 (.inr ⟨(), requirePhase_eq_ok_iff.2 hp, ?_⟩)
  refine bind_eq_error_iff.2 (.inr ⟨caps, require_eq_ok_iff.2 (caps?_of_bidding hs), ?_⟩)
  refine bind_eq_error_iff.2 (.inr ⟨none, mapError_eq_ok_iff.2 hnone, ?_⟩)
  exact require_eq_error_iff.2 ⟨rfl, rfl⟩

section
variable [AssetLedger L]

/-- A bid is refused while none are accepted. -/
theorem submitBid_refusal {depositor : Account} {tick : Tick} {amount : Amount}
    (h : (a.submitBid depositor tick amount).1 = .error e) :
    a.Refusal (.submitBid depositor tick amount) e := by
  unfold submitBid at h
  split at h
  · rename_i hcheck
    cases h
    rcases checkBid_error_cases hcheck with ⟨hp, he⟩ | hplain
    · exact .inl ⟨_, _, .submitBid hp, he⟩
    · exact .inr (.inl hplain)
  · split at h
    · cases h
      exact .inr (.inr ⟨_, rfl⟩)
    · cases h

/-- A refund is refused while no bids are accepted. -/
theorem Sound.refund_refusal {refs : List BidRef} (h : a.Sound)
    (hr : (a.refundLosingBids refs).1 = .error e) : a.Refusal (.refundLosingBids refs) e := by
  cases hplan : a.planRefunds refs with
  | error e' =>
    rw [refund_of_plan_error hplan] at hr
    cases hr
    rcases planRefunds_error_cases hplan with ⟨hp, he⟩ | ⟨hp, hnone, -⟩ | hplain
    · exact .inl ⟨_, _, .refund hp, he⟩
    · obtain ⟨caps, hs⟩ := h.coherent.phase_eq_bidding_iff.1 hp
      exact nomatch hnone.symm.trans (caps?_of_bidding hs)
    · exact .inr (.inl hplain)
  | ok plan =>
    rcases h.refund_planned hplan with ⟨report, ledger, -, hdone⟩ | ⟨e', ledger, -, hrefused⟩
    · rw [hdone] at hr
      cases hr
    · rw [hrefused] at hr
      exact .inr (.inr ⟨e', (Except.error.inj hr).symm⟩)

/-- A settlement is refused before the clearing point is committed. -/
theorem Sound.settle_refusal {owner : Account} {refs : List BidRef} (h : a.Sound)
    (hr : (a.settle owner refs).1 = .error e) : a.Refusal (.settle owner refs) e := by
  have hco := h.coherent
  cases hplan : a.planSettlement owner refs with
  | error e' =>
    rw [settle_of_plan_error hplan] at hr
    cases hr
    rcases planSettlement_error_cases hplan with
      ⟨hp, he⟩ | ⟨hp, hnone, -⟩ | ⟨hp, hnone, -⟩ | hplain
    · exact .inl ⟨_, _, .settle hp, he⟩
    · have hsome := hco.commitment?_isSome_iff.2 hp
      exact absurd hnone (Option.isSome_iff_ne_none.1 hsome)
    · have hsome := hco.totals?_isSome_iff.2 fun hn => nomatch hp.symm.trans hn
      exact absurd hnone (Option.isSome_iff_ne_none.1 hsome)
    · exact .inr (.inl hplain)
  | ok plan =>
    rcases settle_cases hco hplan with ⟨ledger, -, hdone⟩ | ⟨e', ledger, -, hrefused⟩
    · rw [hdone] at hr
      cases hr
    · rw [hrefused] at hr
      exact .inr (.inr ⟨e', (Except.error.inj hr).symm⟩)

/-- So every command is refused in one of these ways. -/
theorem Bounded.step_refusal (h : a.Bounded) {command : Command}
    (hr : (a.step command).1 = .refused e) : a.Refusal command e := by
  cases command with
  | start base scarce =>
    exact start_refusal (Response.error_of_refused hr fun _ heq => nomatch heq)
  | submitBid depositor tick amount =>
    exact submitBid_refusal (Response.error_of_refused hr fun _ heq => nomatch heq)
  | refundLosingBids refs =>
    exact h.sound.refund_refusal (Response.error_of_refused hr fun _ heq => nomatch heq)
  | finalize =>
    exact h.finalize_refusal (Response.error_of_refused hr fun _ heq => nomatch heq)
  | settle owner refs =>
    exact h.sound.settle_refusal (Response.error_of_refused hr fun _ heq => nomatch heq)
  | setTime now => cases hr
  | advanceTime millis =>
    simp only [step] at hr
    split at hr <;> cases hr

/-! ## Obstacles -/

/-- A command with an obstacle is refused for it. -/
theorem Bounded.step_of_blocked (h : a.Bounded) {command : Command}
    (hb : a.Blocked command operation obstacle) :
    (a.step command).1 = .refused (a.refuse operation obstacle) := by
  cases hb with
  | @start base scarce hp =>
    have hplan : a.planStart base scarce = .error (a.refuse .start .alreadyStarted) :=
      requirePhase_bind hp
    simp only [step, start_of_plan_error hplan, Response.ofResult]
  | @submitBid depositor tick amount hp =>
    have hcheck : a.checkBid tick amount = .error (a.refuse .submitBid .notOpen) :=
      requirePhase_bind hp
    simp only [step, submitBid_of_check_error hcheck, Response.ofResult]
  | @refund refs hp =>
    have hplan : a.planRefunds refs = .error (a.refuse .refund .notOpen) := requirePhase_bind hp
    simp only [step, refund_of_plan_error hplan, Response.ofResult]
  | closed hp =>
    have hplan : a.planCommitment = .error (a.refuse .finalize .notOpen) := requirePhase_bind hp
    simp only [step, finalize_of_plan_error hplan, Response.ofResult]
  | empty hp hclosed =>
    have hplan : a.planCommitment = .error (a.refuse .finalize .noBids) :=
      h.planCommitment_of_empty hp hclosed
    simp only [step, finalize_of_plan_error hplan, Response.ofResult]
  | @settle owner refs hp =>
    have hplan : a.planSettlement owner refs = .error (a.refuse .settle .notFinalized) :=
      requirePhase_bind hp
    simp only [step, settle_of_plan_error hplan, Response.ofResult]

/-- In every state that is attained, a command is refused for the state of the auction exactly if
there is an obstacle for it in the present phase. -/
theorem Attained.blocked_iff (h : a.Attained) {command : Command} :
    (a.step command).1 = .refused (.invalidState operation p obstacle) ↔
      p = a.phase ∧ a.Blocked command operation obstacle := by
  constructor
  · intro hr
    rcases h.bounded.step_refusal hr with ⟨operation', obstacle', hb, he⟩ | hplain | ⟨e', he⟩
    · cases he
      exact ⟨rfl, hb⟩
    · exact absurd rfl (hplain.ne_invalidState operation p obstacle)
    · cases he
  · rintro ⟨rfl, hb⟩
    exact h.bounded.step_of_blocked hb

/-! ## Questions -/

omit [AssetLedger L] in
/-- A question that reads one record, and computes with prices from there, is refused for the state
exactly if the record is missing. -/
theorem require_priced_eq_error_iff {α β : Type} {record : Option α} {asked : Operation}
    {missing : Obstacle} {f : α → Except PricingError β} :
    (a.require record asked missing >>= fun x => (f x).mapError .ofPricing) =
        .error (.invalidState operation p obstacle) ↔
      record = none ∧ .invalidState operation p obstacle = a.refuse asked missing := by
  rw [bind_eq_error_iff, require_eq_error_iff]
  refine or_iff_left ?_
  rintro ⟨x, -, hx⟩
  obtain ⟨e', -, he⟩ := mapError_eq_error_iff.1 hx
  exact (AuctionError.plain_ofPricing e').ne_invalidState operation p obstacle he

/-- In every state that is attained, the two questions that may be asked in any phase are refused
for the state of the auction exactly as long as there is no answer: the one for the clearing result
before the start, and the one for what all bids are owed before the end of bidding. -/
theorem Attained.unanswered_iff (h : a.Attained) :
    (a.clearing = .error (.invalidState operation p obstacle) ↔
      a.phase = .notStarted ∧
        .invalidState operation p obstacle = a.refuse .computeClearing .notStarted) ∧
    (a.scarceFilled = .error (.invalidState operation p obstacle) ↔
      a.phase ≠ .finalized ∧
        .invalidState operation p obstacle = a.refuse .readFills .notFinalized) := by
  have hco := h.coherent
  have hcaps : a.caps? = none ↔ a.phase = .notStarted := by
    rw [← Option.not_isSome_iff_eq_none, caps?, hco.caps?_isSome_iff, not_not]
    exact Iff.rfl
  have hcommitment : a.commitment? = none ↔ a.phase ≠ .finalized := by
    rw [← Option.not_isSome_iff_eq_none, commitment?, hco.commitment?_isSome_iff]
    exact Iff.rfl
  constructor
  · rw [← hcaps]
    exact require_priced_eq_error_iff
  · rw [← hcommitment]
    exact require_priced_eq_error_iff

end

end Auction

end BatchAuction
