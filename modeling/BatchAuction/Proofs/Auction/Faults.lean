import BatchAuction.Proofs.Auction.History
import BatchAuction.Proofs.Auction.IntakeBound

/-!
# Which lists of handles are accepted

A list of handles is legal if none occurs twice and each finds an active bid that is fit for the
call (`Book.Legal`). A handle is at fault after some others if it occurs among them, or finds no
bid, or a closed one, or one that is not fit, and only the first of these counts (`Book.Fault`).
Going through a list succeeds exactly if it is legal (`Book.visit_ok_iff`), and otherwise ends with
the fault of the first handle that is at fault (`Book.visit_error_iff`).

In the states that are attained nothing else can stop a plan: a clearing result exists, and no
payout and no sum is refused by the arithmetic. So settlements, their previews and refunds accept
exactly the legal lists, and blame the first fault before they ask the ledger for anything
(`Auction.first_fault_blamed`).
-/

namespace BatchAuction

/-! ## Legal lists and faults -/

namespace Book

/-- No handle occurs twice, and each finds an active bid that is fit. -/
structure Legal (b : Book) (Fit : Bid → Prop) (refs : List BidRef) : Prop where
  nodup : refs.Nodup
  found : ∀ ref ∈ refs, ∃ bid, b.get? ref = some bid ∧ bid.withdrawn = false ∧ Fit bid

/-- What is wrong with a handle after some others; `blame` is the fault of a bid that is not fit. -/
inductive Fault (b : Book) (Fit : Bid → Prop) (blame : BidRef → Bid → AuctionError)
    (before : List BidRef) (ref : BidRef) : AuctionError → Prop
  | duplicate : ref ∈ before → Fault b Fit blame before ref (.duplicateBidRef ref)
  | unknown : ref ∉ before → b.get? ref = none → Fault b Fit blame before ref (.bidNotFound ref)
  | closed {bid : Bid} : ref ∉ before → b.get? ref = some bid → bid.withdrawn = true →
      Fault b Fit blame before ref (.alreadyWithdrawn ref)
  | unfit {bid : Bid} : ref ∉ before → b.get? ref = some bid → bid.withdrawn = false →
      ¬ Fit bid → Fault b Fit blame before ref (blame ref bid)

/-- The fault of the first handle of a list that is at fault after those before it. -/
def FirstFault (b : Book) (Fit : Bid → Prop) (blame : BidRef → Bid → AuctionError)
    (refs : List BidRef) (e : AuctionError) : Prop :=
  ∃ before ref after, refs = before ++ ref :: after ∧ b.Fault Fit blame before ref e ∧
    ∀ l r k, before = l ++ r :: k → ∀ e', ¬ b.Fault Fit blame l r e'

variable {b : Book} {Fit : Bid → Prop} {blame : BidRef → Bid → AuctionError}
  {refs before after : List BidRef} {ref : BidRef} {e : AuctionError}

/-- No handles at all are legal. -/
theorem legal_nil : b.Legal Fit [] := ⟨List.nodup_nil, fun _ h => nomatch h⟩

/-- A handle after a legal list keeps it legal or is at fault. -/
theorem Legal.snoc_or_fault (h : b.Legal Fit before) :
    b.Legal Fit (before ++ [ref]) ∨ ∃ e, b.Fault Fit blame before ref e := by
  by_cases hnew : ref ∈ before
  · exact .inr ⟨_, .duplicate hnew⟩
  cases hget : b.get? ref with
  | none => exact .inr ⟨_, .unknown hnew hget⟩
  | some bid =>
    cases hw : bid.withdrawn with
    | true => exact .inr ⟨_, .closed hnew hget hw⟩
    | false =>
      by_cases hfit : Fit bid
      · have hnodup := (List.nodup_concat before ref).2 ⟨hnew, h.nodup⟩
        rw [List.concat_eq_append] at hnodup
        refine .inl ⟨hnodup, fun r hr => ?_⟩
        rcases List.mem_append.1 hr with hr | hr
        · exact h.found r hr
        · exact List.mem_singleton.1 hr ▸ ⟨bid, hget, hw, hfit⟩
      · exact .inr ⟨_, .unfit hnew hget hw hfit⟩

/-- No handle of a legal list is at fault. -/
theorem Legal.not_fault (h : b.Legal Fit (before ++ ref :: after)) :
    ¬ b.Fault Fit blame before ref e := by
  obtain ⟨bid, hget, hactive, hfit⟩ :=
    h.found ref (List.mem_append_right _ List.mem_cons_self)
  intro hfault
  cases hfault with
  | duplicate hmem =>
    exact (List.nodup_append.1 h.nodup).2.2 ref hmem ref List.mem_cons_self rfl
  | unknown _ hnone => exact nomatch hnone.symm.trans hget
  | closed _ hget' hw =>
    obtain rfl := Option.some.inj (hget.symm.trans hget')
    exact nomatch hactive.symm.trans hw
  | unfit _ hget' _ hunfit =>
    obtain rfl := Option.some.inj (hget.symm.trans hget')
    exact hunfit hfit

/-- A list is legal if none of its handles is at fault after those before it. -/
theorem legal_of_not_fault
    (h : ∀ l r k, refs = l ++ r :: k → ∀ e, ¬ b.Fault Fit blame l r e) : b.Legal Fit refs := by
  -- from the front to the end, as a fault depends on the handles before it
  induction refs using List.reverseRecOn with
  | nil => exact legal_nil
  | append_singleton l r ih =>
    have hl : b.Legal Fit l := ih fun l' r' k hsplit =>
      h l' r' (k ++ [r]) (by rw [hsplit, List.append_assoc, List.cons_append])
    rcases hl.snoc_or_fault with hlegal | ⟨e, hfault⟩
    · exact hlegal
    · exact absurd hfault (h l r [] rfl e)

/-- A list is legal, or one of its handles is the first at fault. -/
theorem legal_or_firstFault (b : Book) (Fit : Bid → Prop) (blame : BidRef → Bid → AuctionError)
    (refs : List BidRef) : b.Legal Fit refs ∨ ∃ e, b.FirstFault Fit blame refs e := by
  induction refs using List.reverseRecOn with
  | nil => exact .inl legal_nil
  | append_singleton l r ih =>
    rcases ih with hl | ⟨e, l', r', k, hsplit, hfault, hfirst⟩
    · have hnext : b.Legal Fit (l ++ [r]) ∨ ∃ e, b.Fault Fit blame l r e := hl.snoc_or_fault
      rcases hnext with hlegal | ⟨e, hfault⟩
      · exact .inl hlegal
      · exact .inr ⟨e, l, r, [], rfl, hfault, fun l' r' k hsplit e' => (hsplit ▸ hl).not_fault⟩
    · refine .inr ⟨e, l', r', k ++ [r], ?_, hfault, hfirst⟩
      rw [hsplit, List.append_assoc, List.cons_append]

/-! ## Going through a list -/

section
variable {σ : Type} {f : σ → BidRef → Bid → Except AuctionError σ}

/-- A list in two parts is looked at part by part. -/
theorem visit_append (b : Book) (f : σ → BidRef → Bid → Except AuctionError σ)
    (before refs : List BidRef) :
    ∀ (seen : List BidRef) (s : σ), b.visit f seen s (before ++ refs) =
      b.visit f seen s before >>= fun s' => b.visit f (before.reverse ++ seen) s' refs := by
  induction before with
  | nil => exact fun _ _ => rfl
  | cons ref before ih =>
    intro seen s
    rw [List.cons_append, List.reverse_cons, List.append_assoc]
    simp only [visit]
    split
    · rfl
    · split
      · rfl
      · split
        · rfl
        · split
          · rfl
          · exact ih _ _

/-- A handle at fault ends it. -/
theorem Fault.visit (h : b.Fault Fit blame before ref e)
    (hunfit : ∀ s ref bid, ¬ Fit bid → f s ref bid = .error (blame ref bid))
    {seen : List BidRef} (hseen : ∀ r, r ∈ seen ↔ r ∈ before) (s : σ) :
    b.visit f seen s (ref :: after) = .error e := by
  unfold Book.visit
  cases h with
  | duplicate hmem => rw [if_pos ((hseen ref).2 hmem)]
  | unknown hnew hget =>
    rw [if_neg (mt (hseen ref).1 hnew)]
    simp only [hget]
  | closed hnew hget hw =>
    rw [if_neg (mt (hseen ref).1 hnew)]
    simp only [hget, if_pos hw]
  | unfit hnew hget hactive hfit =>
    rw [if_neg (mt (hseen ref).1 hnew)]
    simp only [hget, hactive, Bool.false_eq_true, if_false, hunfit _ _ _ hfit]

/-! If every fit bid is taken in after any others, and no other is, then exactly the legal lists are
gone through, and the others end with their first fault. -/

variable {P : List BidRef → σ → Prop} {s : σ}
  (hstep : ∀ done s ref bid, ref ∉ done → b.get? ref = some bid → bid.withdrawn = false →
    Fit bid → P done s → ∃ s', f s ref bid = .ok s' ∧ P (done ++ [ref]) s')
  (hunfit : ∀ s ref bid, ¬ Fit bid → f s ref bid = .error (blame ref bid))

include hstep hunfit

/-- A first fault is what looking at the handles answers. -/
theorem FirstFault.visit (h : b.FirstFault Fit blame refs e) (h0 : P [] s) :
    b.visit f [] s refs = .error e := by
  obtain ⟨before, ref, after, rfl, hfault, hfirst⟩ := h
  have hlegal : b.Legal Fit before := legal_of_not_fault hfirst
  obtain ⟨s', hs'⟩ := exists_visit hstep h0 hlegal.nodup hlegal.found
  rw [visit_append, hs']
  refine hfault.visit hunfit (fun r => ?_) s'
  rw [List.append_nil, List.mem_reverse]

/-- So the handles are all taken in exactly if they are legal. -/
theorem visit_ok_iff (h0 : P [] s) :
    (∃ s', b.visit f [] s refs = .ok s') ↔ b.Legal Fit refs := by
  refine ⟨fun ⟨s', hs'⟩ => ?_, fun hlegal => exists_visit hstep h0 hlegal.nodup hlegal.found⟩
  rcases b.legal_or_firstFault Fit blame refs with hlegal | ⟨e, hfirst⟩
  · exact hlegal
  · exact nomatch hs'.symm.trans (hfirst.visit hstep hunfit h0)

/-- And otherwise the first fault is answered. -/
theorem visit_error_iff (h0 : P [] s) :
    b.visit f [] s refs = .error e ↔ b.FirstFault Fit blame refs e := by
  refine ⟨fun he => ?_, fun hfirst => hfirst.visit hstep hunfit h0⟩
  rcases b.legal_or_firstFault Fit blame refs with hlegal | ⟨e', hfirst⟩
  · obtain ⟨s', hs'⟩ := (visit_ok_iff hstep hunfit h0).2 hlegal
    exact nomatch he.symm.trans hs'
  · have he' := hfirst.visit hstep hunfit h0
    exact Except.error.inj (he.symm.trans he') ▸ hfirst

end

end Book

/-! ## Plans -/

namespace Auction

variable {L : Type} {a : Auction L} {refs : List BidRef} {e : AuctionError}

/-- The fault of a bid that belongs to another account than the one to be paid. -/
def notOwned (owner : Account) (ref : BidRef) (bid : Bid) : AuctionError :=
  .notBidOwner ref bid.depositor owner

/-- The fault of a bid that may still win. -/
def stillBinding (clearing : ClearingResult) (ref : BidRef) (_ : Bid) : AuctionError :=
  .bidStillBinding ref clearing.clearingTick

section
variable {caps : Caps} {c : Commitment} {paid : PayoutTotals} {owner : Account}

/-- A bid of another account is not paid. -/
theorem payBid_notOwned {s : PayoutReport × PayoutTotals} {ref : BidRef} {bid : Bid}
    (h : bid.depositor ≠ owner) : payBid c owner s ref bid = .error (notOwned owner ref bid) :=
  if_pos h

/-- A settlement is planned exactly for the active bids of the account, none of them twice. -/
theorem Sound.planSettlement_ok_iff (h : a.Sound) (hs : a.stage = .finalized caps c paid) :
    (∃ plan, a.planSettlement owner refs = .ok plan) ↔
      a.book.Legal (fun bid => bid.depositor = owner) refs := by
  rw [planSettlement_of_finalized hs]
  exact Book.visit_ok_iff (h.payBid_next hs) (fun _ _ _ => payBid_notOwned)
    ⟨.nil, tallied_empty⟩

/-- And otherwise refused for the first fault. -/
theorem Sound.planSettlement_error_iff (h : a.Sound) (hs : a.stage = .finalized caps c paid) :
    a.planSettlement owner refs = .error e ↔
      a.book.FirstFault (fun bid => bid.depositor = owner) (notOwned owner) refs e := by
  rw [planSettlement_of_finalized hs]
  exact Book.visit_error_iff (h.payBid_next hs) (fun _ _ _ => payBid_notOwned)
    ⟨.nil, tallied_empty⟩

end

section
variable {clearing : ClearingResult}

/-- A bid that has lost is refunded in full. -/
theorem refundBid_losing {payouts : List Payout} {ref : BidRef} {bid : Bid}
    (h : clearing.Losing bid.tick) :
    refundBid clearing payouts ref bid =
      .ok (payouts ++ [⟨ref, bid.depositor, .refunded bid.amount⟩]) :=
  if_pos h

/-- A bid that has not lost is not refunded. -/
theorem refundBid_stillBinding {payouts : List Payout} {ref : BidRef} {bid : Bid}
    (h : ¬ clearing.Losing bid.tick) :
    refundBid clearing payouts ref bid = .error (stillBinding clearing ref bid) :=
  if_neg h

/-- A refund plan looks at the handles by the present clearing result. -/
theorem planRefunds_eq (hp : a.phase = .bidding) (hc : a.clearing = .ok clearing) :
    a.planRefunds refs =
      (a.book.visit (refundBid clearing) [] [] refs).map fun payouts => (clearing, payouts) := by
  rw [planRefunds, requirePhase_eq_ok_iff.2 hp, hc]
  rfl

/-- A refund is planned exactly for active bids that have lost, none of them twice. -/
theorem planRefunds_ok_iff (hp : a.phase = .bidding) (hc : a.clearing = .ok clearing) :
    (∃ plan, a.planRefunds refs = .ok plan) ↔
      a.book.Legal (fun bid => clearing.Losing bid.tick) refs := by
  rw [planRefunds_eq hp hc, exists_map_eq_ok_iff]
  exact Book.visit_ok_iff (P := fun _ _ => True)
    (fun _ _ _ _ _ _ _ hlosing _ => ⟨_, refundBid_losing hlosing, trivial⟩)
    (fun _ _ _ => refundBid_stillBinding) trivial

/-- And otherwise refused for the first fault. -/
theorem planRefunds_error_iff (hp : a.phase = .bidding) (hc : a.clearing = .ok clearing) :
    a.planRefunds refs = .error e ↔
      a.book.FirstFault (fun bid => clearing.Losing bid.tick) (stillBinding clearing) refs e := by
  rw [planRefunds_eq hp hc, map_eq_error_iff]
  exact Book.visit_error_iff (P := fun _ _ => True)
    (fun _ _ _ _ _ _ _ hlosing _ => ⟨_, refundBid_losing hlosing, trivial⟩)
    (fun _ _ _ => refundBid_stillBinding) trivial

end

/-! ## Calls -/

section
variable [AssetLedger L]

/-- How a call takes a list of handles. A legal list passes: the call is done, or the ledger refuses
a batch of moves. Any other list has a first fault, and for this one the auction itself refuses the
call; then all is as before, the ledger included. -/
structure Screens (a : Auction L) (Fit : Bid → Prop) (blame : BidRef → Bid → AuctionError)
    (refs : List BidRef) (result : Except AuctionError PayoutReport × Auction L) : Prop where
  passes : ((∃ report, result.1 = .ok report) ∨
      ∃ moves e ledger, AssetLedger.performAll a.ledger moves = (.error e, ledger) ∧
        result = (.error (.ledger e), { a with ledger })) ↔
    a.book.Legal Fit refs
  faulty : ¬ a.book.Legal Fit refs → ∃ e, a.book.FirstFault Fit blame refs e
  blames : ∀ e, a.book.FirstFault Fit blame refs e → result = (.error e, a) ∧ e.Own

/-- A call takes a list as its plan does, if all it adds to the plan are moves. -/
theorem Screens.of_plan {Fit : Bid → Prop} {blame : BidRef → Bid → AuctionError}
    {result : Except AuctionError PayoutReport × Auction L} {α : Type}
    {plan : Except AuctionError α}
    (hok : (∃ p, plan = .ok p) ↔ a.book.Legal Fit refs)
    (herror : ∀ e, plan = .error e ↔ a.book.FirstFault Fit blame refs e)
    (hdone : ∀ p, plan = .ok p → (∃ report, result.1 = .ok report) ∨
      ∃ moves e ledger, AssetLedger.performAll a.ledger moves = (.error e, ledger) ∧
        result = (.error (.ledger e), { a with ledger }))
    (hrefused : ∀ e, plan = .error e → result = (.error e, a) ∧ e.Own) :
    a.Screens Fit blame refs result where
  passes := by
    cases hplan : plan with
    | ok p => exact iff_of_true (hdone p hplan) (hok.1 ⟨p, hplan⟩)
    | error e =>
      obtain ⟨hresult, hown⟩ := hrefused e hplan
      refine iff_of_false ?_ fun hlegal => ?_
      · rw [hresult]
        rintro (⟨report, hreport⟩ | ⟨moves, e', ledger, -, he'⟩)
        · cases hreport
        · obtain rfl := Except.error.inj (congrArg Prod.fst he')
          exact hown
      · obtain ⟨p, hp⟩ := hok.2 hlegal
        exact nomatch hplan.symm.trans hp
  faulty hillegal := (a.book.legal_or_firstFault Fit blame refs).resolve_left hillegal
  blames e hfirst := hrefused e ((herror e).2 hfirst)

/-- A settlement takes the active bids of its account. -/
theorem Sound.settle_screens {caps : Caps} {c : Commitment} {paid : PayoutTotals} (h : a.Sound)
    (hs : a.stage = .finalized caps c paid) (owner : Account) (refs : List BidRef) :
    a.Screens (fun bid => bid.depositor = owner) (notOwned owner) refs (a.settle owner refs) := by
  refine .of_plan (h.planSettlement_ok_iff hs) (fun e => h.planSettlement_error_iff hs) ?_ ?_
  · rintro ⟨report, paid'⟩ hplan
    rcases settle_cases h.coherent hplan with ⟨ledger, -, hdone⟩ | ⟨e, ledger, hperform, hrefused⟩
    · exact .inl ⟨report, congrArg Prod.fst hdone⟩
    · exact .inr ⟨_, e, ledger, hperform, hrefused⟩
  · exact fun e hplan => ⟨settle_of_plan_error hplan, planSettlement_error hplan⟩

/-- A refund takes the active bids that have lost. -/
theorem Sound.refund_screens {clearing : ClearingResult} (h : a.Sound) (hp : a.phase = .bidding)
    (hc : a.clearing = .ok clearing) (refs : List BidRef) :
    a.Screens (fun bid => clearing.Losing bid.tick) (stillBinding clearing) refs
      (a.refundLosingBids refs) := by
  refine .of_plan (planRefunds_ok_iff hp hc) (fun e => planRefunds_error_iff hp hc) ?_ ?_
  · rintro ⟨clearing', payouts⟩ hplan
    rcases h.refund_planned hplan with ⟨report, ledger, -, hdone⟩ | ⟨e, ledger, hperform, hrefused⟩
    · exact .inl ⟨report, congrArg Prod.fst hdone⟩
    · exact .inr ⟨_, e, ledger, hperform, hrefused⟩
  · exact fun e hplan => ⟨refund_of_plan_error hplan, planRefunds_error hplan⟩

/-- In every state that is attained, over any ledger, a list of handles is accepted exactly if no
handle occurs twice and each finds an active bid that is fit: after the commitment, for a settlement
and its preview, one that belongs to the account; while bids are accepted, for a refund, one that
has lost by the present clearing result, which exists. Any other list is refused for the first
handle that is at fault after those before it: because it occurs among them, or has no bid, or a
closed one, or one that is not fit, in this order. Then nothing has changed, not even in a ledger
that remembers every move that it is asked for. -/
theorem first_fault_blamed (h : a.Attained) :
    (a.phase = .finalized → ∀ (owner : Account) (refs : List BidRef),
      ((∃ report, a.previewSettle owner refs = .ok report) ↔
        a.book.Legal (fun bid => bid.depositor = owner) refs) ∧
      (∀ e, a.previewSettle owner refs = .error e ↔
        a.book.FirstFault (fun bid => bid.depositor = owner) (notOwned owner) refs e) ∧
      a.Screens (fun bid => bid.depositor = owner) (notOwned owner) refs (a.settle owner refs)) ∧
    (a.phase = .bidding → ∃ clearing, a.clearing = .ok clearing ∧ ∀ refs : List BidRef,
      a.Screens (fun bid => clearing.Losing bid.tick) (stillBinding clearing) refs
        (a.refundLosingBids refs)) := by
  constructor
  · intro hp owner refs
    obtain ⟨caps, c, paid, hs⟩ := h.coherent.phase_eq_finalized_iff.1 hp
    refine ⟨?_, fun e => ?_, h.sound.settle_screens hs owner refs⟩
    · exact exists_map_eq_ok_iff.trans (h.sound.planSettlement_ok_iff hs)
    · exact map_eq_error_iff.trans (h.sound.planSettlement_error_iff hs)
  · intro hp
    obtain ⟨clearing, hc⟩ := h.bounded.exists_clearing fun hn => nomatch hp.symm.trans hn
    exact ⟨clearing, hc, h.sound.refund_screens hp hc⟩

end

/-- After the commitment of the small auction, the winner may be paid the high bid; but a list that
goes on with a handle without a bid is refused for this one, although the high bid occurs again
after it. Before, no refund of the low bid twice is accepted. -/
theorem small_first_fault_blamed :
    (∃ report, smallCleared.previewSettle smallWinner [⟨smallHigh, 0⟩] = .ok report) ∧
      smallCleared.settle smallWinner [⟨smallHigh, 0⟩, ⟨smallLow, 7⟩, ⟨smallHigh, 0⟩] =
        (.error (.bidNotFound ⟨smallLow, 7⟩), smallCleared) ∧
      smallOpen.refundLosingBids [⟨smallLow, 0⟩, ⟨smallLow, 0⟩] =
        (.error (.duplicateBidRef ⟨smallLow, 0⟩), smallOpen) := by
  have hhigh : smallCleared.book.Legal (fun bid => bid.depositor = smallWinner)
      [⟨smallHigh, 0⟩] := by
    refine ⟨List.nodup_singleton _, fun ref href => ?_⟩
    obtain rfl := List.mem_singleton.1 href
    have hget : smallCleared.book.get? ⟨smallHigh, 0⟩ =
        some ⟨smallHigh, 0, smallWinner, 70, false, .zero⟩ := by decide +kernel
    exact ⟨_, hget, rfl, rfl⟩
  have hpaid :=
    (first_fault_blamed smallCleared_reachable.attained).1 (by decide +kernel) smallWinner
  obtain ⟨clearing, hclearing, hrefund⟩ :=
    (first_fault_blamed smallOpen_reachable.attained).2 (by decide +kernel)
  have hlow : smallOpen.book.Legal (fun bid => clearing.Losing bid.tick) [⟨smallLow, 0⟩] := by
    refine ⟨List.nodup_singleton _, fun ref href => ?_⟩
    obtain rfl := List.mem_singleton.1 href
    have hget : smallOpen.book.get? ⟨smallLow, 0⟩ =
        some ⟨smallLow, 0, smallLoser, 5, false, .zero⟩ := by decide +kernel
    have hlosing : smallOpen.clearing.map (fun r => decide (r.Losing smallLow)) = .ok true := by
      decide +kernel
    rw [hclearing] at hlosing
    exact ⟨_, hget, rfl, of_decide_eq_true (Except.ok.inj hlosing)⟩
  refine ⟨(hpaid _).1.2 hhigh, ((hpaid _).2.2.blames _ ?_).1, ((hrefund _).blames _ ?_).1⟩
  · refine ⟨[⟨smallHigh, 0⟩], _, _, rfl, .unknown (by decide) (by decide +kernel), ?_⟩
    exact fun l r k hsplit e => (hsplit ▸ hhigh).not_fault
  · refine ⟨[⟨smallLow, 0⟩], _, [], rfl, .duplicate (by decide), ?_⟩
    exact fun l r k hsplit e => (hsplit ▸ hlow).not_fault

end Auction

end BatchAuction
