import BatchAuction.Auction.Settling
import BatchAuction.Proofs.Book.Closing
import Mathlib.Data.List.Nodup

/-!
# What a plan has looked at

Refunds and settlements first look at all their handles and draw up payouts. A plan that succeeds is
a draft (`Auction.Draft`): one payout for each handle, in order, no handle twice, each of an active
bid, to the account that placed it, with the amounts it is owed at that stage. What a bid is owed
(`Auction.owed`) is its whole amount before the clearing point is committed, and its payout after.
So the two kinds of plan differ in nothing that money depends on. Two drafts of the same bids have
the same payouts (`Auction.Draft.perm`), and what is drawn up after the bids of a draft are closed
adds to that draft (`Auction.Draft.append`). A plan that fails is never blamed on the ledger.

A report adds payouts up one at a time (`Auction.Tallied`), and nothing but a sum that leaves
the 256 bits can stop it (`Auction.exists_foldlM_addPayout`).
-/

namespace BatchAuction

/-! ## Looking at handles -/

namespace Book

variable {σ : Type} {b : Book} {f : σ → BidRef → Bid → Except AuctionError σ}

/-- What holds of the handles looked at so far and is kept by each bid holds of all in the end. -/
theorem visit_from {P : List BidRef → σ → Prop}
    (hstep : ∀ done s ref bid s', ref ∉ done → b.get? ref = some bid → bid.withdrawn = false →
      f s ref bid = .ok s' → P done s → P (done ++ [ref]) s')
    {refs : List BidRef} :
    ∀ {seen done : List BidRef} {s s' : σ}, (∀ ref, ref ∈ seen ↔ ref ∈ done) → P done s →
      b.visit f seen s refs = .ok s' → P (done ++ refs) s' := by
  induction refs with
  | nil =>
    intro seen done s s' _ hP h
    cases h
    rwa [List.append_nil]
  | cons ref refs ih =>
    intro seen done s s' hseen hP h
    unfold visit at h
    split at h
    · cases h
    · rename_i hnew
      split at h
      · cases h
      · rename_i bid hget
        split at h
        · cases h
        · rename_i hactive
          split at h
          · cases h
          · rename_i s₁ hs₁
            have hP' := hstep done s ref bid s₁ (fun hd => hnew ((hseen ref).2 hd)) hget
              (Bool.eq_false_iff.2 hactive) hs₁ hP
            have hseen' : ∀ r, r ∈ ref :: seen ↔ r ∈ done ++ [ref] := by
              intro r
              rw [List.mem_cons, List.mem_append, List.mem_singleton, hseen, or_comm]
            have hrest := ih hseen' hP' h
            rwa [List.append_assoc] at hrest

/-- What holds at first and is kept by each bid looked at holds at the end, of all handles. -/
theorem visit_invariant {P : List BidRef → σ → Prop}
    (hstep : ∀ done s ref bid s', ref ∉ done → b.get? ref = some bid → bid.withdrawn = false →
      f s ref bid = .ok s' → P done s → P (done ++ [ref]) s')
    {refs : List BidRef} {s s' : σ} (h0 : P [] s) (h : b.visit f [] s refs = .ok s') :
    P refs s' := by
  have hfrom := visit_from hstep (fun _ => Iff.rfl) h0 h
  rwa [List.nil_append] at hfrom

/-- Handles that find active bids are taken in after those that have been taken in so far. -/
theorem exists_visit_from {P : List BidRef → σ → Prop} {Q : Bid → Prop}
    (hstep : ∀ done s ref bid, ref ∉ done → b.get? ref = some bid → bid.withdrawn = false →
      Q bid → P done s → ∃ s', f s ref bid = .ok s' ∧ P (done ++ [ref]) s')
    {refs : List BidRef} :
    ∀ {seen done : List BidRef} {s : σ}, (∀ ref, ref ∈ seen ↔ ref ∈ done) → P done s →
      (done ++ refs).Nodup →
      (∀ ref ∈ refs, ∃ bid, b.get? ref = some bid ∧ bid.withdrawn = false ∧ Q bid) →
      ∃ s', b.visit f seen s refs = .ok s' := by
  induction refs with
  | nil => exact fun _ _ _ _ => ⟨_, rfl⟩
  | cons ref refs ih =>
    intro seen done s hseen hP hnodup hfound
    obtain ⟨bid, hget, hactive, hQ⟩ := hfound ref List.mem_cons_self
    have hnew : ref ∉ done := fun hd =>
      (List.nodup_append.1 hnodup).2.2 ref hd ref List.mem_cons_self rfl
    obtain ⟨s₁, hs₁, hP₁⟩ := hstep done s ref bid hnew hget hactive hQ hP
    have hseen₁ : ∀ r, r ∈ ref :: seen ↔ r ∈ done ++ [ref] := by
      intro r
      rw [List.mem_cons, List.mem_append, List.mem_singleton, hseen, or_comm]
    have hnodup₁ : (done ++ [ref] ++ refs).Nodup := by
      rw [List.append_assoc]
      exact hnodup
    obtain ⟨s', hs'⟩ := ih hseen₁ hP₁ hnodup₁ fun r hr => hfound r (List.mem_cons_of_mem _ hr)
    refine ⟨s', ?_⟩
    unfold visit
    rw [if_neg (mt (hseen ref).1 hnew)]
    simp only [hget, hactive, Bool.false_eq_true, if_false, hs₁]
    exact hs'

/-- If each bid is taken in after any others, so are the bids of all handles that find active ones,
none of them twice. -/
theorem exists_visit {P : List BidRef → σ → Prop} {Q : Bid → Prop}
    (hstep : ∀ done s ref bid, ref ∉ done → b.get? ref = some bid → bid.withdrawn = false →
      Q bid → P done s → ∃ s', f s ref bid = .ok s' ∧ P (done ++ [ref]) s')
    {refs : List BidRef} {s : σ} (h0 : P [] s) (hnodup : refs.Nodup)
    (hfound : ∀ ref ∈ refs, ∃ bid, b.get? ref = some bid ∧ bid.withdrawn = false ∧ Q bid) :
    ∃ s', b.visit f [] s refs = .ok s' :=
  exists_visit_from hstep (fun _ => Iff.rfl) h0 hnodup hfound

/-- A fault is one of the handles or one that the bid looked at gives. -/
theorem visit_error {Q : AuctionError → Prop} (hdup : ∀ ref, Q (.duplicateBidRef ref))
    (hnone : ∀ ref, Q (.bidNotFound ref)) (hclosed : ∀ ref, Q (.alreadyWithdrawn ref))
    (hf : ∀ s ref bid e, f s ref bid = .error e → Q e) {refs : List BidRef} :
    ∀ {seen : List BidRef} {s : σ} {e : AuctionError}, b.visit f seen s refs = .error e → Q e := by
  induction refs with
  | nil =>
    intro seen s e h
    cases h
  | cons ref refs ih =>
    intro seen s e h
    unfold visit at h
    split at h
    · cases h
      exact hdup ref
    · split at h
      · cases h
        exact hnone ref
      · rename_i bid hget
        split at h
        · cases h
          exact hclosed ref
        · split at h
          · rename_i he'
            cases h
            exact hf s ref bid _ he'
          · exact ih h

end Book

namespace Auction

variable {L : Type} {a : Auction L}

/-! ## Drafts -/

/-- What a bid is owed at the present stage. -/
def owed (a : Auction L) (bid : Bid) : Except PricingError BidAmounts :=
  match a.commitment? with
  | none => .ok (.refunded bid.amount)
  | some c => c.amountsFor bid

section
variable {caps : Caps} {c : Commitment} {paid : PayoutTotals}

/-- While bids are accepted there is no commitment. -/
theorem commitment?_of_bidding (h : a.stage = .bidding caps) : a.commitment? = none := by
  rw [commitment?, h]
  rfl

/-- While bids are accepted there are the caps. -/
theorem caps?_of_bidding (h : a.stage = .bidding caps) : a.caps? = some caps := by
  rw [caps?, h]
  rfl

/-- After the end of bidding there is the commitment. -/
theorem commitment?_of_finalized (h : a.stage = .finalized caps c paid) :
    a.commitment? = some c := by
  rw [commitment?, h]
  rfl

/-- A clearing result is one of the present book under the caps. -/
theorem clearing_eq_ok_iff {r : ClearingResult} :
    a.clearing = .ok r ↔ ∃ caps, a.caps? = some caps ∧ a.book.clearing caps = .ok r := by
  unfold Auction.clearing requireCaps
  simp only [bind_eq_ok_iff, require_eq_ok_iff, mapError_eq_ok_iff]

/-- Before the clearing point is committed, a bid is owed its whole amount. -/
theorem owed_of_none (h : a.commitment? = none) (bid : Bid) :
    a.owed bid = .ok (.refunded bid.amount) := by
  rw [owed, h]

/-- Afterwards it is owed its payout. -/
theorem owed_of_some (h : a.commitment? = some c) (bid : Bid) :
    a.owed bid = c.amountsFor bid := by
  rw [owed, h]

end

/-- Payouts of what active bids are owed, no bid twice. -/
structure Draft (a : Auction L) (payouts : List Payout) : Prop where
  nodup : (payouts.map Payout.bid).Nodup
  found : ∀ p ∈ payouts, ∃ bid, a.book.get? p.bid = some bid ∧ bid.withdrawn = false ∧
    p.depositor = bid.depositor ∧ a.owed bid = .ok p.amounts

/-- No payouts at all are a draft. -/
theorem Draft.nil : a.Draft [] := ⟨List.nodup_nil, fun _ hp => nomatch hp⟩

/-- The bids of a draft are active, and none of them is listed twice. -/
theorem Draft.opens {payouts : List Payout} (h : a.Draft payouts) :
    a.book.Open Payout.bid payouts := by
  refine ⟨h.nodup, fun p hp => ?_⟩
  obtain ⟨bid, hget, hactive, -⟩ := h.found p hp
  exact ⟨bid, hget, hactive⟩

/-- The first payouts of a draft are a draft. -/
theorem Draft.of_prefix {payouts done : List Payout} (h : a.Draft payouts) (hp : done <+: payouts) :
    a.Draft done :=
  ⟨(hp.sublist.map _).nodup h.nodup, fun p hd => h.found p (hp.subset hd)⟩

/-- One more payout, of another bid. -/
theorem Draft.snoc {payouts : List Payout} {ref : BidRef} {bid : Bid} {x : BidAmounts}
    (h : a.Draft payouts) (hnew : ref ∉ payouts.map Payout.bid) (hget : a.book.get? ref = some bid)
    (hactive : bid.withdrawn = false) (hx : a.owed bid = .ok x) :
    a.Draft (payouts ++ [⟨ref, bid.depositor, x⟩]) := by
  constructor
  · rw [List.map_append, List.nodup_append]
    refine ⟨h.nodup, List.pairwise_singleton _ _, fun r hr r' hr' heq => hnew ?_⟩
    obtain rfl : r' = ref := List.mem_singleton.1 hr'
    exact heq ▸ hr
  · intro p hp
    rcases List.mem_append.1 hp with hp | hp
    · exact h.found p hp
    · obtain rfl := List.mem_singleton.1 hp
      exact ⟨bid, hget, hactive, rfl, hx⟩

/-- A draft pays each of its bids what it is owed. -/
theorem Draft.pays {payouts : List Payout} {ref : BidRef} {bid : Bid} (h : a.Draft payouts)
    (hget : a.book.get? ref = some bid) (hmem : ref ∈ payouts.map Payout.bid) :
    ∃ x, a.owed bid = .ok x ∧ ⟨ref, bid.depositor, x⟩ ∈ payouts := by
  obtain ⟨p, hp, rfl⟩ := List.mem_map.1 hmem
  obtain ⟨bid', hget', -, hdepositor, howed⟩ := h.found p hp
  obtain rfl : bid = bid' := Option.some.inj (hget.symm.trans hget')
  exact ⟨p.amounts, howed, hdepositor ▸ hp⟩

/-- Two drafts pay a bid the same. -/
theorem Draft.unique {payouts payouts' : List Payout} {p p' : Payout} (h : a.Draft payouts)
    (h' : a.Draft payouts') (hp : p ∈ payouts) (hp' : p' ∈ payouts') (heq : p.bid = p'.bid) :
    p = p' := by
  obtain ⟨bid, hget, -, hdepositor, howed⟩ := h.found p hp
  obtain ⟨bid', hget', -, hdepositor', howed'⟩ := h'.found p' hp'
  obtain rfl : bid = bid' := Option.some.inj (hget.symm.trans (heq ▸ hget'))
  exact Payout.ext heq (hdepositor.trans hdepositor'.symm)
    (Except.ok.inj (howed.symm.trans howed'))

/-- So two drafts of the same bids have the same payouts. -/
theorem Draft.perm {payouts payouts' : List Payout} (h : a.Draft payouts) (h' : a.Draft payouts')
    (hrefs : (payouts.map Payout.bid).Perm (payouts'.map Payout.bid)) :
    payouts.Perm payouts' := by
  refine (List.perm_ext_iff_of_nodup (List.Nodup.of_map _ h.nodup)
    (List.Nodup.of_map _ h'.nodup)).2 fun p => ?_
  constructor
  · intro hp
    obtain ⟨p', hp', heq⟩ := List.mem_map.1 (hrefs.mem_iff.1 (List.mem_map_of_mem hp))
    exact h.unique h' hp hp' heq.symm ▸ hp'
  · intro hp
    obtain ⟨p', hp', heq⟩ := List.mem_map.1 (hrefs.mem_iff.2 (List.mem_map_of_mem hp))
    exact h'.unique h hp hp' heq.symm ▸ hp'

/-- A draft in a state after the bids of another one are closed adds to that one. -/
theorem Draft.append {b : Auction L} {payouts more : List Payout} (h : a.Draft payouts)
    (hbook : b.book = a.book.closeAll (payouts.map Payout.bid))
    (howed : ∀ bid, b.owed bid = a.owed bid) (h' : b.Draft more) : a.Draft (payouts ++ more) := by
  have hmore : ∀ p ∈ more, p.bid ∉ payouts.map Payout.bid ∧
      ∃ bid, a.book.get? p.bid = some bid ∧ bid.withdrawn = false ∧
        p.depositor = bid.depositor ∧ a.owed bid = .ok p.amounts := by
    intro p hp
    obtain ⟨bid, hget, hactive, hdepositor, hx⟩ := h'.found p hp
    rw [hbook, Book.get?_closeAll] at hget
    split at hget
    · obtain ⟨old, -, rfl⟩ := Option.map_eq_some_iff.1 hget
      cases hactive
    · rename_i hnew
      exact ⟨hnew, bid, hget, hactive, hdepositor, (howed bid).symm.trans hx⟩
  constructor
  · rw [List.map_append, List.nodup_append]
    refine ⟨h.nodup, h'.nodup, fun r hr r' hr' heq => ?_⟩
    obtain ⟨p, hp, rfl⟩ := List.mem_map.1 hr'
    exact (hmore p hp).1 (heq ▸ hr)
  · intro p hp
    rcases List.mem_append.1 hp with hp | hp
    · exact h.found p hp
    · exact (hmore p hp).2

/-- Before the clearing point is committed, a payout is a full refund. -/
theorem Draft.amounts_of_none {payouts : List Payout} {p : Payout} (hd : a.Draft payouts)
    (hp : p ∈ payouts) (hc : a.commitment? = none) : ∃ amount, p.amounts = .refunded amount := by
  obtain ⟨bid, -, -, -, howed⟩ := hd.found p hp
  rw [owed_of_none hc] at howed
  exact ⟨bid.amount, (Except.ok.inj howed).symm⟩

/-! ## Adding payouts up -/

/-- The sum of one part of some payouts. -/
def paidSum (f : BidAmounts → Amount) (payouts : List Payout) : Nat :=
  (payouts.map fun p => (f p.amounts).toNat).sum

@[simp] theorem paidSum_nil (f : BidAmounts → Amount) : paidSum f [] = 0 := rfl

/-- The sums over two lists of payouts add up. -/
theorem paidSum_append (f : BidAmounts → Amount) (l k : List Payout) :
    paidSum f (l ++ k) = paidSum f l + paidSum f k := by
  rw [paidSum, List.map_append, List.sum_append]
  rfl

/-- One more payout adds its part. -/
theorem paidSum_snoc (f : BidAmounts → Amount) (payouts : List Payout) (p : Payout) :
    paidSum f (payouts ++ [p]) = paidSum f payouts + (f p.amounts).toNat :=
  paidSum_append f payouts [p]

/-- Before the clearing point is committed, payouts have no scarce and no cost. -/
theorem Draft.paidSum_of_none {payouts : List Payout} (hd : a.Draft payouts)
    (hc : a.commitment? = none) :
    paidSum BidAmounts.filledScarce payouts = 0 ∧ paidSum BidAmounts.baseCost payouts = 0 := by
  constructor
  all_goals
    refine sum_map_eq_zero_iff.2 fun p hp => ?_
    obtain ⟨amount, hamounts⟩ := hd.amounts_of_none hp hc
    rw [hamounts]
    rfl

/-- The three sums of some payouts have 256 bits. -/
structure Countable (payouts : List Payout) : Prop where
  filled : paidSum BidAmounts.filledScarce payouts < Amount.modulus
  refund : paidSum BidAmounts.baseRefund payouts < Amount.modulus
  cost : paidSum BidAmounts.baseCost payouts < Amount.modulus

/-- If all sums fit, so do those of the first payouts. -/
theorem Countable.of_append {l k : List Payout} (h : Countable (l ++ k)) : Countable l := by
  obtain ⟨hf, hr, hc⟩ := h
  rw [paidSum_append] at hf hr hc
  exact ⟨by omega, by omega, by omega⟩

/-- The sums of a report are exactly those of its payouts. -/
structure Tallied (r : PayoutReport) : Prop where
  filled : r.totalFilledScarce.toNat = paidSum BidAmounts.filledScarce r.payouts
  refund : r.totalBaseRefund.toNat = paidSum BidAmounts.baseRefund r.payouts
  cost : r.totalBaseCost.toNat = paidSum BidAmounts.baseCost r.payouts

/-- The empty report is exact. -/
theorem tallied_empty : Tallied .empty := ⟨rfl, rfl, rfl⟩

section
variable {report report' : PayoutReport} {p : Payout}

/-- An added payout comes last. -/
theorem addPayout_ok (h : addPayout report p = .ok report') :
    report'.payouts = report.payouts ++ [p] := by
  unfold addPayout PayoutReport.push at h
  split at h
  · cases h
  · rename_i r hpush
    cases h
    split at hpush
    · cases hpush
    · split at hpush
      · cases hpush
      · split at hpush
        · cases hpush
        · cases hpush
          rfl

/-- A payout can be added if the sums with it fit. -/
theorem exists_addPayout (h : Tallied report) (hfits : Countable (report.payouts ++ [p])) :
    ∃ report', addPayout report p = .ok report' ∧ Tallied report' ∧
      report'.payouts = report.payouts ++ [p] := by
  obtain ⟨hf, hr, hc⟩ := hfits
  rw [paidSum_snoc] at hf hr hc
  rw [← h.filled] at hf
  rw [← h.refund] at hr
  rw [← h.cost] at hc
  obtain ⟨filled, hfilled⟩ := Amount.exists_toNat hf
  obtain ⟨refund, hrefund⟩ := Amount.exists_toNat hr
  obtain ⟨cost, hcost⟩ := Amount.exists_toNat hc
  refine ⟨⟨filled, refund, cost, report.payouts ++ [p]⟩, ?_, ⟨?_, ?_, ?_⟩, rfl⟩
  · simp only [addPayout, PayoutReport.push, Amount.add_eq_ok_iff.2 hfilled,
      Amount.add_eq_ok_iff.2 hrefund, Amount.add_eq_ok_iff.2 hcost]
  · rw [paidSum_snoc, ← h.filled]
    exact hfilled
  · rw [paidSum_snoc, ← h.refund]
    exact hrefund
  · rw [paidSum_snoc, ← h.cost]
    exact hcost

/-- Added payouts come last, in order. -/
theorem foldlM_addPayout_ok {payouts : List Payout} :
    ∀ {report report' : PayoutReport}, payouts.foldlM addPayout report = .ok report' →
      report'.payouts = report.payouts ++ payouts := by
  induction payouts with
  | nil =>
    intro report report' h
    cases h
    exact (List.append_nil _).symm
  | cons p payouts ih =>
    intro report report' h
    obtain ⟨r, hr, h⟩ := foldlM_cons_eq_ok_iff.1 h
    rw [ih h, addPayout_ok hr, List.append_assoc]
    rfl

/-- Payouts can be added if the sums with all of them fit. -/
theorem exists_foldlM_addPayout {payouts : List Payout} :
    ∀ {report : PayoutReport}, Tallied report → Countable (report.payouts ++ payouts) →
      ∃ report', payouts.foldlM addPayout report = .ok report' ∧ Tallied report' := by
  induction payouts with
  | nil => exact fun h _ => ⟨_, rfl, h⟩
  | cons p payouts ih =>
    intro report h hfits
    have hsplit : report.payouts ++ p :: payouts = report.payouts ++ [p] ++ payouts := by
      rw [List.append_assoc]
      rfl
    rw [hsplit] at hfits
    obtain ⟨r, hr, htallied, hpayouts⟩ := exists_addPayout h hfits.of_append
    obtain ⟨r', hr', htallied'⟩ := ih htallied (hpayouts.symm ▸ hfits)
    exact ⟨r', foldlM_cons_eq_ok_iff.2 ⟨r, hr, hr'⟩, htallied'⟩

end

/-! ## Refunds -/

/-- The payouts that a refund plan has drawn up for some handles. -/
structure Refunds (a : Auction L) (clearing : ClearingResult) (refs : List BidRef)
    (payouts : List Payout) : Prop where
  draft : a.Draft payouts
  refs : payouts.map Payout.bid = refs
  losing : ∀ p ∈ payouts, ∀ bid, a.book.get? p.bid = some bid → clearing.Losing bid.tick

/-- For no handles nothing is refunded. -/
theorem Refunds.nil {clearing : ClearingResult} : a.Refunds clearing [] [] :=
  ⟨.nil, rfl, fun _ hp => nomatch hp⟩

/-- One more bid that has lost. -/
theorem Refunds.snoc {clearing : ClearingResult} {done : List BidRef} {payouts : List Payout}
    {ref : BidRef} {bid : Bid} (h : a.Refunds clearing done payouts) (hnew : ref ∉ done)
    (hget : a.book.get? ref = some bid) (hactive : bid.withdrawn = false)
    (howed : a.owed bid = .ok (.refunded bid.amount)) (hlosing : clearing.Losing bid.tick) :
    a.Refunds clearing (done ++ [ref])
      (payouts ++ [⟨ref, bid.depositor, .refunded bid.amount⟩]) := by
  have hnew' : ref ∉ payouts.map Payout.bid := h.refs ▸ hnew
  refine ⟨h.draft.snoc hnew' hget hactive howed, by simp [h.refs], ?_⟩
  intro p hp bid' hget'
  rcases List.mem_append.1 hp with hp | hp
  · exact h.losing p hp bid' hget'
  · obtain rfl := List.mem_singleton.1 hp
    obtain rfl : bid = bid' := Option.some.inj (hget.symm.trans hget')
    exact hlosing

/-- A refund plan is a draft of bids that lose at the present clearing tick. -/
theorem planRefunds_ok {refs : List BidRef} {clearing : ClearingResult} {payouts : List Payout}
    (hco : a.stage.Coherent) (h : a.planRefunds refs = .ok (clearing, payouts)) :
    ∃ caps, a.stage = .bidding caps ∧ a.book.clearing caps = .ok clearing ∧
      a.Refunds clearing refs payouts := by
  obtain ⟨⟨⟩, hphase, h⟩ := bind_eq_ok_iff.1 h
  obtain ⟨clearing', hclearing, h⟩ := bind_eq_ok_iff.1 h
  obtain ⟨payouts', hvisit, h⟩ := bind_eq_ok_iff.1 h
  cases h
  obtain ⟨caps, hstage⟩ := hco.phase_eq_bidding_iff.1 (requirePhase_eq_ok_iff.1 hphase)
  obtain ⟨caps', hcaps, hbook⟩ := clearing_eq_ok_iff.1 hclearing
  obtain rfl : caps' = caps := Option.some.inj (hcaps.symm.trans (caps?_of_bidding hstage))
  have hnone := commitment?_of_bidding hstage
  refine ⟨caps', hstage, hbook, Book.visit_invariant
    (P := fun done payouts => a.Refunds clearing done payouts) ?_ .nil hvisit⟩
  intro done payouts ref bid payouts' hnew hget hactive hr hinv
  unfold refundBid at hr
  split at hr
  · rename_i hlosing
    cases hr
    exact hinv.snoc hnew hget hactive (owed_of_none hnone bid) hlosing
  · cases hr

/-! ## Settlements -/

/-- A payout can be recorded if both sums with it fit. -/
theorem exists_record {t : PayoutTotals} {x : BidAmounts}
    (hs : t.scarceDistributed.toNat + x.filledScarce.toNat < Amount.modulus)
    (hb : t.baseRetained.toNat + x.baseCost.toNat < Amount.modulus) :
    ∃ t', t.record x = (.ok (), t') := by
  obtain ⟨scarce, hscarce⟩ := Amount.exists_toNat hs
  obtain ⟨base, hbase⟩ := Amount.exists_toNat hb
  refine ⟨⟨scarce, base⟩, ?_⟩
  simp only [PayoutTotals.record, Amount.add_eq_ok_iff.2 hscarce, Amount.add_eq_ok_iff.2 hbase]

/-- Recording a payout adds to both sums exactly. -/
theorem record_ok {t t' : PayoutTotals} {x : BidAmounts} (h : t.record x = (.ok (), t')) :
    t'.scarceDistributed.toNat = t.scarceDistributed.toNat + x.filledScarce.toNat ∧
      t'.baseRetained.toNat = t.baseRetained.toNat + x.baseCost.toNat := by
  unfold PayoutTotals.record at h
  split at h
  · cases h
  · rename_i s hs
    split at h
    · cases h
    · rename_i b hb
      cases h
      exact ⟨Amount.add_eq_ok_iff.1 hs, Amount.add_eq_ok_iff.1 hb⟩

/-- A payment of one bid pays its owner what it is owed, and adds that to the report and to the
totals. -/
theorem payBid_ok {c : Commitment} {owner : Account} {s s' : PayoutReport × PayoutTotals}
    {ref : BidRef} {bid : Bid} (h : payBid c owner s ref bid = .ok s') :
    bid.depositor = owner ∧ ∃ x, c.amountsFor bid = .ok x ∧
      s'.1.payouts = s.1.payouts ++ [⟨ref, bid.depositor, x⟩] ∧
      s'.2.scarceDistributed.toNat = s.2.scarceDistributed.toNat + x.filledScarce.toNat ∧
      s'.2.baseRetained.toNat = s.2.baseRetained.toNat + x.baseCost.toNat := by
  unfold payBid at h
  split at h
  · cases h
  · rename_i howner
    obtain ⟨x, hx, h⟩ := bind_eq_ok_iff.1 h
    simp only at h
    split at h
    · cases h
    · rename_i t ht
      obtain ⟨t', ht', h⟩ := bind_eq_ok_iff.1 h
      cases ht'
      obtain ⟨r, hr, h⟩ := bind_eq_ok_iff.1 h
      cases h
      exact ⟨not_not.1 howner, x, mapError_eq_ok_iff.1 hx, addPayout_ok hr, record_ok ht⟩

/-- The payouts that a settlement plan has drawn up for some handles, and the totals they lead
to. -/
structure Settles (a : Auction L) (owner : Account) (paid : PayoutTotals) (refs : List BidRef)
    (payouts : List Payout) (paid' : PayoutTotals) : Prop where
  draft : a.Draft payouts
  refs : payouts.map Payout.bid = refs
  owner : ∀ p ∈ payouts, p.depositor = owner
  scarce : paid'.scarceDistributed.toNat =
    paid.scarceDistributed.toNat + paidSum BidAmounts.filledScarce payouts
  base : paid'.baseRetained.toNat =
    paid.baseRetained.toNat + paidSum BidAmounts.baseCost payouts

/-- For no handles nothing is paid. -/
theorem Settles.nil {owner : Account} {paid : PayoutTotals} : a.Settles owner paid [] [] paid :=
  ⟨.nil, rfl, fun _ hp => (nomatch hp), rfl, rfl⟩

/-- One more bid that is paid. -/
theorem Settles.payBid {owner : Account} {paid : PayoutTotals} {c : Commitment}
    {done : List BidRef} {s s' : PayoutReport × PayoutTotals} {ref : BidRef} {bid : Bid}
    (h : a.Settles owner paid done s.1.payouts s.2) (hc : a.commitment? = some c)
    (hnew : ref ∉ done) (hget : a.book.get? ref = some bid) (hactive : bid.withdrawn = false)
    (hs : Auction.payBid c owner s ref bid = .ok s') :
    a.Settles owner paid (done ++ [ref]) s'.1.payouts s'.2 := by
  obtain ⟨rfl, x, hx, hpayouts, hscarce, hbase⟩ := payBid_ok hs
  have hnew' : ref ∉ s.1.payouts.map Payout.bid := h.refs ▸ hnew
  rw [hpayouts]
  refine ⟨h.draft.snoc hnew' hget hactive ((owed_of_some hc bid).trans hx), by simp [h.refs],
    ?_, ?_, ?_⟩
  · intro p hp
    rcases List.mem_append.1 hp with hp | hp
    · exact h.owner p hp
    · rw [List.mem_singleton.1 hp]
  · rw [paidSum_snoc, hscarce, h.scarce, Nat.add_assoc]
  · rw [paidSum_snoc, hbase, h.base, Nat.add_assoc]

/-- After the end of bidding a settlement is planned by its handles alone. -/
theorem planSettlement_of_finalized {caps : Caps} {c : Commitment} {paid : PayoutTotals}
    (hs : a.stage = .finalized caps c paid) (owner : Account) (refs : List BidRef) :
    a.planSettlement owner refs = a.book.visit (payBid c owner) [] (.empty, paid) refs := by
  have hphase : a.phase = .finalized := by rw [phase, hs]; rfl
  have htotals : a.totals? = some paid := by rw [totals?, hs]; rfl
  rw [planSettlement, requirePhase_eq_ok_iff.2 hphase, requireCommitment,
    require_eq_ok_iff.2 (commitment?_of_finalized hs), requireTotals,
    require_eq_ok_iff.2 htotals]
  rfl

/-- A settlement plan is a draft of bids of the account. -/
theorem planSettlement_ok {owner : Account} {refs : List BidRef} {report : PayoutReport}
    {paid' : PayoutTotals} (hco : a.stage.Coherent)
    (h : a.planSettlement owner refs = .ok (report, paid')) :
    ∃ caps c paid, a.stage = .finalized caps c paid ∧
      a.Settles owner paid refs report.payouts paid' := by
  obtain ⟨⟨⟩, hphase, -⟩ := bind_eq_ok_iff.1 h
  obtain ⟨caps, c, paid, hstage⟩ :=
    hco.phase_eq_finalized_iff.1 (requirePhase_eq_ok_iff.1 hphase)
  rw [planSettlement_of_finalized hstage] at h
  refine ⟨caps, c, paid, hstage, Book.visit_invariant
    (P := fun done s => a.Settles owner paid done s.1.payouts s.2) ?_ .nil h⟩
  intro done s ref bid s' hnew hget hactive hs hinv
  exact hinv.payBid (commitment?_of_finalized hstage) hnew hget hactive hs

end Auction

/-! ## Faults

A plan is refused for the phase, for a record that is missing, or for a fault of what it looks at,
in this order.
-/

namespace AuctionError

/-- The auction itself refuses, and not the ledger. -/
def Own : AuctionError → Prop
  | .ledger _ => False
  | _ => True

/-- Neither the ledger stands in the way nor the phase. -/
def Plain : AuctionError → Prop
  | .ledger _ => False
  | .invalidState .. => False
  | _ => True

variable {e : AuctionError}

/-- Such a refusal is the auction's own. -/
theorem Plain.own (h : e.Plain) : e.Own := by
  cases e with
  | ledger => exact h
  | _ => exact trivial

/-- The arithmetic of prices is neither. -/
theorem plain_ofPricing (e : PricingError) : (ofPricing e).Plain := by
  cases e <;> exact trivial

/-- And neither is the book. -/
theorem plain_ofBook (e : BookError) : (ofBook e).Plain := by
  cases e <;> exact trivial

end AuctionError

namespace Auction

open AuctionError (Plain plain_ofPricing)

variable {L : Type} {a : Auction L} {e : AuctionError}

/-- A payout is refused by the arithmetic only. -/
theorem addPayout_error {report : PayoutReport} {p : Payout} (h : addPayout report p = .error e) :
    e.Plain := by
  unfold addPayout at h
  split at h
  · cases h
    exact trivial
  · cases h

/-- A refund of one bid is refused for that bid. -/
theorem refundBid_error {clearing : ClearingResult} {payouts : List Payout} {ref : BidRef}
    {bid : Bid} (h : refundBid clearing payouts ref bid = .error e) : e.Plain := by
  unfold refundBid at h
  split at h
  · cases h
  · cases h
    exact trivial

/-- A payment of one bid is refused for that bid, or by the arithmetic. -/
theorem payBid_error {c : Commitment} {owner : Account} {s : PayoutReport × PayoutTotals}
    {ref : BidRef} {bid : Bid} (h : payBid c owner s ref bid = .error e) : e.Plain := by
  unfold payBid at h
  split at h
  · cases h
    exact trivial
  · rcases bind_eq_error_iff.1 h with h | ⟨x, -, h⟩
    · obtain ⟨e', -, rfl⟩ := mapError_eq_error_iff.1 h
      exact plain_ofPricing e'
    · simp only at h
      split at h
      · cases h
        exact trivial
      · rcases bind_eq_error_iff.1 h with h | ⟨t, -, h⟩
        · cases h
        · rcases bind_eq_error_iff.1 h with h | ⟨r, -, h⟩
          · exact addPayout_error h
          · cases h

/-- Why there is no clearing result. -/
theorem clearing_error_cases (h : a.clearing = .error e) :
    (a.caps? = none ∧ e = a.refuse .computeClearing .notStarted) ∨ e.Plain := by
  rcases bind_eq_error_iff.1 h with h | ⟨caps, -, h⟩
  · exact .inl (require_eq_error_iff.1 h)
  · obtain ⟨e', -, rfl⟩ := mapError_eq_error_iff.1 h
    exact .inr (plain_ofPricing e')

/-- Why a refund cannot be planned. -/
theorem planRefunds_error_cases {refs : List BidRef} (h : a.planRefunds refs = .error e) :
    (a.phase ≠ .bidding ∧ e = a.refuse .refund .notOpen) ∨
      (a.phase = .bidding ∧ a.caps? = none ∧ e = a.refuse .computeClearing .notStarted) ∨
      e.Plain := by
  rcases bind_eq_error_iff.1 h with h | ⟨⟨⟩, hphase, h⟩
  · exact .inl (requirePhase_eq_error_iff.1 h)
  · rcases bind_eq_error_iff.1 h with h | ⟨clearing, -, h⟩
    · exact .inr ((clearing_error_cases h).imp_left
        fun hcaps => ⟨requirePhase_eq_ok_iff.1 hphase, hcaps⟩)
    · rcases bind_eq_error_iff.1 h with h | ⟨payouts, -, h⟩
      · exact .inr (.inr (Book.visit_error (fun _ => trivial) (fun _ => trivial)
          (fun _ => trivial) (fun _ _ _ _ h => refundBid_error h) h))
      · cases h

/-- Why a settlement cannot be planned. -/
theorem planSettlement_error_cases {owner : Account} {refs : List BidRef}
    (h : a.planSettlement owner refs = .error e) :
    (a.phase ≠ .finalized ∧ e = a.refuse .settle .notFinalized) ∨
      (a.phase = .finalized ∧ a.commitment? = none ∧ e = a.refuse .settle .notFinalized) ∨
      (a.phase = .finalized ∧ a.totals? = none ∧ e = a.refuse .settle .totalsMissing) ∨
      e.Plain := by
  rcases bind_eq_error_iff.1 h with h | ⟨⟨⟩, hphase, h⟩
  · exact .inl (requirePhase_eq_error_iff.1 h)
  · have hp := requirePhase_eq_ok_iff.1 hphase
    rcases bind_eq_error_iff.1 h with h | ⟨c, -, h⟩
    · exact .inr (.inl ⟨hp, require_eq_error_iff.1 h⟩)
    · rcases bind_eq_error_iff.1 h with h | ⟨paid, -, h⟩
      · exact .inr (.inr (.inl ⟨hp, require_eq_error_iff.1 h⟩))
      · exact .inr (.inr (.inr (Book.visit_error (fun _ => trivial) (fun _ => trivial)
          (fun _ => trivial) (fun _ _ _ _ h => payBid_error h) h)))

/-- A refund plan is never refused by the ledger. -/
theorem planRefunds_error {refs : List BidRef} (h : a.planRefunds refs = .error e) : e.Own := by
  rcases planRefunds_error_cases h with ⟨-, rfl⟩ | ⟨-, -, rfl⟩ | hplain
  · exact trivial
  · exact trivial
  · exact hplain.own

/-- A settlement plan is never refused by the ledger. -/
theorem planSettlement_error {owner : Account} {refs : List BidRef}
    (h : a.planSettlement owner refs = .error e) : e.Own := by
  rcases planSettlement_error_cases h with ⟨-, rfl⟩ | ⟨-, -, rfl⟩ | ⟨-, -, rfl⟩ | hplain
  · exact trivial
  · exact trivial
  · exact trivial
  · exact hplain.own

end Auction

end BatchAuction
