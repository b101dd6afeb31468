import BatchAuction.Proofs.Amount.Result
import BatchAuction.Proofs.Book.Bids

/-!
# Closing several bids

A batch closes the bids of a list of handles; the other handles find what they found before
(`Book.get?_closeAll`). If the handles find active bids and none occurs twice
(`Book.Open`), each is still found when its turn comes. So every sum over the closed bids grows by
what the batch stands for (`Book.withdrawnSum_closeAll`), and everything about the bids that the
flag does not matter to stays as it is (`Book.map_bids_closeAll`).
-/

namespace BatchAuction

/-- Adding up amounts does not wrap around if their sum fits. -/
theorem Amount.toNat_foldl_addMod {l : List Amount} :
    ∀ {t : Amount}, t.toNat + (l.map toNat).sum < modulus →
      (l.foldl addMod t).toNat = t.toNat + (l.map toNat).sum := by
  induction l with
  | nil => exact fun _ => rfl
  | cons x l ih =>
    intro t ht
    simp only [List.map_cons, List.sum_cons] at ht ⊢
    have hadd : (t.addMod x).toNat = t.toNat + x.toNat := toNat_ofNat_of_lt (by omega)
    rw [List.foldl_cons, ih (by omega), hadd, Nat.add_assoc]

namespace Book

/-- Closes the bids of some handles. -/
def closeAll (b : Book) (refs : List BidRef) : Book := refs.foldl Book.close b

/-- The sum over the closed bids. -/
def withdrawnSum (b : Book) (f : Bid → Nat) : Nat := ((b.bids.filter Bid.withdrawn).map f).sum

/-- The sum over the active bids. -/
def activeSum (b : Book) (f : Bid → Nat) : Nat := (b.activeBids.map f).sum

/-- Every bid is active or closed. -/
theorem perm_active_withdrawn (b : Book) :
    b.bids.Perm (b.activeBids ++ b.bids.filter Bid.withdrawn) := by
  have h := (List.filter_append_perm Bid.isActive b.bids).symm
  have hneg : (fun bid : Bid => !bid.isActive) = Bid.withdrawn := by
    funext bid
    exact Bool.not_not bid.withdrawn
  rwa [hneg] at h

/-- All bids are active or closed. -/
theorem sum_bids (b : Book) (f : Bid → Nat) :
    (b.bids.map f).sum = b.activeSum f + b.withdrawnSum f := by
  rw [(b.perm_active_withdrawn.map f).sum_eq, List.map_append, List.sum_append]
  rfl

section
variable {b b' : Book} {bid : Bid} {f g : Bid → Nat}

/-- A sum over closed bids looks at closed bids only. -/
theorem withdrawnSum_congr (h : ∀ bid ∈ b.bids, bid.withdrawn = true → f bid = g bid) :
    b.withdrawnSum f = b.withdrawnSum g := by
  refine congrArg List.sum (List.map_congr_left fun bid hbid => ?_)
  obtain ⟨hmem, hw⟩ := List.mem_filter.1 hbid
  exact h bid hmem hw

/-- And it grows with what each of them counts for. -/
theorem withdrawnSum_mono (h : ∀ bid ∈ b.bids, bid.withdrawn = true → f bid ≤ g bid) :
    b.withdrawnSum f ≤ b.withdrawnSum g := by
  refine List.sum_le_sum fun bid hbid => ?_
  obtain ⟨hmem, hw⟩ := List.mem_filter.1 hbid
  exact h bid hmem hw

/-- The sum of the active amounts is exact if it fits. -/
theorem toNat_activeEscrow (h : b.activeSum (fun bid => bid.amount.toNat) < Amount.modulus) :
    b.activeEscrow.toNat = b.activeSum fun bid => bid.amount.toNat := by
  have hmap : ((b.activeBids.map Bid.amount).map Amount.toNat).sum =
      b.activeSum fun bid => bid.amount.toNat := by
    rw [List.map_map]
    rfl
  have hfits : (0 : Amount).toNat + ((b.activeBids.map Bid.amount).map Amount.toNat).sum <
      Amount.modulus := by
    rwa [hmap, Amount.toNat_zero, Nat.zero_add]
  unfold activeEscrow Bid.totalAmount Amount.sumMod
  rw [Amount.toNat_foldl_addMod hfits, hmap, Amount.toNat_zero, Nat.zero_add]

/-- A bid that is added active adds to the sum over the active bids. -/
theorem activeSum_of_perm (hp : b'.bids.Perm (bid :: b.bids)) (hw : bid.withdrawn = false)
    (f : Bid → Nat) : b'.activeSum f = f bid + b.activeSum f := by
  have hactive : bid.isActive = true := by rw [Bid.isActive, hw]; rfl
  have hfilter := (hp.filter Bid.isActive).map f
  rw [List.filter_cons_of_pos hactive] at hfilter
  exact hfilter.sum_eq

/-- It adds nothing to the sum over the closed bids. -/
theorem withdrawnSum_of_perm (hp : b'.bids.Perm (bid :: b.bids)) (hw : bid.withdrawn = false)
    (f : Bid → Nat) : b'.withdrawnSum f = b.withdrawnSum f := by
  have hfilter := (hp.filter Bid.withdrawn).map f
  rw [List.filter_cons_of_neg (Bool.eq_false_iff.1 hw)] at hfilter
  exact hfilter.sum_eq

end

/-- Closing two lists of bids is closing the one and then the other. -/
theorem closeAll_append (b : Book) (refs more : List BidRef) :
    b.closeAll (refs ++ more) = (b.closeAll refs).closeAll more := List.foldl_append

/-- The handles that were closed find their bids closed, and the others what they found before. -/
theorem get?_closeAll (r : BidRef) {refs : List BidRef} :
    ∀ {b : Book}, (b.closeAll refs).get? r =
      if r ∈ refs then (b.get? r).map Bid.close else b.get? r := by
  induction refs with
  | nil => exact rfl
  | cons ref refs ih =>
    intro b
    have hstep : b.closeAll (ref :: refs) = (b.close ref).closeAll refs := rfl
    rw [hstep, ih, get?_close]
    by_cases href : ref = r
    · rw [if_pos href, if_pos (List.mem_cons.2 (.inl href.symm)), href]
      -- a bid that is closed twice is as if it were closed once
      split
      · rw [Option.map_map]
        rfl
      · rfl
    · simp only [List.mem_cons, if_neg href, Ne.symm href, false_or]

/-- Closing some bids keeps every bid under its handle. -/
theorem Indexed.closeAll {refs : List BidRef} :
    ∀ {b : Book}, b.Indexed → (b.closeAll refs).Indexed := by
  induction refs with
  | nil => exact fun h => h
  | cons ref refs ih => exact fun h => ih (h.close ref)

section
variable {ι : Type} {b : Book} {ref : ι → BidRef} {l : List ι}

/-- The handles find active bids, and none of them occurs twice. -/
structure Open (b : Book) (ref : ι → BidRef) (l : List ι) : Prop where
  nodup : (l.map ref).Nodup
  found : ∀ i ∈ l, ∃ bid, b.get? (ref i) = some bid ∧ bid.withdrawn = false

/-- After one of them has been closed, the others find what they found before. -/
theorem Open.get?_close {i : ι} (h : b.Open ref (i :: l)) {j : ι} (hj : j ∈ l) :
    (b.close (ref i)).get? (ref j) = b.get? (ref j) := by
  rw [Book.get?_close, if_neg]
  intro heq
  have hnot := (List.nodup_cons.1 h.nodup).1
  exact hnot (heq ▸ List.mem_map_of_mem hj)

/-- An active bid can be withdrawn, which closes it. -/
theorem withdraw_of_active {r : BidRef} {bid : Bid} (h : b.get? r = some bid)
    (hactive : bid.withdrawn = false) : b.withdraw r = .ok (bid.close, b.close r) := by
  rw [withdraw, h]
  exact if_neg (Bool.eq_false_iff.1 hactive)

/-- After the first bid is closed, the others are still active. -/
theorem Open.tail {i : ι} (h : b.Open ref (i :: l)) : (b.close (ref i)).Open ref l := by
  refine ⟨(List.nodup_cons.1 h.nodup).2, fun j hj => ?_⟩
  rw [h.get?_close hj]
  exact h.found j (List.mem_cons_of_mem _ hj)

/-- What does not depend on the flag stays as it is, in the order of the bids. -/
theorem map_bids_closeAll {α : Type} (f : Bid → α) (hf : ∀ bid : Bid, f bid.close = f bid) :
    ∀ {b : Book}, b.Open ref l → (b.closeAll (l.map ref)).bids.map f = b.bids.map f := by
  induction l with
  | nil => exact fun _ => rfl
  | cons i l ih =>
    intro b h
    obtain ⟨bid, hget, -⟩ := h.found i List.mem_cons_self
    obtain ⟨u, v, hbids, hclose⟩ := bids_close hget
    refine (ih h.tail).trans ?_
    rw [hclose, hbids]
    simp [hf]

/-- Closing moves what the bids stand for into the sum over the closed ones. -/
theorem withdrawnSum_closeAll {f : Bid → Nat} (hf : ∀ bid : Bid, f bid.close = f bid)
    {g : ι → Nat} :
    ∀ {b : Book}, b.Open ref l → (∀ i ∈ l, ∀ bid, b.get? (ref i) = some bid → f bid = g i) →
      (b.closeAll (l.map ref)).withdrawnSum f = b.withdrawnSum f + (l.map g).sum := by
  induction l with
  | nil => exact fun _ _ => rfl
  | cons i l ih =>
    intro b h hg
    obtain ⟨bid, hget, hactive⟩ := h.found i List.mem_cons_self
    obtain ⟨u, v, hbids, hclose⟩ := bids_close hget
    have hhead : (b.close (ref i)).withdrawnSum f = b.withdrawnSum f + g i := by
      rw [withdrawnSum, withdrawnSum, hclose, hbids, ← hg i List.mem_cons_self bid hget, ← hf bid]
      simp only [List.filter_append, List.filter_cons, hactive, Bid.close, Bool.false_eq_true,
        if_true, if_false, List.map_append, List.map_cons, List.sum_append, List.sum_cons]
      omega
    have hrest := ih h.tail fun j hj bid' hbid' =>
      hg j (List.mem_cons_of_mem _ hj) bid' (by rwa [h.get?_close hj] at hbid')
    have hstep : b.closeAll ((i :: l).map ref) = (b.close (ref i)).closeAll (l.map ref) := rfl
    rw [hstep, hrest, hhead, List.map_cons, List.sum_cons, Nat.add_assoc]

/-- A bid after closing is one from before or one that was closed. -/
theorem mem_bids_closeAll :
    ∀ {b : Book}, b.Open ref l → ∀ {bid : Bid}, bid ∈ (b.closeAll (l.map ref)).bids →
      bid ∈ b.bids ∨ ∃ i ∈ l, ∃ old, b.get? (ref i) = some old ∧ bid = old.close := by
  induction l with
  | nil => exact fun _ _ hb => .inl hb
  | cons i l ih =>
    intro b h bid hb
    obtain ⟨old, hget, -⟩ := h.found i List.mem_cons_self
    obtain ⟨u, v, hbids, hclose⟩ := bids_close hget
    rcases ih h.tail hb with hb | ⟨j, hj, old', hold', rfl⟩
    · rw [hclose, List.mem_append, List.mem_cons] at hb
      rcases hb with hb | rfl | hb
      · exact .inl (by rw [hbids]; exact List.mem_append_left _ hb)
      · exact .inr ⟨i, List.mem_cons_self, old, hget, rfl⟩
      · exact .inl (by rw [hbids]; exact List.mem_append_right _ (List.mem_cons_of_mem _ hb))
    · rw [h.get?_close hj] at hold'
      exact .inr ⟨j, List.mem_cons_of_mem _ hj, old', hold', rfl⟩

/-- A bid that is closed already stays as it is. -/
theorem mem_closeAll_of_withdrawn {bid : Bid} (hw : bid.withdrawn = true) :
    ∀ {b : Book}, b.Open ref l → bid ∈ b.bids → bid ∈ (b.closeAll (l.map ref)).bids := by
  induction l with
  | nil => exact fun _ hb => hb
  | cons i l ih =>
    intro b h hb
    obtain ⟨old, hget, hactive⟩ := h.found i List.mem_cons_self
    obtain ⟨u, v, hbids, hclose⟩ := bids_close hget
    refine ih h.tail ?_
    rw [hbids, List.mem_append, List.mem_cons] at hb
    rw [hclose, List.mem_append, List.mem_cons]
    rcases hb with hb | rfl | hb
    · exact .inl hb
    · exact nomatch hactive.symm.trans hw
    · exact .inr (.inr hb)

/-- If the handles of all active bids are closed, all bids are closed. -/
theorem bids_closeAll_of_all (h : b.Open ref l)
    (hall : ∀ r bid, b.get? r = some bid → bid.withdrawn = false → r ∈ l.map ref) :
    (b.closeAll (l.map ref)).bids = b.bids.map Bid.close := by
  have hclosed : ∀ bid ∈ (b.closeAll (l.map ref)).bids, bid.close = bid := by
    intro bid hbid
    obtain ⟨r, hget⟩ := mem_bids.1 hbid
    rw [get?_closeAll] at hget
    split at hget
    · obtain ⟨old, -, rfl⟩ := Option.map_eq_some_iff.1 hget
      rfl
    · rename_i hr
      exact Bid.close_of_withdrawn
        (Bool.of_not_eq_false fun hactive => hr (hall r bid hget hactive))
  have hsame : (b.closeAll (l.map ref)).bids.map Bid.close = (b.closeAll (l.map ref)).bids :=
    (List.map_congr_left hclosed).trans (List.map_id' _)
  rw [← hsame]
  exact map_bids_closeAll Bid.close (fun _ => rfl) h

/-- The bid of a handle is in the book after closing, closed. -/
theorem close_mem_closeAll {i : ι} {bid : Bid} :
    ∀ {b : Book}, b.Open ref l → i ∈ l → b.get? (ref i) = some bid →
      bid.close ∈ (b.closeAll (l.map ref)).bids := by
  induction l with
  | nil => exact fun _ hi => nomatch hi
  | cons j l ih =>
    intro b h hi hget
    rcases List.mem_cons.1 hi with rfl | hi
    · obtain ⟨u, v, -, hclose⟩ := bids_close hget
      have hmem : bid.close ∈ (b.close (ref i)).bids := by
        rw [hclose]
        exact List.mem_append_right _ List.mem_cons_self
      show bid.close ∈ ((b.close (ref i)).closeAll (l.map ref)).bids
      exact mem_closeAll_of_withdrawn rfl h.tail hmem
    · refine ih h.tail hi ?_
      rwa [h.get?_close hi]

end

end Book

end BatchAuction
