import BatchAuction.Proofs.Clearing.Commitment
import BatchAuction.Proofs.Tick.Power

/-!
# Clearing a bounded book is certain

Offers at legal ticks whose sums are amounts can be scanned (`Offer.Fits`,
`Book.Placed.exists_scan`): no sum on the way exceeds that of all of them.

An accepted offer (`Offer.Accepted`) has a price and an amount within `Amount.maxTotal`. If all
offers are accepted and their sums are within `Amount.maxTotal` as well (`Offer.Bounded`), no step
of clearing is refused by the arithmetic: neither the scan nor the fill of the clearing bucket nor
the split of the upside. So such a book has a commitment as soon as it has an active bid
(`Book.exists_commitment`).

The bound is on demand at the offers' own ticks. At the clearing price, which may be lower, demand
is only known to be below the sum of the amounts times the scale, and that has fewer than 256 bits.
-/

namespace BatchAuction

open Offer (level)

/-! ## Bounded offers -/

namespace Offer

/-- What is asked of an offer before its payout is certain: its tick has a price, and its amount is
one that an auction accepts. -/
structure Accepted (o : Offer) : Prop where
  price : ∃ p, o.tick.price = .ok p
  amount : o.amount ≤ Amount.maxTotal

/-- Accepted offers whose sums are within the largest total. -/
structure Bounded (offers : List Offer) : Prop where
  accepted : ∀ o ∈ offers, o.Accepted
  base : (offers.map Offer.base).sum ≤ Amount.maxTotal.toNat
  demand : (offers.map Offer.demand).sum ≤ Amount.maxTotal.toNat

/-- Offers at legal ticks whose sums are amounts. -/
structure Fits (offers : List Offer) : Prop where
  legal : ∀ o ∈ offers, o.tick.Legal
  base : (offers.map Offer.base).sum < Amount.modulus
  demand : (offers.map Offer.demand).sum < Amount.modulus

variable {offers offers' : List Offer} {o : Offer} {p own : Price}

/-- A part of offers that fit fits. -/
theorem Fits.of_sublist (h : Fits offers') (hs : offers.Sublist offers') : Fits offers :=
  ⟨fun o ho => h.legal o (hs.subset ho), Nat.lt_of_le_of_lt (sum_le_of_sublist _ hs) h.base,
    Nat.lt_of_le_of_lt (sum_le_of_sublist _ hs) h.demand⟩

/-- Whether offers fit does not depend on their order. -/
theorem Fits.of_perm (h : Fits offers') (hp : offers.Perm offers') : Fits offers :=
  ⟨fun o ho => h.legal o (hp.mem_iff.1 ho),
    Nat.lt_of_le_of_lt (Nat.le_of_eq (hp.map Offer.base).sum_eq) h.base,
    Nat.lt_of_le_of_lt (Nat.le_of_eq (hp.map Offer.demand).sum_eq) h.demand⟩

/-- The first part of offers that fit fits. -/
theorem Fits.left (h : Fits (offers ++ offers')) : Fits offers :=
  h.of_sublist (List.sublist_append_left _ _)

/-- And so does the second part. -/
theorem Fits.right (h : Fits (offers ++ offers')) : Fits offers' :=
  h.of_sublist (List.sublist_append_right _ _)

/-- Bounded offers fit, as the largest total is an amount. -/
theorem Bounded.fits (h : Bounded offers) : Fits offers := by
  refine ⟨fun o ho => ?_, ?_, ?_⟩
  · obtain ⟨p, hp⟩ := (h.accepted o ho).price
    exact (Tick.price_eq_ok_iff.1 hp).1
  · exact Nat.lt_of_le_of_lt h.base Amount.maxTotal.isLt
  · exact Nat.lt_of_le_of_lt h.demand Amount.maxTotal.isLt

/-- A part of bounded offers is bounded. -/
theorem Bounded.of_sublist (h : Bounded offers') (hs : offers.Sublist offers') : Bounded offers :=
  ⟨fun o ho => h.accepted o (hs.subset ho), Nat.le_trans (sum_le_of_sublist _ hs) h.base,
    Nat.le_trans (sum_le_of_sublist _ hs) h.demand⟩

/-- Whether offers are bounded does not depend on their order. -/
theorem Bounded.of_perm (h : Bounded offers) (hp : offers.Perm offers') : Bounded offers' :=
  ⟨fun o ho => h.accepted o (hp.mem_iff.2 ho),
    Nat.le_trans (Nat.le_of_eq (hp.symm.map Offer.base).sum_eq) h.base,
    Nat.le_trans (Nat.le_of_eq (hp.symm.map Offer.demand).sum_eq) h.demand⟩

/-- The first part of bounded offers is bounded. -/
theorem Bounded.left (h : Bounded (offers ++ offers')) : Bounded offers :=
  h.of_sublist (List.sublist_append_left _ _)

/-- And so is the second part. -/
theorem Bounded.right (h : Bounded (offers ++ offers')) : Bounded offers' :=
  h.of_sublist (List.sublist_append_right _ _)

/-- At any price an amount buys less than its own units of the scale. -/
theorem demandAt_le (o : Offer) (p : Price) : o.demandAt p ≤ o.base * Amount.scale.toNat :=
  Nat.div_le_self _ _

/-- The largest bid buys less than this at any price. -/
theorem demandAt_lt (h : o.amount ≤ Amount.maxTotal) (p : Price) : o.demandAt p < 2 ^ 188 := by
  have hle := o.demandAt_le p
  have hmul : o.base * Amount.scale.toNat ≤ Amount.maxTotal.toNat * Amount.scale.toNat :=
    Nat.mul_le_mul_right _ h
  have hconst : Amount.maxTotal.toNat * Amount.scale.toNat < 2 ^ 188 := by decide
  omega

/-- What an accepted amount buys at a price is certain. -/
theorem exists_scarceAt (hp : 0 < p.raw.toNat) (hmax : o.amount ≤ Amount.maxTotal) :
    ∃ d, o.amount.scarceAt p = .ok d ∧ d.toNat = o.demandAt p := by
  have hbound := demandAt_lt hmax p
  have hmod : 2 ^ 188 < Amount.modulus := by decide
  obtain ⟨d, hd⟩ := Amount.exists_toNat (show o.demandAt p < Amount.modulus by omega)
  exact ⟨d, Amount.scarceAt_eq_ok_iff.2 ⟨hp, hd⟩, hd⟩

/-- And so is what it buys beyond its own demand. -/
theorem exists_upside (hp : 0 < p.raw.toNat) (hown : o.tick.price = .ok own)
    (hmax : o.amount ≤ Amount.maxTotal) : ∃ u, o.amount.upside own p = .ok u := by
  obtain ⟨d, hatOwn, -⟩ := exists_scarceAt (Tick.price_raw_pos hown) hmax
  obtain ⟨e, hatClearing, -⟩ := exists_scarceAt hp hmax
  simp only [Amount.upside, bind_eq_ok_iff, pure_eq_ok_iff]
  exact ⟨e - d, e, hatClearing, d, hatOwn, rfl⟩

/-- The upside of bounded offers together fits. -/
theorem Bounded.sum_upside_lt (h : Bounded offers) (p : Price) :
    (offers.map (upside p)).sum < Amount.modulus := by
  have hscaled :
      (offers.map (upside p)).sum ≤ (offers.map Offer.base).sum * Amount.scale.toNat := by
    rw [← List.sum_map_mul_right]
    exact List.sum_le_sum fun o _ => Nat.le_trans (Nat.sub_le _ _) (o.demandAt_le p)
  have hmul := Nat.mul_le_mul_right Amount.scale.toNat h.base
  have hconst : Amount.maxTotal.toNat * Amount.scale.toNat < Amount.modulus := by decide
  omega

end Offer

open Offer (Bounded Fits)

/-! ## Totals -/

namespace Totals

variable {t u : Totals} {offers : List Offer} {amount : Amount} {p : Price}

/-- Totals within the largest one. -/
structure Within (t : Totals) : Prop where
  base : t.base ≤ Amount.maxTotal
  scarce : t.scarce ≤ Amount.maxTotal

/-- The sums of bounded offers are within the largest total. -/
theorem Sums.within (h : t.Sums offers) (hb : Bounded offers) : t.Within :=
  ⟨Nat.le_trans (Nat.le_of_eq h.base) hb.base, Nat.le_trans (Nat.le_of_eq h.scarce) hb.demand⟩

/-- One more bid can be added, before it is known whether the totals with it are within the largest
one. -/
theorem Within.exists_addBid (h : t.Within) (hp : 0 < p.raw.toNat)
    (hmax : amount ≤ Amount.maxTotal) : ∃ u, t.addBid amount p = .ok u := by
  obtain ⟨hb, hs⟩ := h
  have hmod : Amount.maxTotal.toNat + Amount.maxTotal.toNat < Amount.modulus := by decide
  have hmod' : Amount.maxTotal.toNat + 2 ^ 188 < Amount.modulus := by decide
  obtain ⟨d, hd, hdemand⟩ := Offer.exists_scarceAt (o := ⟨.zero, amount⟩) hp hmax
  have hlt := Offer.demandAt_lt (o := ⟨.zero, amount⟩) hmax p
  rw [Amount.le_iff] at hb hs hmax
  obtain ⟨b, hb⟩ := Amount.exists_toNat
    (show t.base.toNat + amount.toNat < Amount.modulus by omega)
  obtain ⟨s, hs⟩ := Amount.exists_toNat
    (show t.scarce.toNat + d.toNat < Amount.modulus by omega)
  simp only [addBid, bind_eq_ok_iff, pure_eq_ok_iff, Amount.add_eq_ok_iff]
  exact ⟨⟨b, s⟩, b, hb, d, hd, s, hs, rfl⟩

/-- An offer can be added if the sums with it fit. -/
theorem Sums.exists_addBid {o : Offer} (h : t.Sums offers) (hp : o.tick.price = .ok p)
    (hf : Fits (offers ++ [o])) : ∃ u, t.addBid o.amount p = .ok u := by
  have hbase := hf.base
  have hdemand := hf.demand
  simp only [List.map_append, List.sum_append, List.map_cons, List.map_nil, List.sum_cons,
    List.sum_nil, Nat.add_zero] at hbase hdemand
  rw [← h.base] at hbase
  rw [← h.scarce] at hdemand
  obtain ⟨b, hb⟩ := Amount.exists_toNat hbase
  obtain ⟨d, hd⟩ := Amount.exists_toNat
    (show o.demand < Amount.modulus from Nat.lt_of_le_of_lt (Nat.le_add_left _ _) hdemand)
  obtain ⟨s, hs⟩ := Amount.exists_toNat hdemand
  have hscarce : o.amount.scarceAt p = .ok d :=
    Amount.scarceAt_eq_ok_iff.2
      ⟨Tick.price_raw_pos hp, hd.trans (demandAt_eq_demand hp).symm⟩
  simp only [Totals.addBid, bind_eq_ok_iff, pure_eq_ok_iff, Amount.add_eq_ok_iff]
  exact ⟨⟨b, s⟩, b, hb, d, hscarce, s, hd ▸ hs, rfl⟩

/-- Totals can be added if the sums over all their offers fit. -/
theorem Sums.exists_add {offers' : List Offer} (h : t.Sums offers) (h' : u.Sums offers')
    (hf : Fits (offers ++ offers')) : ∃ v, t.add u = .ok v := by
  have hbase := hf.base
  have hdemand := hf.demand
  rw [List.map_append, List.sum_append, ← h.base, ← h'.base] at hbase
  rw [List.map_append, List.sum_append, ← h.scarce, ← h'.scarce] at hdemand
  obtain ⟨b, hb⟩ := Amount.exists_toNat hbase
  obtain ⟨s, hs⟩ := Amount.exists_toNat hdemand
  simp only [Totals.add, bind_eq_ok_iff, pure_eq_ok_iff, Amount.add_eq_ok_iff]
  exact ⟨⟨b, s⟩, b, hb, s, hs, rfl⟩

end Totals

/-- Bids of one tick can be folded into totals. -/
theorem exists_foldlM_addBid {tick : Tick} {p : Price} (hp : tick.price = .ok p)
    {bids : List Bid} :
    ∀ {t : Totals} {offers : List Offer}, t.Sums offers → (∀ bid ∈ bids, bid.tick = tick) →
      Fits (offers ++ bids.map Bid.offer) →
      ∃ u, bids.foldlM (fun totals bid => totals.addBid bid.amount p) t = .ok u := by
  induction bids with
  | nil => exact fun _ _ _ => ⟨_, rfl⟩
  | cons bid bids ih =>
    intro t offers h htick hf
    have hbid : bid.offer.tick.price = .ok p := by
      rw [← hp, ← htick bid List.mem_cons_self]
      rfl
    have hsplit : offers ++ (bid :: bids).map Bid.offer =
        offers ++ [bid.offer] ++ bids.map Bid.offer := by simp
    rw [hsplit] at hf
    obtain ⟨v, hv⟩ := h.exists_addBid hbid hf.left
    obtain ⟨u, hu⟩ := ih (h.addBid hbid hv) (fun b hb => htick b (List.mem_cons_of_mem _ hb)) hf
    exact ⟨u, foldlM_cons_eq_ok_iff.2 ⟨v, hv, hu⟩⟩

/-- The sums of a bucket can be computed. -/
theorem Bucket.exists_totals {b : Bucket} {tick : Tick} {p : Price} (hp : tick.price = .ok p)
    (htick : ∀ bid ∈ b.bids, bid.tick = tick) (hf : Fits (b.active.map Bid.offer)) :
    ∃ t, b.totals p = .ok t :=
  exists_foldlM_addBid hp Totals.sums_zero (fun bid h => htick bid (List.mem_filter.1 h).1) hf

/-! ## The scan -/

/-- The first of some descending buckets has a price. -/
theorem Descending.exists_price {entries : List (Tick × Bucket)} {tick : Tick} {bucket : Bucket}
    (h : Descending ((tick, bucket) :: entries)) (hf : Fits (bucket.active.map Bid.offer)) :
    ∃ p, tick.price = .ok p := by
  obtain ⟨o, ho, rfl⟩ := h.exists_head
  exact ⟨_, Tick.price_eq_ok_iff.2 ⟨hf.legal o ho, rfl⟩⟩

/-- The scan of offers that fit ends with a result. -/
theorem ClearingScan.exists_ofBuckets {caps : Caps} {entries : List (Tick × Bucket)} :
    ∀ {sums : Totals} {high : List Offer}, Descending entries → sums.Sums high →
      Fits (high ++ offersOf entries) → ∃ scan, ofBuckets caps sums entries = .ok scan := by
  induction entries with
  | nil => exact fun _ _ _ => ⟨_, rfl⟩
  | cons e entries ih =>
    intro sums high hd hsums hf
    obtain ⟨tick, bucket⟩ := e
    have hsplit : high ++ offersOf ((tick, bucket) :: entries) =
        high ++ bucket.active.map Bid.offer ++ offersOf entries := (List.append_assoc ..).symm
    rw [hsplit] at hf
    have hat := hd.at_tick _ List.mem_cons_self
    obtain ⟨p, hp⟩ := hd.exists_price hf.left.right
    obtain ⟨totals, htotals⟩ := Bucket.exists_totals hp hat hf.left.right
    have hown := Bucket.sums_totals hp hat htotals
    obtain ⟨through, hthrough⟩ := hsums.exists_add hown hf.left
    unfold ofBuckets
    simp only [bind_eq_ok_iff, mapError_eq_ok_iff]
    by_cases hreach : through.Reaches caps
    · exact ⟨.found tick sums totals, p, hp, totals, htotals, through, hthrough, if_pos hreach⟩
    · obtain ⟨scan, hscan⟩ := ih hd.tail (hsums.add hown hthrough) hf
      exact ⟨scan, p, hp, totals, htotals, through, hthrough, (if_neg hreach).trans hscan⟩

/-! ## The fill -/

/-- The room under a cap within the largest total, in units of a bucket within it, fits. -/
theorem FillRatio.exists_ofRoom {caps : Caps} {sums own : Totals}
    (hcaps : caps.base ≤ Amount.maxTotal) (hown : own.scarce ≤ Amount.maxTotal) :
    ∃ r, ofRoom caps sums own = .ok r := by
  unfold ofRoom
  split
  · exact ⟨_, rfl⟩
  · split
    · exact ⟨_, rfl⟩
    · rename_i hbase
      have hroom : (caps.base - sums.base).toNat ≤ Amount.maxTotal.toNat :=
        Nat.le_trans (Nat.sub_le _ _) hcaps
      have hquot : (caps.base - sums.base).toNat * own.scarce.toNat / own.base.toNat ≤
          Amount.maxTotal.toNat * Amount.maxTotal.toNat :=
        Nat.le_trans (Nat.div_le_self _ _) (Nat.mul_le_mul hroom hown)
      have hconst : Amount.maxTotal.toNat * Amount.maxTotal.toNat < Amount.modulus := by decide
      obtain ⟨byBase, hbyBase⟩ := Amount.exists_toNat (Nat.lt_of_le_of_lt hquot hconst)
      exact ⟨_, bind_eq_ok_iff.2 ⟨byBase, Amount.mulDiv_eq_ok_iff.2 ⟨hbase, hbyBase⟩, rfl⟩⟩

/-! ## The split of the upside -/

namespace Surplus

variable {ct : Tick} {cp : Price} {tick : Tick} {own : Price}

/-- The upside of bids of one tick can be added if the sum fits. -/
theorem exists_foldlM_upside (hcp : 0 < cp.raw.toNat) (hown : tick.price = .ok own)
    {bids : List Bid} :
    ∀ {t : Amount}, (∀ bid ∈ bids, bid.tick = tick) →
      (∀ bid ∈ bids, bid.offer.Accepted) →
      t.toNat + ((bids.map Bid.offer).map (Offer.upside cp)).sum < Amount.modulus →
      ∃ u, bids.foldlM (fun total bid => do total.add (← bid.amount.upside own cp)) t =
        (.ok u : Except ArithmeticError Amount) := by
  induction bids with
  | nil => exact fun _ _ _ => ⟨_, rfl⟩
  | cons bid bids ih =>
    intro t htick hacc hfits
    simp only [List.map_cons, List.sum_cons] at hfits
    have hbid : bid.offer.tick.price = .ok own := by
      rw [← hown, ← htick bid List.mem_cons_self]
      rfl
    obtain ⟨u, hu⟩ := Offer.exists_upside hcp hbid (hacc bid List.mem_cons_self).amount
    have hupside := Amount.toNat_upside hbid hu
    obtain ⟨v, hv⟩ := Amount.exists_toNat (show t.toNat + u.toNat < Amount.modulus by omega)
    obtain ⟨w, hw⟩ := @ih v (fun b hb => htick b (List.mem_cons_of_mem _ hb))
      (fun b hb => hacc b (List.mem_cons_of_mem _ hb)) (by omega)
    refine ⟨w, foldlM_cons_eq_ok_iff.2 ⟨v, ?_, hw⟩⟩
    exact bind_eq_ok_iff.2 ⟨u, hu, Amount.add_eq_ok_iff.2 hv⟩

/-- The upside of a bucket can be computed. -/
theorem exists_wanted {b : Bucket} (hcp : 0 < cp.raw.toNat) (hown : tick.price = .ok own)
    (htick : ∀ bid ∈ b.bids, bid.tick = tick) (hb : Bounded (b.active.map Bid.offer)) :
    ∃ u, wanted b own cp = .ok u := by
  refine exists_foldlM_upside hcp hown (fun bid h => htick bid (List.mem_filter.1 h).1)
    (fun bid h => hb.accepted _ (List.mem_map_of_mem h)) ?_
  rw [Amount.toNat_zero, Nat.zero_add]
  exact hb.sum_upside_lt cp

/-- Room can be handed out over the buckets of bounded offers. -/
theorem exists_ofBuckets (hcp : 0 < cp.raw.toNat) {entries : List (Tick × Bucket)} :
    ∀ {room : Amount}, Descending entries → Bounded (offersOf entries) →
      ∃ s, ofBuckets ct cp room entries = .ok s := by
  induction entries with
  | nil => exact fun _ _ => ⟨_, rfl⟩
  | cons e entries ih =>
    intro room hd hb
    obtain ⟨tick, bucket⟩ := e
    have hsplit : offersOf ((tick, bucket) :: entries) =
        bucket.active.map Bid.offer ++ offersOf entries := rfl
    rw [hsplit] at hb
    obtain ⟨own, hown⟩ := hd.exists_price hb.left.fits
    obtain ⟨u, hu⟩ := exists_wanted hcp hown (hd.at_tick _ List.mem_cons_self) hb.left
    unfold ofBuckets
    by_cases hct : tick ≤ ct
    · exact ⟨.unlimited ct, if_pos hct⟩
    · by_cases hfits : u ≤ room
      · obtain ⟨s, hs⟩ := @ih (room.subMod u) hd.tail hb.right
        refine ⟨s, (if_neg hct).trans ?_⟩
        simp only [bind_eq_ok_iff, mapError_eq_ok_iff]
        exact ⟨own, hown, u, hu, (if_pos hfits).trans hs⟩
      · refine ⟨⟨tick, room, u⟩, (if_neg hct).trans ?_⟩
        simp only [bind_eq_ok_iff, mapError_eq_ok_iff]
        exact ⟨own, hown, u, hu, if_neg hfits⟩

end Surplus

/-! ## The commitment of a bounded book -/

namespace Book

variable {b : Book} {caps : Caps}

/-- The offers are bounded in any order of the buckets. -/
theorem bounded_activeDescending (hb : Bounded b.activeOffers) :
    Bounded (offersOf b.activeDescending) :=
  hb.of_perm b.offersOf_activeDescending.symm

/-- The scan of a book whose active offers fit ends with a result. -/
theorem Placed.exists_scan (hp : b.Placed) (hf : Fits b.activeOffers) :
    ∃ scan, b.scan caps = .ok scan :=
  ClearingScan.exists_ofBuckets hp.descending Totals.sums_zero
    (hf.of_perm b.offersOf_activeDescending)

/-- So a book of bounded offers can be scanned. -/
theorem exists_scan (hi : b.Indexed) (hb : Bounded b.activeOffers) :
    ∃ scan, b.scan caps = .ok scan := hi.placed.exists_scan hb.fits

/-- And the sums at each of its ticks can be computed. -/
theorem exists_totalsAt {tick : Tick} {p : Price} (hi : b.Indexed) (hb : Bounded b.activeOffers)
    (hp : tick.price = .ok p) : ∃ t, b.totalsAt tick = .ok t := by
  unfold totalsAt
  split
  · exact ⟨_, rfl⟩
  · rename_i bucket hsome
    have hat : ∀ bid ∈ bucket.bids, bid.tick = tick := fun bid h =>
      hi.tick_of_mem (SortedMap.mem_entries_iff.2 hsome) h
    have hlevel : Bounded (level tick b.activeOffers) := hb.of_sublist List.filter_sublist
    rw [level_activeOffers_of_some hi hsome] at hlevel
    obtain ⟨t, ht⟩ := Bucket.exists_totals hp hat hlevel.fits
    refine ⟨t, ?_⟩
    simp only [bind_eq_ok_iff, mapError_eq_ok_iff]
    exact ⟨p, hp, ht⟩

/-- There is no lowest active tick exactly in a book without active bids. -/
theorem lowestActiveTick?_eq_none_iff : b.lowestActiveTick? = none ↔ b.activeOffers = [] := by
  rw [lowestActiveTick?, Option.map_eq_none_iff, List.find?_eq_none, List.eq_nil_iff_forall_not_mem]
  constructor
  · intro h o ho
    obtain ⟨e, he, bid, hbid, hactive, -⟩ := mem_activeOffers.1 ho
    exact h e he (List.any_eq_true.2 ⟨bid, hbid, hactive⟩)
  · intro h e he hactive
    obtain ⟨bid, hbid, hactive⟩ := List.any_eq_true.1 hactive
    exact h bid.offer (mem_activeOffers.2 ⟨e, he, bid, hbid, hactive, rfl⟩)

/-- A bounded book with an active bid has a clearing point, by any scan of it. -/
theorem exists_clearingPoint {scan : ClearingScan} (hi : b.Indexed) (hb : Bounded b.activeOffers)
    (hs : b.scan caps = .ok scan) (hne : b.activeOffers ≠ []) :
    ∃ p, b.clearingPoint? scan = .ok (some p) := by
  cases scan_finds hi hs with
  | clears => exact ⟨_, rfl⟩
  | short =>
    obtain ⟨tick, htick⟩ := Option.ne_none_iff_exists'.1 (mt lowestActiveTick?_eq_none_iff.1 hne)
    obtain ⟨⟨o, ho, rfl⟩, -⟩ := lowestActiveTick_spec hi htick
    obtain ⟨p, hp⟩ := (hb.accepted o ho).price
    obtain ⟨t, ht⟩ := exists_totalsAt hi hb hp
    simp only [clearingPoint?, ClearingScan.underfunded, htick]
    exact ⟨_, bind_eq_ok_iff.2 ⟨t, ht, rfl⟩⟩

/-- A book without active bids has none. -/
theorem clearingPoint_of_nil {scan : ClearingScan} (hi : b.Indexed)
    (hs : b.scan caps = .ok scan) (hnil : b.activeOffers = []) :
    b.clearingPoint? scan = .ok none := by
  cases scan_finds hi hs with
  | clears ht =>
    obtain ⟨o, ho, -⟩ := ht.1
    rw [hnil] at ho
    exact nomatch ho
  | short =>
    simp only [clearingPoint?, ClearingScan.underfunded, lowestActiveTick?_eq_none_iff.2 hnil]

/-- Everything about a clearing point of a bounded book can be committed. -/
theorem exists_commitmentAt {p : ClearingPoint} (hi : b.Indexed) (hb : Bounded b.activeOffers)
    (hcaps : caps.base ≤ Amount.maxTotal) (hp : p.OfOffers caps b.activeOffers) :
    ∃ c, b.commitmentAt caps p = .ok c := by
  obtain ⟨o, ho, htick⟩ := hp.occupied
  obtain ⟨price, hprice⟩ := (hb.accepted o ho).price
  rw [htick] at hprice
  have hbucket : Bounded (level p.tick b.activeOffers) := hb.of_sublist List.filter_sublist
  obtain ⟨r, hr⟩ : ∃ r, FillRatio.ofRoom caps p.above p.bucket = .ok r :=
    FillRatio.exists_ofRoom hcaps (hp.bucket.within hbucket).scarce
  have hsplit (fill : FillRatio) : ∃ s, Surplus.allocate b p.tick price
      (Commitment.surplusRoom caps p.above.scarce (fill.filledOf p.bucket.scarce)) = .ok s :=
    Surplus.exists_ofBuckets (Tick.price_raw_pos hprice) hi.descending (bounded_activeDescending hb)
  unfold commitmentAt
  cases p.priceFound with
  | true =>
    obtain ⟨s, hs⟩ := hsplit r
    simp only [if_true, bind_eq_ok_iff, mapError_eq_ok_iff]
    exact ⟨_, price, hprice, r, hr, s, hs, rfl⟩
  | false =>
    obtain ⟨s, hs⟩ := hsplit .full
    simp only [Bool.false_eq_true, if_false, bind_eq_ok_iff, mapError_eq_ok_iff]
    exact ⟨_, price, hprice, .full, rfl, s, hs, rfl⟩

/-- A bounded book with an active bid has a commitment. -/
theorem exists_commitment (hi : b.Indexed) (hb : Bounded b.activeOffers)
    (hcaps : caps.base ≤ Amount.maxTotal) (hne : b.activeOffers ≠ []) :
    ∃ c, b.commitment? caps = .ok (some c) := by
  obtain ⟨scan, hscan⟩ : ∃ scan, b.scan caps = .ok scan := exists_scan hi hb
  obtain ⟨p, hp⟩ := exists_clearingPoint hi hb hscan hne
  obtain ⟨c, hc⟩ := exists_commitmentAt hi hb hcaps (ofOffers_clearingPoint hi hscan hp)
  refine ⟨c, bind_eq_ok_iff.2 ⟨scan, hscan, bind_eq_ok_iff.2 ⟨some p, hp, ?_⟩⟩⟩
  exact bind_eq_ok_iff.2 ⟨c, hc, rfl⟩

/-- A book without active bids has none. -/
theorem commitment_of_nil (hi : b.Indexed) (hnil : b.activeOffers = []) :
    b.commitment? caps = .ok none := by
  have hb : Bounded b.activeOffers := by
    rw [hnil]
    exact ⟨fun _ ho => (nomatch ho), Nat.zero_le _, Nat.zero_le _⟩
  obtain ⟨scan, hscan⟩ : ∃ scan, b.scan caps = .ok scan := exists_scan hi hb
  refine bind_eq_ok_iff.2 ⟨scan, hscan, bind_eq_ok_iff.2 ⟨none, ?_, rfl⟩⟩
  exact clearingPoint_of_nil hi hscan hnil

/-- The split that is committed comes from a walk in exact arithmetic. -/
theorem walk_commitment {c : Commitment} (h : b.commitment? caps = .ok (some c)) :
    Surplus.Walk c.tick c.price (c.room caps) b.activeDescending c.surplus := by
  obtain ⟨scan, -, h⟩ := bind_eq_ok_iff.1 h
  obtain ⟨p, -, h⟩ := bind_eq_ok_iff.1 h
  cases p with
  | none => cases h
  | some p =>
    obtain ⟨c', hc, h⟩ := bind_eq_ok_iff.1 h
    cases h
    exact Surplus.ofBuckets_walk (commitmentAt_spec hc).2.2.2

end Book

end BatchAuction
