import BatchAuction.Clearing.Commitment
import BatchAuction.Proofs.Clearing.Surplus

/-!
# The commitment is a function of the offers

`Commitment.OfOffers caps offers c` says of each field of a commitment what it is among some offers,
without following a scan. Offers have one commitment (`Commitment.OfOffers.unique`), in any order,
and the one that a book computes is the one of its active offers (`Book.ofOffers_commitment`).

Bids whose deposits were returned are missing among the active offers. All of them were lost, and
leaving out lost offers changes nothing (`Commitment.OfOffers.of_lost`): they lie below the tick at
which all offers clear, and everything is decided from that tick upwards. If there are any, the
offers do clear; so a book that clears nowhere has returned no deposit.
-/

namespace BatchAuction

open Offer (upper above level Reaches ClearsAt Lost)

variable {caps : Caps} {offers offers' active lost : List Offer}

/-! ## Leaving out lost offers -/

namespace Offer

/-- Offers below a tick do not count among those at the tick and above it. -/
theorem upper_perm_of_lost {t : Tick} (hp : offers.Perm (active ++ lost))
    (hl : ∀ o ∈ lost, o.tick < t) : (upper t offers).Perm (upper t active) := by
  have hcut : (upper t offers).Perm (upper t (active ++ lost)) := hp.filter _
  rwa [upper_append, upper_eq_nil hl, List.append_nil] at hcut

/-- Either nothing is left out, or all of it lies below the tick at which the offers clear. -/
theorem eq_nil_or_clearsAt (hl : ∀ o ∈ lost, Lost caps offers o.tick) :
    lost = [] ∨ ∃ t, ClearsAt caps offers t ∧ ∀ o ∈ lost, o.tick < t := by
  cases lost with
  | nil => exact .inl rfl
  | cons o lost =>
    obtain ⟨t, ht, -⟩ := hl o List.mem_cons_self
    refine .inr ⟨t, ht, fun o' ho' => ?_⟩
    obtain ⟨t', ht', hlt⟩ := hl o' ho'
    rwa [ht.unique ht']

/-- Without the lost offers, the others clear where all of them do. -/
theorem clearsAt_iff_of_lost {t : Tick} (hp : offers.Perm (active ++ lost))
    (hl : ∀ o ∈ lost, Lost caps offers o.tick) :
    ClearsAt caps active t ↔ ClearsAt caps offers t := by
  rcases eq_nil_or_clearsAt hl with rfl | ⟨s, hs, hlow⟩
  · rw [List.append_nil] at hp
    exact ⟨ClearsAt.of_perm hp.symm, ClearsAt.of_perm hp⟩
  · have hcut := upper_perm_of_lost hp hlow
    constructor
    · intro h
      rw [h.unique (hs.congr hcut)]
      exact hs
    · intro h
      rw [h.unique hs]
      exact hs.congr hcut

end Offer

/-- Without the lost offers, a scan finds what it finds among all of them. -/
theorem ClearingScan.Finds.of_lost {scan : ClearingScan} (hp : offers.Perm (active ++ lost))
    (hl : ∀ o ∈ lost, Lost caps offers o.tick) (h : scan.Finds caps active) :
    scan.Finds caps offers := by
  rcases Offer.eq_nil_or_clearsAt hl with rfl | ⟨t, ht, hlow⟩
  · rw [List.append_nil] at hp
    exact h.of_perm hp.symm
  · have hcut := (Offer.upper_perm_of_lost hp hlow).symm
    have hactive := (Offer.clearsAt_iff_of_lost hp hl).2 ht
    cases h with
    | clears hs ha hb =>
      obtain rfl := hs.unique hactive
      exact .clears ht (ha.of_perm (Offer.above_perm_of_upper (Int.le_refl _) hcut))
        (hb.of_perm (Offer.level_perm_of_upper (Int.le_refl _) hcut))
    | short hn => exact absurd hactive (hn t)

/-! ## The clearing point -/

/-- The clearing point of some offers: the tick at which they clear, or else the lowest one, with
the sums above it and at it. -/
structure ClearingPoint.OfOffers (caps : Caps) (offers : List Offer) (p : ClearingPoint) :
    Prop where
  occupied : ∃ o ∈ offers, o.tick = p.tick
  above : p.above.Sums (Offer.above p.tick offers)
  bucket : p.bucket.Sums (level p.tick offers)
  found : p.priceFound = true → ClearsAt caps offers p.tick
  short : p.priceFound = false →
    (∀ t, ¬ ClearsAt caps offers t) ∧ ∀ o ∈ offers, p.tick ≤ o.tick

namespace ClearingPoint

variable {p p' : ClearingPoint}

/-- The same offers have one clearing tick. -/
theorem OfOffers.tick_eq (h : p.OfOffers caps offers) (h' : p'.OfOffers caps offers) :
    p.priceFound = p'.priceFound ∧ p.tick = p'.tick := by
  cases hf : p.priceFound with
  | true =>
    cases hf' : p'.priceFound with
    | true => exact ⟨rfl, (h.found hf).unique (h'.found hf')⟩
    | false => exact absurd (h.found hf) ((h'.short hf').1 _)
  | false =>
    cases hf' : p'.priceFound with
    | true => exact absurd (h'.found hf') ((h.short hf).1 _)
    | false =>
      obtain ⟨o, ho, htick⟩ := h.occupied
      obtain ⟨o', ho', htick'⟩ := h'.occupied
      have hle := (h.short hf).2 o' ho'
      have hle' := (h'.short hf').2 o ho
      rw [htick', Tick.le_iff] at hle
      rw [htick, Tick.le_iff] at hle'
      exact ⟨rfl, Tick.ext (by omega)⟩

/-- Offers have one clearing point. -/
theorem OfOffers.unique (h : p.OfOffers caps offers) (h' : p'.OfOffers caps offers) : p = p' := by
  obtain ⟨hfound, htick⟩ := h.tick_eq h'
  have habove := h'.above
  have hbucket := h'.bucket
  rw [← htick] at habove hbucket
  have hsums := h.above.unique habove
  have hown := h.bucket.unique hbucket
  cases p
  cases p'
  simp only at hfound htick hsums hown
  rw [hfound, htick, hsums, hown]

/-- The clearing point depends on the offers from its tick upwards, in any order, if a cap binds. -/
theorem OfOffers.congr (hp : (upper p.tick offers).Perm (upper p.tick offers'))
    (hall : p.priceFound = false → offers.Perm offers') (h : p.OfOffers caps offers) :
    p.OfOffers caps offers' := by
  have habove := Offer.above_perm_of_upper (Int.le_refl _) hp
  have hlevel := Offer.level_perm_of_upper (Int.le_refl _) hp
  refine ⟨?_, h.above.of_perm habove, h.bucket.of_perm hlevel,
    fun hf => (h.found hf).congr hp, fun hf => ?_⟩
  · obtain ⟨o, ho, htick⟩ := h.occupied
    have hle : p.tick ≤ o.tick := Int.le_of_eq (congrArg Tick.index htick.symm)
    have hmem := hp.mem_iff.1 (Offer.mem_upper.2 ⟨ho, hle⟩)
    exact ⟨o, (Offer.mem_upper.1 hmem).1, htick⟩
  · obtain ⟨hno, hlow⟩ := h.short hf
    exact ⟨fun t ht => hno t (ht.of_perm (hall hf).symm),
      fun o ho => hlow o ((hall hf).mem_iff.2 ho)⟩

end ClearingPoint

/-! ## The commitment -/

namespace Commitment

/-- The clearing point of a commitment. -/
def point (c : Commitment) : ClearingPoint :=
  ⟨c.tick, c.priceFound, ⟨c.baseAbove, c.scarceAbove⟩, c.bucket⟩

/-- The room that a commitment leaves for upside. -/
def room (c : Commitment) (caps : Caps) : Amount :=
  surplusRoom caps c.scarceAbove (c.fill.filledOf c.bucket.scarce)

/-- What a commitment is among some offers. -/
structure OfOffers (caps : Caps) (offers : List Offer) (c : Commitment) : Prop where
  point : c.point.OfOffers caps offers
  price : c.tick.price = .ok c.price
  fill : (if c.priceFound then FillRatio.ofRoom caps c.point.above c.bucket else .ok .full) =
    .ok c.fill
  surplus : Surplus.Allocates c.tick c.price (c.room caps).toNat offers c.surplus

variable {c c' : Commitment}

/-- Offers have one commitment. -/
theorem OfOffers.unique (h : c.OfOffers caps offers) (h' : c'.OfOffers caps offers) : c = c' := by
  have hpoint := h.point.unique h'.point
  obtain ⟨t, p, f, b, s, u, r, e⟩ := c
  obtain ⟨t', p', f', b', s', u', r', e'⟩ := c'
  simp only [Commitment.point, ClearingPoint.mk.injEq, Totals.mk.injEq] at hpoint
  obtain ⟨rfl, rfl, ⟨rfl, rfl⟩, rfl⟩ := hpoint
  obtain rfl : p = p' := Except.ok.inj (h.price.symm.trans h'.price)
  obtain rfl : r = r' := Except.ok.inj (h.fill.symm.trans h'.fill)
  obtain rfl : e = e' := h.surplus.unique h'.surplus
  rfl

/-- A commitment depends on the offers at its tick and above it, and on all of them if no cap
binds. -/
theorem OfOffers.congr (hp : (upper c.tick offers).Perm (upper c.tick offers'))
    (hall : c.priceFound = false → offers.Perm offers') (h : c.OfOffers caps offers) :
    c.OfOffers caps offers' :=
  ⟨h.point.congr hp hall, h.price, h.fill, h.surplus.congr hp⟩

/-- It does not depend on the order of the offers. -/
theorem OfOffers.of_perm (hp : offers.Perm offers') (h : c.OfOffers caps offers) :
    c.OfOffers caps offers' :=
  h.congr (hp.filter _) fun _ => hp

/-- Lost offers may be left out. -/
theorem OfOffers.of_lost (hp : offers.Perm (active ++ lost))
    (hl : ∀ o ∈ lost, Lost caps offers o.tick) (h : c.OfOffers caps active) :
    c.OfOffers caps offers := by
  rcases Offer.eq_nil_or_clearsAt hl with rfl | ⟨t, ht, hlow⟩
  · rw [List.append_nil] at hp
    exact h.of_perm hp.symm
  · have hactive := (Offer.clearsAt_iff_of_lost hp hl).2 ht
    -- the active offers clear as well, so the commitment is not that of a short book
    have hfound : c.priceFound = true := by
      cases hf : c.priceFound with
      | true => rfl
      | false => exact absurd hactive ((h.point.short hf).1 t)
    obtain rfl : c.tick = t := (h.point.found hfound).unique hactive
    exact h.congr (Offer.upper_perm_of_lost hp hlow).symm fun hf => by simp [hfound] at hf

/-- If a tick is lost, the commitment is not that of a short book. -/
theorem OfOffers.found_of_lost {t : Tick} (h : c.OfOffers caps offers)
    (ht : Lost caps offers t) : c.priceFound = true := by
  obtain ⟨s, hs, -⟩ := ht
  cases hf : c.priceFound with
  | true => rfl
  | false => exact absurd hs ((h.point.short hf).1 s)

/-- A lost tick lies strictly below the committed one. -/
theorem OfOffers.lt_tick_of_lost {t : Tick} (h : c.OfOffers caps offers)
    (ht : Lost caps offers t) : t < c.tick := by
  have hfound := h.found_of_lost ht
  obtain ⟨s, hs, hlt⟩ := ht
  have heq : c.tick = s := (h.point.found hfound).unique hs
  rwa [heq]

end Commitment

/-! ## The commitment of a book -/

namespace Book

variable {b : Book} {tick : Tick}

/-- An active offer is the one of an active bid in some bucket. -/
theorem mem_activeOffers {o : Offer} :
    o ∈ b.activeOffers ↔
      ∃ e ∈ b.buckets.entries, ∃ bid ∈ e.2.bids, bid.isActive = true ∧ bid.offer = o := by
  simp only [activeOffers, activeBids, bids, bidsOf, List.mem_map, List.mem_filter,
    List.mem_flatMap]
  constructor
  · rintro ⟨bid, ⟨⟨e, he, hb⟩, hact⟩, rfl⟩
    exact ⟨e, he, bid, hb, hact, rfl⟩
  · rintro ⟨e, he, bid, hb, hact, rfl⟩
    exact ⟨bid, ⟨⟨e, he, hb⟩, hact⟩, rfl⟩

/-- The lowest active tick has an active offer and none below it. -/
theorem lowestActiveTick_spec (hi : b.Indexed) (h : b.lowestActiveTick? = some tick) :
    (∃ o ∈ b.activeOffers, o.tick = tick) ∧ ∀ o ∈ b.activeOffers, tick ≤ o.tick := by
  obtain ⟨e, he, rfl⟩ := Option.map_eq_some_iff.1 h
  obtain ⟨hact, l, r, hsplit, hl⟩ := List.find?_eq_some_iff_append.1 he
  have hmem : e ∈ b.buckets.entries := by simp [hsplit]
  constructor
  · obtain ⟨bid, hbid, hon⟩ := List.any_eq_true.1 hact
    exact ⟨bid.offer, mem_activeOffers.2 ⟨e, hmem, bid, hbid, hon, rfl⟩,
      hi.tick_of_mem hmem hbid⟩
  · intro o ho
    obtain ⟨e', he', bid, hbid, hon, rfl⟩ := mem_activeOffers.1 ho
    have htick : bid.offer.tick = e'.1 := hi.tick_of_mem he' hbid
    rw [htick]
    have hasc := b.buckets.ascending
    rw [hsplit, List.pairwise_append] at hasc
    rw [hsplit] at he'
    rcases List.mem_append.1 he' with hleft | hright
    · have hnot := hl e' hleft
      rw [Bool.not_eq_true', Bucket.hasActive, List.any_eq_false] at hnot
      exact absurd hon (hnot bid hbid)
    · rcases List.mem_cons.1 hright with rfl | hright
      · exact Int.le_refl _
      · exact Int.le_of_lt ((List.pairwise_cons.1 hasc.2.1).1 e' hright)

/-- Other buckets have no offers at a tick. -/
theorem Indexed.level_eq_nil (hi : b.Indexed) {l : List (Tick × Bucket)}
    (hl : ∀ e ∈ l, e ∈ b.buckets.entries ∧ e.1 ≠ tick) : level tick (offersOf l) = [] := by
  refine Offer.level_eq_nil fun o ho htick => ?_
  obtain ⟨e, he, ho⟩ := List.mem_flatMap.1 ho
  obtain ⟨bid, hbid, rfl⟩ := List.mem_map.1 ho
  have hat : bid.offer.tick = e.1 := hi.tick_of_mem (hl e he).1 (List.mem_filter.1 hbid).1
  exact (hl e he).2 (hat.symm.trans htick)

/-- At a tick without a bucket there is no active offer. -/
theorem level_activeOffers_of_none (hi : b.Indexed) (h : b.bucket? tick = none) :
    level tick b.activeOffers = [] := by
  rw [← offersOf_entries]
  refine hi.level_eq_nil fun e he => ⟨he, fun heq => ?_⟩
  have hsome : b.bucket? tick = some e.2 := SortedMap.mem_entries_iff.1 (heq ▸ he)
  exact nomatch h.symm.trans hsome

/-- The active offers at a tick are those of its bucket. -/
theorem level_activeOffers_of_some (hi : b.Indexed) {bucket : Bucket}
    (h : b.bucket? tick = some bucket) :
    level tick b.activeOffers = bucket.active.map Bid.offer := by
  have hmem : (tick, bucket) ∈ b.buckets.entries := SortedMap.mem_entries_iff.2 h
  obtain ⟨l, r, hsplit⟩ := List.append_of_mem hmem
  have hasc := b.buckets.ascending
  rw [hsplit, List.pairwise_append, List.pairwise_cons] at hasc
  obtain ⟨-, ⟨hr, -⟩, hl⟩ := hasc
  have hleft : level tick (offersOf l) = [] :=
    hi.level_eq_nil fun e he => ⟨by simp [hsplit, he], fun heq =>
      Int.ne_of_lt (hl e he _ List.mem_cons_self) (congrArg Tick.index heq)⟩
  have hright : level tick (offersOf r) = [] :=
    hi.level_eq_nil fun e he => ⟨by simp [hsplit, he], fun heq =>
      Int.ne_of_gt (hr e he) (congrArg Tick.index heq)⟩
  have hown : level tick (bucket.active.map Bid.offer) = bucket.active.map Bid.offer := by
    refine Offer.level_eq_self fun o ho => ?_
    obtain ⟨bid, hbid, rfl⟩ := List.mem_map.1 ho
    exact hi.tick_of_mem hmem (List.mem_filter.1 hbid).1
  have hparts : offersOf b.buckets.entries =
      offersOf l ++ (bucket.active.map Bid.offer ++ offersOf r) := by
    rw [hsplit, offersOf, List.flatMap_append, List.flatMap_cons]
    rfl
  rw [← offersOf_entries, hparts, Offer.level_append, Offer.level_append, hleft, hright, hown,
    List.nil_append, List.append_nil]

/-- The totals of a tick are the sums over the active offers at it. -/
theorem sums_totalsAt {t : Totals} (hi : b.Indexed) (h : b.totalsAt tick = .ok t) :
    t.Sums (level tick b.activeOffers) := by
  unfold totalsAt at h
  split at h
  · rename_i hnone
    cases h
    rw [level_activeOffers_of_none hi hnone]
    exact Totals.sums_zero
  · rename_i bucket hsome
    simp only [bind_eq_ok_iff, mapError_eq_ok_iff] at h
    obtain ⟨p, hp, h⟩ := h
    rw [level_activeOffers_of_some hi hsome]
    exact Bucket.sums_totals hp
      (fun bid hb => hi.tick_of_mem (SortedMap.mem_entries_iff.2 hsome) hb) h

/-- Taking the sums at the lowest tick away leaves the sums above it. -/
theorem sums_sub {all own : Totals} {l : List Offer} (ha : all.Sums l)
    (ho : own.Sums (level tick l)) (hlow : ∀ o ∈ l, tick ≤ o.tick) :
    (Totals.mk (all.base - own.base) (all.scarce - own.scarce)).Sums (above tick l) := by
  have hb := Offer.sum_eq_of_forall_le Offer.base hlow
  have hd := Offer.sum_eq_of_forall_le Offer.demand hlow
  constructor
  · rw [Amount.toNat_sub, ha.base, ho.base]
    omega
  · rw [Amount.toNat_sub, ha.scarce, ho.scarce]
    omega

/-- What a book takes for its clearing point is the clearing point of its active offers. -/
theorem ofOffers_clearingPoint {caps : Caps} {scan : ClearingScan} {p : ClearingPoint}
    (hi : b.Indexed) (hs : b.scan caps = .ok scan) (h : b.clearingPoint? scan = .ok (some p)) :
    p.OfOffers caps b.activeOffers := by
  cases scan_finds hi hs with
  | clears ht ha hb =>
    cases h
    exact ⟨ht.1, ha, hb, fun _ => ht, fun hf => nomatch hf⟩
  | @short all hno hall =>
    cases htick : b.lowestActiveTick? with
    | none =>
      simp only [clearingPoint?, htick] at h
      cases h
    | some tick =>
      simp only [clearingPoint?, htick] at h
      obtain ⟨own, hown, h⟩ := bind_eq_ok_iff.1 h
      cases h
      obtain ⟨hocc, hlow⟩ := lowestActiveTick_spec hi htick
      have hsums := sums_totalsAt hi hown
      exact ⟨hocc, sums_sub hall hsums hlow, hsums, fun hf => (nomatch hf), fun _ => ⟨hno, hlow⟩⟩

/-- The parts of the commitment at a clearing point. -/
theorem commitmentAt_spec {caps : Caps} {p : ClearingPoint} {c : Commitment}
    (h : b.commitmentAt caps p = .ok c) :
    c.point = p ∧ c.tick.price = .ok c.price ∧
      (if p.priceFound then FillRatio.ofRoom caps p.above p.bucket else .ok .full) = .ok c.fill ∧
      Surplus.allocate b c.tick c.price (c.room caps) = .ok c.surplus := by
  unfold commitmentAt at h
  cases hf : p.priceFound with
  | true =>
    simp only [hf, if_true, bind_eq_ok_iff, mapError_eq_ok_iff] at h
    obtain ⟨price, hprice, fill, hfill, surplus, hsurplus, h⟩ := h
    cases h
    exact ⟨by cases p; simp [Commitment.point, ← hf], hprice, hfill, hsurplus⟩
  | false =>
    simp only [hf, Bool.false_eq_true, if_false, bind_eq_ok_iff, mapError_eq_ok_iff] at h
    obtain ⟨price, hprice, fill, hfill, surplus, hsurplus, h⟩ := h
    cases h
    obtain rfl := Except.ok.inj hfill
    exact ⟨by cases p; simp [Commitment.point, ← hf], hprice, rfl, hsurplus⟩

/-- The commitment of a book is the one of its active offers. -/
theorem ofOffers_commitment {caps : Caps} {c : Commitment} (hi : b.Indexed)
    (h : b.commitment? caps = .ok (some c)) : c.OfOffers caps b.activeOffers := by
  obtain ⟨scan, hscan, h⟩ := bind_eq_ok_iff.1 h
  obtain ⟨p, hp, h⟩ := bind_eq_ok_iff.1 h
  cases p with
  | none => cases h
  | some p =>
    obtain ⟨c', hc, h⟩ := bind_eq_ok_iff.1 h
    cases h
    have hpoint := ofOffers_clearingPoint hi hscan hp
    obtain ⟨rfl, hprice, hfill, hsurplus⟩ := commitmentAt_spec hc
    exact ⟨hpoint, hprice, hfill, Surplus.allocate_allocates hi hsurplus⟩

end Book

end BatchAuction
