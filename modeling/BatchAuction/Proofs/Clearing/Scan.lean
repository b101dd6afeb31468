import BatchAuction.Proofs.Amount.Result
import BatchAuction.Proofs.Book.Bids
import BatchAuction.Proofs.Clearing.Offer

/-!
# The scan finds the tick at which the active offers clear

A scan that succeeds has added up exactly the offers it passed (`Totals.Sums`), and its answer is
the one that `Offer.ClearsAt` describes (`Book.scan_finds`): the clearing tick with the sums above
it and at it, or the sums of all offers if they clear nowhere. The induction is on the buckets that
are left. It carries the offers already passed, all of them above the buckets that are left, and the
fact that no tick among them reaches a cap.
-/

namespace BatchAuction

open Offer (base demand upper above level Reaches ClearsAt)

/-! ## Exact totals -/

/-- The totals are the sums over some offers, each valued at its own tick. -/
structure Totals.Sums (t : Totals) (offers : List Offer) : Prop where
  base : t.base.toNat = (offers.map Offer.base).sum
  scarce : t.scarce.toNat = (offers.map Offer.demand).sum

namespace Totals

variable {t u v : Totals} {offers offers' : List Offer} {o : Offer} {p : Price} {caps : Caps}

/-- Nothing adds up to zero. -/
theorem sums_zero : zero.Sums [] := ⟨rfl, rfl⟩

/-- Sums do not depend on the order of the offers. -/
theorem Sums.of_perm (h : t.Sums offers) (hp : offers.Perm offers') : t.Sums offers' :=
  ⟨h.base.trans (hp.map _).sum_eq, h.scarce.trans (hp.map _).sum_eq⟩

/-- Offers have one pair of totals. -/
theorem Sums.unique (h : t.Sums offers) (h' : u.Sums offers) : t = u :=
  Totals.ext (Amount.eq_iff.2 (h.base.trans h'.base.symm))
    (Amount.eq_iff.2 (h.scarce.trans h'.scarce.symm))

/-- At the price of its own tick an offer demands what it demands by itself. -/
theorem demandAt_eq_demand (hp : o.tick.price = .ok p) : o.demandAt p = o.demand := by
  obtain ⟨-, rfl⟩ := Tick.price_eq_ok_iff.1 hp
  rfl

/-- Adding an offer adds its base and its demand. -/
theorem Sums.addBid (h : t.Sums offers) (hp : o.tick.price = .ok p)
    (ha : t.addBid o.amount p = .ok u) : u.Sums (offers ++ [o]) := by
  simp only [Totals.addBid, bind_eq_ok_iff, pure_eq_ok_iff, Amount.add_eq_ok_iff,
    Amount.scarceAt_eq_ok_iff] at ha
  obtain ⟨b, hb, d, ⟨-, hd⟩, s, hs, rfl⟩ := ha
  have hdemand : d.toNat = o.demand := hd.trans (demandAt_eq_demand hp)
  constructor
  · rw [List.map_append, List.sum_append, ← h.base, hb]
    simp [Offer.base]
  · rw [List.map_append, List.sum_append, ← h.scarce, hs, hdemand]
    simp

/-- The sums of two lists add up. -/
theorem Sums.add (h : t.Sums offers) (h' : u.Sums offers') (ha : t.add u = .ok v) :
    v.Sums (offers ++ offers') := by
  simp only [Totals.add, bind_eq_ok_iff, pure_eq_ok_iff, Amount.add_eq_ok_iff] at ha
  obtain ⟨b, hb, s, hs, rfl⟩ := ha
  constructor
  · rw [List.map_append, List.sum_append, ← h.base, ← h'.base]
    exact hb
  · rw [List.map_append, List.sum_append, ← h.scarce, ← h'.scarce]
    exact hs

/-- The sums reach a cap exactly if the offers do. -/
theorem Sums.reaches_iff (h : t.Sums offers) : t.Reaches caps ↔ Offer.Reaches caps offers := by
  unfold Totals.Reaches Offer.Reaches
  rw [Amount.le_iff, Amount.le_iff, h.base, h.scarce]

end Totals

/-- Folding bids of one tick into totals adds their offers. -/
theorem sums_foldlM {tick : Tick} {p : Price} (hp : tick.price = .ok p) {bids : List Bid} :
    ∀ {t u : Totals} {offers : List Offer}, t.Sums offers → (∀ bid ∈ bids, bid.tick = tick) →
      bids.foldlM (fun totals bid => totals.addBid bid.amount p) t = .ok u →
      u.Sums (offers ++ bids.map Bid.offer) := by
  induction bids with
  | nil =>
    intro t u offers h _ hf
    obtain rfl : t = u := pure_eq_ok_iff.1 hf
    simpa using h
  | cons bid bids ih =>
    intro t u offers h htick hf
    obtain ⟨v, hv, hf⟩ := foldlM_cons_eq_ok_iff.1 hf
    have hbid : bid.offer.tick.price = .ok p := by
      rw [← hp, ← htick bid List.mem_cons_self]
      rfl
    have hsum := ih (h.addBid (o := bid.offer) hbid hv)
      (fun b hb => htick b (List.mem_cons_of_mem _ hb)) hf
    simpa using hsum

/-- The totals of a bucket are the sums over its active offers. -/
theorem Bucket.sums_totals {b : Bucket} {tick : Tick} {p : Price} {t : Totals}
    (hp : tick.price = .ok p) (htick : ∀ bid ∈ b.bids, bid.tick = tick)
    (h : b.totals p = .ok t) : t.Sums (b.active.map Bid.offer) :=
  sums_foldlM hp Totals.sums_zero (fun bid hb => htick bid (List.mem_filter.1 hb).1) h

/-! ## The offers of a list of buckets -/

/-- The active offers of some buckets, bucket by bucket. -/
def offersOf (entries : List (Tick × Bucket)) : List Offer :=
  entries.flatMap fun e => e.2.active.map Bid.offer

/-- Buckets with an active bid each, from the highest tick down. -/
structure Descending (entries : List (Tick × Bucket)) : Prop where
  ticks : entries.Pairwise fun a b => b.1 < a.1
  at_tick : ∀ e ∈ entries, ∀ bid ∈ e.2.bids, bid.tick = e.1
  active : ∀ e ∈ entries, e.2.hasActive = true

section
variable {entries : List (Tick × Bucket)} {tick : Tick} {bucket : Bucket}

/-- The buckets after the first one fall, too. -/
theorem Descending.tail (h : Descending ((tick, bucket) :: entries)) : Descending entries :=
  ⟨(List.pairwise_cons.1 h.ticks).2, fun e he => h.at_tick e (List.mem_cons_of_mem _ he),
    fun e he => h.active e (List.mem_cons_of_mem _ he)⟩

/-- The active offers of the first bucket are at its tick. -/
theorem Descending.head_tick (h : Descending ((tick, bucket) :: entries)) :
    ∀ o ∈ bucket.active.map Bid.offer, o.tick = tick := by
  intro o ho
  obtain ⟨bid, hbid, rfl⟩ := List.mem_map.1 ho
  exact h.at_tick _ List.mem_cons_self bid (List.mem_filter.1 hbid).1

/-- And there is one. -/
theorem Descending.exists_head (h : Descending ((tick, bucket) :: entries)) :
    ∃ o ∈ bucket.active.map Bid.offer, o.tick = tick := by
  have hne := Bucket.hasActive_iff.1 (h.active _ List.mem_cons_self)
  obtain ⟨bid, hbid⟩ := List.exists_mem_of_ne_nil _ hne
  have hmem : bid.offer ∈ bucket.active.map Bid.offer := List.mem_map_of_mem hbid
  exact ⟨bid.offer, hmem, h.head_tick _ hmem⟩

/-- Every offer is at the tick of a bucket. -/
theorem Descending.mem_offersOf (h : Descending entries) {o : Offer} (ho : o ∈ offersOf entries) :
    ∃ e ∈ entries, e.1 = o.tick := by
  obtain ⟨e, he, ho⟩ := List.mem_flatMap.1 ho
  obtain ⟨bid, hbid, rfl⟩ := List.mem_map.1 ho
  exact ⟨e, he, (h.at_tick e he bid (List.mem_filter.1 hbid).1).symm⟩

/-- The offers after the first bucket are below its tick. -/
theorem Descending.tail_tick (h : Descending ((tick, bucket) :: entries)) :
    ∀ o ∈ offersOf entries, o.tick < tick := by
  intro o ho
  obtain ⟨e, he, heq⟩ := h.tail.mem_offersOf ho
  rw [← heq]
  exact (List.pairwise_cons.1 h.ticks).1 e he

/-- Offers above all buckets stay above the rest when they are joined by those of the first. -/
theorem Descending.above_tail (h : Descending ((tick, bucket) :: entries)) {high : List Offer}
    (habove : ∀ o ∈ high, ∀ e ∈ (tick, bucket) :: entries, e.1 < o.tick) :
    ∀ o ∈ high ++ bucket.active.map Bid.offer, ∀ e ∈ entries, e.1 < o.tick := by
  intro o ho e he
  rcases List.mem_append.1 ho with ho | ho
  · exact habove o ho e (List.mem_cons_of_mem _ he)
  · rw [h.head_tick o ho]
    exact (List.pairwise_cons.1 h.ticks).1 e he

end

namespace Offer

variable {t : Tick} {high own low : List Offer} (hhigh : ∀ o ∈ high, t < o.tick)
  (hown : ∀ o ∈ own, o.tick = t) (hlow : ∀ o ∈ low, o.tick < t)
include hhigh hown hlow

/-! ## A list of offers that is sorted around a tick -/

/-- Of offers that fall past a tick, the first ones are above it. -/
theorem above_sorted : above t (high ++ (own ++ low)) = high := by
  rw [above_append, above_append, above_eq_self hhigh,
    above_eq_nil fun o ho => Int.le_of_eq (congrArg Tick.index (hown o ho)),
    above_eq_nil fun o ho => Int.le_of_lt (hlow o ho), List.append_nil, List.append_nil]

/-- Those in the middle are at it. -/
theorem level_sorted : level t (high ++ (own ++ low)) = own := by
  rw [level_append, level_append, level_eq_self hown,
    level_eq_nil fun o ho h => Tick.lt_irrefl o.tick (by
      have := hhigh o ho
      rwa [← h] at this),
    level_eq_nil fun o ho h => Tick.lt_irrefl o.tick (by
      have := hlow o ho
      rwa [← h] at this),
    List.append_nil, List.nil_append]

/-- And both together are those from it on. -/
theorem upper_sorted : upper t (high ++ (own ++ low)) = high ++ own := by
  rw [upper_append, upper_append, upper_eq_self fun o ho => Int.le_of_lt (hhigh o ho),
    upper_eq_self fun o ho => Int.le_of_eq (congrArg Tick.index (hown o ho)).symm,
    upper_eq_nil hlow, List.append_nil]

omit hhigh in
/-- From a higher tick upwards only the higher offers count. -/
theorem upper_sorted_of_lt {s : Tick} (hs : t < s) :
    upper s (high ++ (own ++ low)) = upper s high := by
  have hown' : ∀ o ∈ own, o.tick < s := fun o ho => by
    rw [hown o ho]
    exact hs
  rw [upper_append, upper_append, upper_eq_nil hown',
    upper_eq_nil fun o ho => Int.lt_trans (hlow o ho) hs, List.append_nil, List.append_nil]

/-- If no higher offers reach a cap among themselves, the first tick to reach one clears. -/
theorem clearsAt_sorted {caps : Caps} (hne : ∃ o ∈ own, o.tick = t)
    (hr : Reaches caps (high ++ own)) (hnone : ∀ o ∈ high, ¬ Reaches caps (upper o.tick high)) :
    ClearsAt caps (high ++ (own ++ low)) t := by
  refine ⟨?_, ?_, ?_⟩
  · obtain ⟨o, ho, htick⟩ := hne
    exact ⟨o, by simp [ho], htick⟩
  · rwa [upper_sorted hhigh hown hlow]
  · intro o ho hlt
    have hmem : o ∈ above t (high ++ (own ++ low)) := mem_above.2 ⟨ho, hlt⟩
    rw [above_sorted hhigh hown hlow] at hmem
    rw [upper_sorted_of_lt hown hlow hlt]
    exact hnone o hmem

omit hlow in
/-- If they do not reach one with the offers at the tick, no offers do so far. -/
theorem not_reaches_sorted {caps : Caps} (hr : ¬ Reaches caps (high ++ own))
    (hnone : ∀ o ∈ high, ¬ Reaches caps (upper o.tick high)) :
    ∀ o ∈ high ++ own, ¬ Reaches caps (upper o.tick (high ++ own)) := by
  have hnil : ∀ o ∈ ([] : List Offer), o.tick < t := fun _ ho => nomatch ho
  intro o ho
  rcases List.mem_append.1 ho with ho | ho
  · have hcut : upper o.tick (high ++ (own ++ [])) = upper o.tick high :=
      upper_sorted_of_lt hown hnil (hhigh o ho)
    rw [List.append_nil] at hcut
    rw [hcut]
    exact hnone o ho
  · have hcut := upper_sorted hhigh hown hnil
    rw [List.append_nil] at hcut
    rwa [hown o ho, hcut]

end Offer

/-! ## The scan -/

/-- What a scan finds among some offers. -/
inductive ClearingScan.Finds (caps : Caps) (offers : List Offer) : ClearingScan → Prop
  /-- The tick at which they clear, with the sums above it and at it. -/
  | clears {t : Tick} {above bucket : Totals} : ClearsAt caps offers t →
      above.Sums (Offer.above t offers) → bucket.Sums (level t offers) →
      Finds caps offers (.found t above bucket)
  /-- They do not clear, and the sums are those of all. -/
  | short {all : Totals} : (∀ t, ¬ ClearsAt caps offers t) → all.Sums offers →
      Finds caps offers (.underfunded all)

/-- A scan finds one thing. -/
theorem ClearingScan.Finds.unique {caps : Caps} {offers : List Offer} {scan scan' : ClearingScan}
    (h : scan.Finds caps offers) (h' : scan'.Finds caps offers) : scan = scan' := by
  cases h with
  | clears ht ha hb =>
    cases h' with
    | clears ht' ha' hb' =>
      obtain rfl := ht.unique ht'
      rw [ha.unique ha', hb.unique hb']
    | short hn => exact absurd ht (hn _)
  | short hn hs =>
    cases h' with
    | clears ht' => exact absurd ht' (hn _)
    | short _ hs' => rw [hs.unique hs']

/-- What a scan finds does not depend on the order of the offers. -/
theorem ClearingScan.Finds.of_perm {caps : Caps} {offers offers' : List Offer}
    {scan : ClearingScan} (h : scan.Finds caps offers) (hp : offers.Perm offers') :
    scan.Finds caps offers' := by
  cases h with
  | clears ht ha hb =>
    exact .clears (ht.of_perm hp) (ha.of_perm (hp.filter _)) (hb.of_perm (hp.filter _))
  | short hn hs => exact .short (fun t ht => hn t (ht.of_perm hp.symm)) (hs.of_perm hp)

/-- Scanning buckets in descending order finds where the offers clear. -/
theorem ClearingScan.ofBuckets_finds {caps : Caps} {entries : List (Tick × Bucket)} :
    ∀ {sums : Totals} {high : List Offer} {scan : ClearingScan}, Descending entries →
      (∀ o ∈ high, ∀ e ∈ entries, e.1 < o.tick) → sums.Sums high →
      (∀ o ∈ high, ¬ Reaches caps (upper o.tick high)) →
      ofBuckets caps sums entries = .ok scan → scan.Finds caps (high ++ offersOf entries) := by
  induction entries with
  | nil =>
    intro sums high scan _ _ hsums hhigh h
    cases h
    rw [offersOf, List.flatMap_nil, List.append_nil]
    refine .short (fun t ht => ?_) hsums
    obtain ⟨⟨o, ho, rfl⟩, hr, -⟩ := ht
    exact hhigh o ho hr
  | cons e entries ih =>
    intro sums high scan hd habove hsums hhigh h
    obtain ⟨tick, bucket⟩ := e
    unfold ofBuckets at h
    simp only [bind_eq_ok_iff, mapError_eq_ok_iff] at h
    obtain ⟨p, hp, totals, htotals, through, hthrough, h⟩ := h
    have hown := Bucket.sums_totals hp (hd.at_tick _ List.mem_cons_self) htotals
    have hall := hsums.add hown hthrough
    have hhead : ∀ o ∈ high, tick < o.tick := fun o ho => habove o ho _ List.mem_cons_self
    have hsplit : offersOf ((tick, bucket) :: entries) =
        bucket.active.map Bid.offer ++ offersOf entries := rfl
    rw [hsplit]
    split at h
    · rename_i hreach
      cases h
      have hclears := Offer.clearsAt_sorted hhead hd.head_tick hd.tail_tick hd.exists_head
        (hall.reaches_iff.1 hreach) hhigh
      refine .clears hclears ?_ ?_
      · rwa [Offer.above_sorted hhead hd.head_tick hd.tail_tick]
      · rwa [Offer.level_sorted hhead hd.head_tick hd.tail_tick]
    · rename_i hreach
      have hnone := Offer.not_reaches_sorted hhead hd.head_tick (mt hall.reaches_iff.2 hreach) hhigh
      rw [← List.append_assoc]
      exact ih hd.tail (hd.above_tail habove) hall hnone h

namespace Book

variable {b : Book} {caps : Caps}

/-- The offers of all bids. -/
def offers (b : Book) : List Offer := b.bids.map Bid.offer

/-- The offers of the bids that have not been closed. -/
def activeOffers (b : Book) : List Offer := b.activeBids.map Bid.offer

/-- The live buckets of a book whose bids are in place fall strictly. -/
theorem Placed.descending (h : b.Placed) : Descending b.activeDescending where
  ticks := (List.pairwise_reverse.2 b.buckets.ascending).filter _
  at_tick e he bid hb := h e (List.mem_reverse.1 (List.mem_filter.1 he).1) bid hb
  active _ he := (List.mem_filter.1 he).2

/-- In particular they do if every bid is found by its handle. -/
theorem Indexed.descending (h : b.Indexed) : Descending b.activeDescending := h.placed.descending

/-- Buckets without an active bid have no offers. -/
theorem offersOf_filter (entries : List (Tick × Bucket)) :
    offersOf (entries.filter fun e => e.2.hasActive) = offersOf entries := by
  induction entries with
  | nil => rfl
  | cons e entries ih =>
    by_cases h : e.2.hasActive = true
    · rw [List.filter_cons_of_pos (by exact h)]
      exact congrArg (_ ++ ·) ih
    · have hnil : e.2.active = [] := by
        by_contra hne
        exact h (Bucket.hasActive_iff.2 hne)
      rw [List.filter_cons_of_neg (by exact h), ih, offersOf, offersOf, List.flatMap_cons, hnil]
      rfl

/-- All buckets together have the active offers of the book. -/
theorem offersOf_entries (b : Book) : offersOf b.buckets.entries = b.activeOffers := by
  unfold activeOffers activeBids bids bidsOf offersOf
  rw [List.filter_flatMap, List.map_flatMap]
  rfl

/-- The buckets of the scan hold the active offers. -/
theorem offersOf_activeDescending (b : Book) :
    (offersOf b.activeDescending).Perm b.activeOffers := by
  rw [activeDescending, offersOf_filter, ← offersOf_entries]
  exact (List.reverse_perm _).flatMap_right _

/-- A scan that succeeds finds where the active offers clear. -/
theorem Placed.scan_finds {scan : ClearingScan} (hp : b.Placed) (h : b.scan caps = .ok scan) :
    scan.Finds caps b.activeOffers := by
  have hfinds : scan.Finds caps ([] ++ offersOf b.activeDescending) :=
    ClearingScan.ofBuckets_finds hp.descending (by simp) Totals.sums_zero (by simp) h
  exact hfinds.of_perm b.offersOf_activeDescending

/-- So a scan of the book finds where its active offers clear. -/
theorem scan_finds {scan : ClearingScan} (hi : b.Indexed) (h : b.scan caps = .ok scan) :
    scan.Finds caps b.activeOffers := hi.placed.scan_finds h

end Book

end BatchAuction
