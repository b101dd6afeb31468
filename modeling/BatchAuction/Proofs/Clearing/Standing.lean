import BatchAuction.Proofs.Clearing.Certain

/-!
# The scan answers what its definition says

The offers that stand in a book are its active bids, each at the tick of its bucket
(`Book.standing`). If their ticks are legal and both sums over them are amounts, a scan ends with a
result, and the result is the one that the definition asks for (`Book.scan_answers_highest`): a tick
is answered exactly if it is the highest one at which the offers from there upwards reach a cap.
Nothing else about the book matters, such as closed bids, buckets without an active bid, or the
order in which the bids came.

A bucket is scanned with the price of its own tick, whatever its bids say. So a book is scanned as
if each bid had the tick of its bucket (`Book.seated`), and what is known of books with all bids in
place applies. Every book that is made by recording and closing has its bids in place
(`Book.Indexed.placed`).
-/

namespace BatchAuction

open Offer (ClearsAt Fits above level)

/-- The bucket with all its bids at a tick. -/
def Bucket.seat (b : Bucket) (tick : Tick) : Bucket :=
  ⟨b.bids.map fun bid => { bid with tick := tick }⟩

namespace Bucket

variable {b : Bucket} {tick : Tick}

/-- The active bids keep everything but their tick. -/
theorem active_seat (b : Bucket) (tick : Tick) :
    (b.seat tick).active = b.active.map fun bid => { bid with tick := tick } := by
  unfold active seat
  rw [List.filter_map]
  rfl

/-- So a bucket stays live. -/
theorem hasActive_seat (b : Bucket) (tick : Tick) : (b.seat tick).hasActive = b.hasActive := by
  unfold hasActive seat
  rw [List.any_map]
  rfl

/-- The totals of a bucket do not depend on the ticks of its bids. -/
theorem totals_seat (b : Bucket) (tick : Tick) (p : Price) :
    (b.seat tick).totals p = b.totals p := by
  unfold totals
  rw [active_seat, List.foldlM_map]

/-- A bucket whose bids are at the tick already stays as it is. -/
theorem seat_eq_self (h : ∀ bid ∈ b.bids, bid.tick = tick) : b.seat tick = b := by
  obtain ⟨bids⟩ := b
  have hsame : bids.map (fun bid => { bid with tick := tick }) = bids.map id :=
    List.map_congr_left fun bid hb => by
      rw [← h bid hb]
      rfl
  rw [seat, hsame, List.map_id]

end Bucket

/-- Scanning sees the same in buckets whose bids are moved to the ticks of the buckets. -/
theorem ClearingScan.ofBuckets_seat {caps : Caps} {entries : List (Tick × Bucket)} :
    ∀ {sums : Totals}, ofBuckets caps sums (entries.map fun e => (e.1, e.2.seat e.1)) =
      ofBuckets caps sums entries := by
  induction entries with
  | nil => exact rfl
  | cons e entries ih =>
    intro sums
    obtain ⟨tick, bucket⟩ := e
    rw [List.map_cons]
    simp only [ofBuckets, Bucket.totals_seat, ih]

namespace Book

variable {b : Book} {caps : Caps}

/-- The offers of the active bids, each at the tick of its bucket. -/
def standing (b : Book) : List Offer :=
  b.buckets.entries.flatMap fun e => e.2.active.map fun bid => ⟨e.1, bid.amount⟩

/-- The book with every bid at the tick of its bucket. -/
def seated (b : Book) : Book where
  buckets := ⟨b.buckets.entries.map fun e => (e.1, e.2.seat e.1),
    List.pairwise_map.2 b.buckets.ascending⟩
  size := b.size

/-- In it all bids are in place. -/
theorem placed_seated (b : Book) : b.seated.Placed := by
  intro e he bid hb
  obtain ⟨e', -, rfl⟩ := List.mem_map.1 he
  obtain ⟨bid', -, rfl⟩ := List.mem_map.1 hb
  rfl

/-- And the active offers are the standing ones. -/
theorem activeOffers_seated (b : Book) : b.seated.activeOffers = b.standing := by
  rw [← offersOf_entries]
  show (b.buckets.entries.map fun e => (e.1, e.2.seat e.1)).flatMap
    (fun e => e.2.active.map Bid.offer) = _
  rw [List.flatMap_map]
  refine List.flatMap_congr fun e _ => ?_
  show (e.2.seat e.1).active.map Bid.offer = _
  rw [Bucket.active_seat, List.map_map]
  rfl

/-- A book with all bids in place is as it is. -/
theorem Placed.seated_eq (h : b.Placed) : b.seated = b := by
  refine Book.ext (SortedMap.ext ?_) rfl
  show b.buckets.entries.map (fun e => (e.1, e.2.seat e.1)) = _
  have hsame : b.buckets.entries.map (fun e => (e.1, e.2.seat e.1)) =
      b.buckets.entries.map id :=
    List.map_congr_left fun e he => by rw [Bucket.seat_eq_self (h e he), id]
  rw [hsame, List.map_id]

/-- The offers that stand in a book with all bids in place are those of its active bids. -/
theorem Placed.standing_eq (h : b.Placed) : b.standing = b.activeOffers := by
  rw [← activeOffers_seated, h.seated_eq]

/-- A scan does not look at the ticks of the bids. -/
theorem scan_seated (b : Book) (caps : Caps) : b.seated.scan caps = b.scan caps := by
  have hbuckets : b.seated.activeDescending =
      b.activeDescending.map fun e => (e.1, e.2.seat e.1) := by
    unfold activeDescending
    show ((b.buckets.entries.map fun e => (e.1, e.2.seat e.1)).reverse).filter _ = _
    rw [← List.map_reverse, List.filter_map]
    congr 1
    exact List.filter_congr fun e _ => Bucket.hasActive_seat e.2 e.1
  unfold scan
  rw [hbuckets, ClearingScan.ofBuckets_seat]

/-- What a scan finds in any book, it finds among the offers that stand there. -/
theorem scan_standing {scan : ClearingScan} (h : b.scan caps = .ok scan) :
    scan.Finds caps b.standing := by
  rw [← activeOffers_seated]
  exact b.placed_seated.scan_finds ((b.scan_seated caps).trans h)

/-- A scan of offers that fit ends with a result. -/
theorem exists_scan_standing (h : Fits b.standing) : ∃ scan, b.scan caps = .ok scan := by
  rw [← scan_seated]
  exact b.placed_seated.exists_scan (b.activeOffers_seated.symm ▸ h)

end Book

namespace ClearingScan.Finds

variable {caps : Caps} {offers : List Offer} {scan : ClearingScan}

/-- A scan answers a tick exactly if the offers clear there. -/
theorem clearingTick_iff (h : scan.Finds caps offers) (t : Tick) :
    scan.result.clearingTick = some t ↔ ClearsAt caps offers t := by
  cases h with
  | clears ht =>
    constructor
    · intro heq
      cases heq
      exact ht
    · intro ht'
      exact congrArg some (ht.unique ht')
  | short hn => exact ⟨fun heq => (nomatch heq), fun ht => absurd ht (hn t)⟩

/-- And it finds a price exactly if it answers a tick. -/
theorem priceFound_iff (h : scan.Finds caps offers) :
    scan.result.priceFound = true ↔ ∃ t, scan.result.clearingTick = some t := by
  cases h with
  | clears ht => exact ⟨fun _ => ⟨_, rfl⟩, fun _ => rfl⟩
  | short => exact ⟨fun hf => (nomatch hf), fun ⟨_, heq⟩ => nomatch heq⟩

/-- A scan answers no tick exactly if the offers reach a cap from none of their ticks upwards. -/
theorem clearingTick_eq_none_iff (h : scan.Finds caps offers) :
    scan.result.clearingTick = none ↔
      ∀ o ∈ offers, ¬ Offer.Reaches caps (Offer.upper o.tick offers) := by
  constructor
  · intro hnone o ho hr
    obtain ⟨t, ht, -⟩ := Offer.exists_clearsAt ho hr
    exact nomatch hnone.symm.trans ((h.clearingTick_iff t).2 ht)
  · intro hn
    refine Option.eq_none_iff_forall_ne_some.2 fun t heq => ?_
    obtain ⟨⟨o, ho, rfl⟩, hr, -⟩ := (h.clearingTick_iff t).1 heq
    exact hn o ho hr

/-- The sums that come with a tick are those above it and at it. -/
theorem sums_of_some {t : Tick} (h : scan.Finds caps offers)
    (ht : scan.result.clearingTick = some t) :
    (Totals.mk scan.result.baseAbove scan.result.scarceAbove).Sums (above t offers) ∧
      ∃ bucket, scan.bucket = some bucket ∧ bucket.Sums (level t offers) := by
  cases h with
  | clears _ ha hb =>
    cases ht
    exact ⟨ha, _, rfl, hb⟩
  | short => cases ht

/-- The sums that come without a tick are those of all offers. -/
theorem sums_of_none (h : scan.Finds caps offers) (ht : scan.result.clearingTick = none) :
    (Totals.mk scan.result.baseAbove scan.result.scarceAbove).Sums offers ∧
      scan.bucket = none := by
  cases h with
  | clears => cases ht
  | short _ hs => exact ⟨hs, rfl⟩

end ClearingScan.Finds

namespace Book

/-- Let the offers that stand in a book be at legal ticks, and let the base offered and the scarce
demanded by all of them be amounts. Then the scan has a result, under any caps. It answers a tick
exactly if that is the highest tick with an active bid at which the base offered or the scarce
demanded from there upwards reaches its cap, and it finds a price exactly if it answers a tick. The
sums above the tick and at it come with it. It answers no tick exactly if no cap is reached from any
tick of the offers upwards; then it gives no bucket, and the sums of all. Another book with the same
offers, in any order, has the same result. In a book with all bids in place the offers are those of
its active bids. Each offer demands what its amount buys at the price of its tick, rounded down. -/
theorem scan_answers_highest (b : Book) (caps : Caps) (hlegal : ∀ o ∈ b.standing, o.tick.Legal)
    (hbase : (b.standing.map Offer.base).sum < Amount.modulus)
    (hdemand : (b.standing.map Offer.demand).sum < Amount.modulus) :
    (∃ scan, b.scan caps = .ok scan ∧ b.clearing caps = .ok scan.result ∧
      (∀ t, scan.result.clearingTick = some t ↔
        (∃ o ∈ b.standing, o.tick = t) ∧ Offer.Reaches caps (Offer.upper t b.standing) ∧
          ∀ o ∈ b.standing, t < o.tick → ¬ Offer.Reaches caps (Offer.upper o.tick b.standing)) ∧
      (scan.result.priceFound = true ↔ ∃ t, scan.result.clearingTick = some t) ∧
      (∀ t, scan.result.clearingTick = some t → ∃ bucket, scan.bucket = some bucket ∧
        scan.result.baseAbove.toNat = ((above t b.standing).map Offer.base).sum ∧
        scan.result.scarceAbove.toNat = ((above t b.standing).map Offer.demand).sum ∧
        bucket.base.toNat = ((level t b.standing).map Offer.base).sum ∧
        bucket.scarce.toNat = ((level t b.standing).map Offer.demand).sum) ∧
      (scan.result.clearingTick = none ↔
        ∀ o ∈ b.standing, ¬ Offer.Reaches caps (Offer.upper o.tick b.standing)) ∧
      (scan.result.clearingTick = none → scan.result.priceFound = false ∧ scan.bucket = none ∧
        scan.result.baseAbove.toNat = (b.standing.map Offer.base).sum ∧
        scan.result.scarceAbove.toNat = (b.standing.map Offer.demand).sum)) ∧
    (∀ b' : Book, b'.standing.Perm b.standing → b'.scan caps = b.scan caps) ∧
    (b.Placed → b.standing = b.activeOffers) ∧
    ∀ o ∈ b.standing, ∃ p, o.tick.price = .ok p ∧ 0 < p.raw.toNat ∧
      o.demand = o.amount.toNat * Amount.scale.toNat / p.raw.toNat := by
  have hfits : Fits b.standing := ⟨hlegal, hbase, hdemand⟩
  obtain ⟨scan, hscan⟩ : ∃ scan, b.scan caps = .ok scan := exists_scan_standing hfits
  have hfinds := scan_standing hscan
  refine ⟨⟨scan, hscan, map_eq_ok_iff.2 ⟨scan, hscan, rfl⟩, hfinds.clearingTick_iff,
    hfinds.priceFound_iff, fun t ht => ?_, hfinds.clearingTick_eq_none_iff, fun hnone => ?_⟩,
    fun b' hperm => ?_, Placed.standing_eq, fun o ho => ?_⟩
  · obtain ⟨hsums, bucket, hbucket, hown⟩ := hfinds.sums_of_some ht
    exact ⟨bucket, hbucket, hsums.base, hsums.scarce, hown.base, hown.scarce⟩
  · obtain ⟨hsums, hbucket⟩ := hfinds.sums_of_none hnone
    refine ⟨Bool.eq_false_iff.2 fun hf => ?_, hbucket, hsums.base, hsums.scarce⟩
    obtain ⟨t, ht⟩ := hfinds.priceFound_iff.1 hf
    exact nomatch hnone.symm.trans ht
  · obtain ⟨scan', hscan'⟩ : ∃ scan, b'.scan caps = .ok scan :=
      exists_scan_standing (hfits.of_perm hperm)
    rw [hscan', hscan, ((scan_standing hscan').of_perm hperm).unique hfinds]
  · have hp : o.tick.price = .ok ⟨Price.power o.tick.index⟩ :=
      Tick.price_eq_ok_iff.2 ⟨hlegal o ho, rfl⟩
    exact ⟨_, hp, Tick.price_raw_pos hp, rfl⟩

/-- A bucket with an active bid, one with an active and a closed bid, and one with a closed bid. -/
def mixed (bidder : Account) : Book :=
  let high := (empty.record (.clamp 10) bidder 70 .zero).2
  let middle := ((high.record .zero bidder 500 .zero).2.record .zero bidder 60 .zero).2
  let all := (middle.record (.clamp (-10)) bidder 500 .zero).2
  (all.close ⟨.zero, 0⟩).close ⟨.clamp (-10), 0⟩

/-- Without the closed bids, it clears at the lower of its two active ticks, and under caps that its
active bids do not reach it clears nowhere. -/
theorem mixed_scan_answers_highest :
    (mixed ⟨1, by decide⟩).standing = [⟨.zero, 60⟩, ⟨.clamp 10, 70⟩] ∧
      (∃ scan, (mixed ⟨1, by decide⟩).scan ⟨100, 200⟩ = .ok scan ∧
        scan.result.clearingTick = some .zero ∧ scan.result.baseAbove.toNat = 70 ∧
        ∃ bucket ∈ scan.bucket, bucket.base.toNat = 60) ∧
      ∃ scan, (mixed ⟨1, by decide⟩).scan ⟨131, 200⟩ = .ok scan ∧
        scan.result.clearingTick = none ∧ scan.result.priceFound = false ∧
        scan.result.baseAbove.toNat = 130 := by
  obtain ⟨⟨scan, hscan, -, hiff, -, hsums, -⟩, -⟩ :=
    scan_answers_highest (mixed ⟨1, by decide⟩) ⟨100, 200⟩ (by decide +kernel) (by decide +kernel)
      (by decide +kernel)
  obtain ⟨⟨scan', hscan', -, -, -, -, hnone, hall⟩, -⟩ :=
    scan_answers_highest (mixed ⟨1, by decide⟩) ⟨131, 200⟩ (by decide +kernel) (by decide +kernel)
      (by decide +kernel)
  have htick : scan.result.clearingTick = some .zero := (hiff .zero).2 (by decide +kernel)
  have hno : scan'.result.clearingTick = none := hnone.2 (by decide +kernel)
  obtain ⟨bucket, hbucket, habove, -, hown, -⟩ := hsums .zero htick
  obtain ⟨hfound, -, hbase, -⟩ := hall hno
  refine ⟨by decide +kernel,
    ⟨scan, hscan, htick, habove.trans (by decide +kernel), bucket, hbucket, ?_⟩,
    scan', hscan', hno, hfound, hbase.trans (by decide +kernel)⟩
  exact hown.trans (by decide +kernel)

end Book

end BatchAuction
