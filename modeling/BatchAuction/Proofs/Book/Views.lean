import BatchAuction.Proofs.Book.Bids

/-!
# The views of a book

All views of a book speak about one list of bids. In a book whose handles find the bids that carry
them, that list ascends by tick and position (`Book.Indexed.bids_sorted`), and the bids below a tick
and those from it upwards are its two parts (`Book.bidsBelow_append`). The ticks with an active bid
descend, and the last of them is the lowest one (`Book.lowestActiveTick?_eq_getLast?`). A bucket
without an active bid stays in the book but is in none of the active views.
-/

namespace BatchAuction

open Ranked (rank)

/-- One bid stands before another: at a lower tick, or at the same tick and a lower position. -/
def Bid.Before (x y : Bid) : Prop := x.tick < y.tick ∨ x.tick = y.tick ∧ x.index < y.index

/-- Bids that follow on each other have different handles. -/
theorem Bid.Before.ref_ne {x y : Bid} (h : x.Before y) : x.ref ≠ y.ref := by
  intro heq
  obtain ⟨htick, hindex⟩ := BidRef.mk.inj heq
  rcases h with hlt | ⟨-, hlt⟩
  · exact Tick.lt_irrefl y.tick (htick ▸ hlt)
  · exact Nat.ne_of_lt hlt hindex

namespace Book

variable {b : Book} {t : Tick} {ref : BidRef} {bid : Bid}

/-! ## The order of the bids -/

/-- The bids ascend by tick and position. -/
theorem Indexed.bids_sorted (h : b.Indexed) : b.bids.Pairwise Bid.Before := by
  refine List.pairwise_flatMap.2 ⟨fun e he => ?_, ?_⟩
  · refine List.pairwise_iff_getElem.2 fun i j hi hj hij => ?_
    obtain ⟨hti, hii⟩ := BidRef.mk.inj (h.ref_getElem he hi)
    obtain ⟨htj, hij'⟩ := BidRef.mk.inj (h.ref_getElem he hj)
    exact .inr ⟨hti.trans htj.symm, by rwa [hii, hij']⟩
  · refine b.buckets.ascending.imp_of_mem fun {e e'} he he' hlt x hx y hy => .inl ?_
    rw [h.tick_of_mem he hx, h.tick_of_mem he' hy]
    exact hlt

/-- No bid is listed twice. -/
theorem Indexed.nodup_bids (h : b.Indexed) : b.bids.Nodup :=
  h.bids_sorted.imp fun hb heq => hb.ref_ne (congrArg Bid.ref heq)

/-- Closing a bid changes it in its place and no other bid. -/
theorem Indexed.bids_close (h : b.Indexed) (hget : b.get? ref = some bid) :
    (b.close ref).bids = b.bids.map fun x => if x.ref = ref then x.close else x := by
  obtain ⟨l, r, hbids, hclose⟩ := Book.bids_close hget
  have hsorted := h.bids_sorted
  rw [hbids] at hsorted
  obtain ⟨-, hsorted, hbefore⟩ := List.pairwise_append.1 hsorted
  obtain ⟨hafter, -⟩ := List.pairwise_cons.1 hsorted
  have href : bid.ref = ref := h ref bid hget
  have others {m : List Bid} (hne : ∀ x ∈ m, x.ref ≠ ref) :
      (m.map fun x => if x.ref = ref then x.close else x) = m := by
    refine (List.map_congr_left fun x hx => ?_).trans (List.map_id m)
    exact if_neg (hne x hx)
  rw [hclose, hbids, List.map_append, List.map_cons, if_pos href, others, others]
  · intro x hx heq
    exact (hafter x hx).ref_ne (href.trans heq.symm)
  · intro x hx heq
    exact (hbefore x hx bid List.mem_cons_self).ref_ne (heq.trans href.symm)

/-! ## Both sides of a tick -/

/-- Sorted buckets are those below a tick and then the others. -/
theorem filter_below_append (t : Tick) {entries : List (Tick × Bucket)}
    (h : entries.Pairwise fun e e' => rank e.1 < rank e'.1) :
    (entries.filter fun e => decide (e.1 < t)) ++ (entries.filter fun e => decide (t ≤ e.1)) =
      entries := by
  induction entries with
  | nil => rfl
  | cons e entries ih =>
    obtain ⟨hhead, htail⟩ := List.pairwise_cons.1 h
    by_cases hlt : e.1 < t
    · have hnot : ¬ t ≤ e.1 := Int.not_le.2 hlt
      simp [hlt, hnot, ih htail]
    · -- from here on all ticks are at or above `t`
      have hall : ∀ e' ∈ e :: entries, t ≤ e'.1 := by
        intro e' he'
        rcases List.mem_cons.1 he' with rfl | he'
        · exact Int.not_lt.1 hlt
        · exact Int.le_trans (Int.not_lt.1 hlt) (Int.le_of_lt (hhead e' he'))
      rw [List.filter_eq_nil_iff.2, List.filter_eq_self.2, List.nil_append]
      · intro e' he'
        exact decide_eq_true (hall e' he')
      · intro e' he'
        exact mt of_decide_eq_true (Int.not_lt.2 (hall e' he'))

/-- The bids below a tick, followed by those from it upwards, are all bids in their order. -/
theorem bidsBelow_append (b : Book) (t : Tick) : b.bidsBelow t ++ b.bidsAtOrAbove t = b.bids := by
  rw [bidsBelow, bidsAtOrAbove, ← bidsOf_append, filter_below_append t b.buckets.ascending, bids]

/-- The bids below a tick are strictly below it. -/
theorem Placed.tick_lt (h : b.Placed) : ∀ bid ∈ b.bidsBelow t, bid.tick < t := by
  intro bid hb
  obtain ⟨e, he, hb⟩ := List.mem_flatMap.1 hb
  obtain ⟨he, hlt⟩ := List.mem_filter.1 he
  rw [h e he bid hb]
  exact of_decide_eq_true hlt

/-- The others are at the tick or above it. -/
theorem Placed.le_tick (h : b.Placed) : ∀ bid ∈ b.bidsAtOrAbove t, t ≤ bid.tick := by
  intro bid hb
  obtain ⟨e, he, hb⟩ := List.mem_flatMap.1 hb
  obtain ⟨he, hle⟩ := List.mem_filter.1 he
  rw [h e he bid hb]
  exact of_decide_eq_true hle

/-! ## Active bids -/

/-- The ticks with an active bid fall strictly. -/
theorem ticksDescending_sorted (b : Book) : b.ticksDescending.Pairwise fun s t => t < s :=
  List.pairwise_map.2 ((List.pairwise_reverse.2 b.buckets.ascending).filter _)

/-- The ticks listed are those of the active bids. -/
theorem Placed.mem_ticksDescending (h : b.Placed) :
    t ∈ b.ticksDescending ↔ ∃ bid ∈ b.bids, bid.tick = t ∧ bid.withdrawn = false := by
  simp only [ticksDescending, activeDescending, List.mem_map, List.mem_filter, List.mem_reverse,
    Bucket.hasActive, List.any_eq_true, Bid.isActive, Bool.not_eq_true', bids, bidsOf,
    List.mem_flatMap]
  constructor
  · rintro ⟨e, ⟨he, bid, hb, hactive⟩, rfl⟩
    exact ⟨bid, ⟨e, he, hb⟩, h e he bid hb, hactive⟩
  · rintro ⟨bid, ⟨e, he, hb⟩, rfl, hactive⟩
    exact ⟨e, ⟨he, bid, hb, hactive⟩, (h e he bid hb).symm⟩

/-- The lowest of them is the last one. -/
theorem lowestActiveTick?_eq_getLast? (b : Book) :
    b.lowestActiveTick? = b.ticksDescending.getLast? := by
  rw [lowestActiveTick?, ticksDescending, activeDescending, List.getLast?_map, List.filter_reverse,
    List.getLast?_reverse, List.head?_filter]

/-- A book is live exactly if some bid in it is active. -/
theorem hasActive_iff : b.hasActive = true ↔ ∃ bid ∈ b.bids, bid.withdrawn = false := by
  simp only [hasActive, SortedMap.values, List.any_eq_true, List.mem_map, Bucket.hasActive,
    Bid.isActive, Bool.not_eq_true', bids, bidsOf, List.mem_flatMap]
  constructor
  · rintro ⟨bucket, ⟨e, he, rfl⟩, bid, hb, hactive⟩
    exact ⟨bid, ⟨e, he, hb⟩, hactive⟩
  · rintro ⟨bid, ⟨e, he, hb⟩, hactive⟩
    exact ⟨e.2, ⟨e, he, rfl⟩, bid, hb, hactive⟩

end Book

end BatchAuction
