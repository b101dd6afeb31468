import BatchAuction.Proofs.Amount.Result
import BatchAuction.Proofs.Tick.Order
import BatchAuction.Tick.Nearest

/-!
# The nearest tick is found

`Tick.Nearest` says of a legal tick that no legal tick has a price closer to a target, and none
below it one equally close. There is one such tick (`Tick.Nearest.unique`), at either end of the
ladder for the prices beyond it and the tick itself for its own price.

`Price.Search` is a search in exact terms: it names the ticks at which a search looks, in order, and
its answer. Each of them has a price, so it is legal, and the differences between which the search
decides at the end are those of the numbers. A search that is held between its ends
(`Price.Bracket`) can be carried out (`Price.Bracket.exists_search`), and its answer is the nearest
tick (`Price.Search.nearest`). The induction is on the length of the range; the invariant is that
all prices below the range are too low and all prices above it are too high.
-/

namespace BatchAuction

/-- How far two amounts are apart. -/
def Amount.distance (a b : Amount) : Nat := ((a.toNat : Int) - b.toNat).natAbs

/-! ## The nearest tick -/

namespace Tick

/-- No legal tick has a price closer to the target, and no lower one a price equally close. -/
structure Nearest (target : Amount) (t : Tick) (p : Price) : Prop where
  price : t.price = .ok p
  le : ∀ (s : Tick) (q : Price), s.price = .ok q → p.raw.distance target ≤ q.raw.distance target
  low : ∀ (s : Tick) (q : Price), s.price = .ok q →
    q.raw.distance target = p.raw.distance target → t ≤ s

variable {target : Amount} {s t : Tick} {p q : Price}

/-- There is one nearest tick. -/
theorem Nearest.unique (hs : Nearest target s p) (ht : Nearest target t q) : s = t := by
  have heq : p.raw.distance target = q.raw.distance target :=
    Nat.le_antisymm (hs.le t q ht.price) (ht.le s p hs.price)
  exact Tick.ext (Int.le_antisymm (hs.low t q ht.price heq.symm) (ht.low s p hs.price heq))

/-- Prices are ordered as their ticks. -/
theorem price_lt_iff (hs : s.price = .ok p) (ht : t.price = .ok q) :
    p.raw.toNat < q.raw.toNat ↔ s.index < t.index := by
  constructor
  · intro h
    by_contra hnot
    exact Nat.not_le.2 h (price_mono (Int.not_lt.1 hnot) ht hs)
  · exact fun h => price_lt h hs ht

/-- A tick is the nearest one to its own price. -/
theorem nearest_price (h : t.price = .ok p) : Nearest p.raw t p := by
  refine ⟨h, fun s q hs => ?_, fun s q hs heq => ?_⟩
  · unfold Amount.distance
    omega
  · have hlt := price_lt_iff hs h
    unfold Amount.distance at heq
    rw [Tick.le_iff]
    omega

/-- The lowest legal tick is the nearest one to any price that is not above its own. -/
theorem nearest_lowest (h : lowest.price = .ok p) (hle : target ≤ p.raw) :
    Nearest target lowest p := by
  rw [Amount.le_iff] at hle
  have above {s : Tick} {q : Price} (hs : s.price = .ok q) : lowest ≤ s ∧ p.raw ≤ q.raw := by
    have hlegal := (price_eq_ok_iff.1 hs).1
    exact ⟨hlegal.1, price_mono hlegal.1 h hs⟩
  refine ⟨h, fun s q hs => ?_, fun s q hs _ => (above hs).1⟩
  have hpq := (above hs).2
  rw [Amount.le_iff] at hpq
  unfold Amount.distance
  omega

/-- The highest legal tick is the nearest one to any price that is not below its own. -/
theorem nearest_highest (h : highest.price = .ok p) (hle : p.raw ≤ target) :
    Nearest target highest p := by
  rw [Amount.le_iff] at hle
  have below {s : Tick} {q : Price} (hs : s.price = .ok q) : s ≤ highest ∧ q.raw ≤ p.raw := by
    have hlegal := (price_eq_ok_iff.1 hs).1
    exact ⟨hlegal.2, price_mono hlegal.2 hs h⟩
  refine ⟨h, fun s q hs => ?_, fun s q hs heq => ?_⟩
  · have hqp := (below hs).2
    rw [Amount.le_iff] at hqp
    unfold Amount.distance
    omega
  · have hlt := price_lt_iff hs h
    have hsh : s.index ≤ highest.index := (below hs).1
    unfold Amount.distance at heq
    rw [Tick.le_iff]
    omega

end Tick

/-! ## Searches -/

namespace Price

/-- A search for a price between two indices: the ticks whose prices it compares with the target,
and the tick that it answers. -/
inductive Search (target : Amount) : Int → Int → List Tick → Tick → Prop
  /-- The middle tick has the price. -/
  | met {lower upper : Int} {t : Tick} {p : Price} :
      lower ≤ upper → t.index = midpoint lower upper → t.price = .ok p → p.raw = target →
      Search target lower upper [t] t
  /-- The middle tick has a lower price. -/
  | up {lower upper : Int} {t answer : Tick} {p : Price} {seen : List Tick} :
      lower ≤ upper → t.index = midpoint lower upper → t.price = .ok p → p.raw < target →
      Search target (t.index + 1) upper seen answer →
      Search target lower upper (t :: seen) answer
  /-- The middle tick has a higher price. -/
  | down {lower upper : Int} {t answer : Tick} {p : Price} {seen : List Tick} :
      lower ≤ upper → t.index = midpoint lower upper → t.price = .ok p → target < p.raw →
      Search target lower (t.index - 1) seen answer →
      Search target lower upper (t :: seen) answer
  /-- The range is empty, and no legal tick is above it. -/
  | highest {lower upper : Int} :
      upper < lower → Tick.highest.index < lower → Search target lower upper [] Tick.highest
  /-- The range is empty, and no legal tick is below it. -/
  | lowest {lower upper : Int} :
      upper < lower → lower ≤ Tick.highest.index → upper < Tick.lowest.index →
      Search target lower upper [] Tick.lowest
  /-- The range is empty between two legal ticks, and the upper one is closer. -/
  | ceiling {above below : Tick} {p q : Price} :
      below < above → above.price = .ok p → below.price = .ok q → target ≤ p.raw → q.raw ≤ target →
      p.raw.toNat - target.toNat < target.toNat - q.raw.toNat →
      Search target above.index below.index [above, below] above
  /-- The range is empty between two legal ticks, and the upper one is not closer. -/
  | floor {above below : Tick} {p q : Price} :
      below < above → above.price = .ok p → below.price = .ok q → target ≤ p.raw → q.raw ≤ target →
      target.toNat - q.raw.toNat ≤ p.raw.toNat - target.toNat →
      Search target above.index below.index [above, below] below

variable {target : Amount} {lower upper : Int} {seen : List Tick} {answer : Tick}

/-- A search looks at legal ticks only. -/
theorem Search.legal (h : Search target lower upper seen answer) : ∀ t ∈ seen, t.Legal := by
  have legal {t : Tick} {p : Price} (ht : t.price = .ok p) : t.Legal :=
    (Tick.price_eq_ok_iff.1 ht).1
  induction h with
  | met _ _ ht =>
    intro s hs
    rw [List.mem_singleton.1 hs]
    exact legal ht
  | up _ _ ht _ _ ih | down _ _ ht _ _ ih =>
    intro s hs
    rcases List.mem_cons.1 hs with rfl | hs
    · exact legal ht
    · exact ih s hs
  | highest | lowest => exact fun _ hs => nomatch hs
  | ceiling _ hp hq | floor _ hp hq =>
    intro s hs
    rcases List.mem_cons.1 hs with rfl | hs
    · exact legal hp
    · rw [List.mem_singleton.1 hs]
      exact legal hq

/-- One step of the computation, at a middle tick that has a price. -/
theorem search_of_le {t : Tick} {p : Price} (h : lower ≤ upper)
    (hmid : t.index = midpoint lower upper) (ht : t.price = .ok p) :
    search target lower upper =
      if p.raw = target then .ok t
      else if p.raw < target then search target (t.index + 1) upper
      else search target lower (t.index - 1) := by
  have hclamp : Tick.clamp (midpoint lower upper) = t := by rw [← hmid, Tick.clamp_index]
  rw [search, dif_pos h]
  simp only [hclamp, ht, hmid]

/-- The end of the computation, between two ticks that have prices. -/
theorem search_of_lt {above below : Tick} {p q : Price} (h : below < above)
    (hp : above.price = .ok p) (hq : below.price = .ok q) (hge : target ≤ p.raw)
    (hle : q.raw ≤ target) :
    search target above.index below.index =
      if p.raw.toNat - target.toNat < target.toNat - q.raw.toNat then .ok above
      else .ok below := by
  have habove : ¬ Tick.highest.index < above.index := Int.not_lt.2 (Tick.price_eq_ok_iff.1 hp).1.2
  have hbelow : ¬ below.index < Tick.lowest.index := Int.not_lt.2 (Tick.price_eq_ok_iff.1 hq).1.1
  rw [search, dif_neg (Int.not_le.2 h), nearerEnd, if_neg habove, if_neg hbelow,
    Tick.clamp_index, Tick.clamp_index, hp, hq]
  show (if p.raw.subMod target < target.subMod q.raw then _ else _) = _
  simp only [Amount.lt_iff, Amount.toNat_subMod hge, Amount.toNat_subMod hle]

/-- The answer of a search is the one that is computed. -/
theorem Search.search_eq (h : Search target lower upper seen answer) :
    search target lower upper = .ok answer := by
  induction h with
  | met hle hmid ht hp => rw [search_of_le hle hmid ht, if_pos hp]
  | up hle hmid ht hp _ ih =>
    have hne := fun heq => Nat.ne_of_lt hp (congrArg Amount.toNat heq)
    rw [search_of_le hle hmid ht, if_neg hne, if_pos hp, ih]
  | @down _ _ _ _ p _ hle hmid ht hp _ ih =>
    have hne := fun heq => Nat.ne_of_gt hp (congrArg Amount.toNat heq)
    have hnot : ¬ p.raw < target := Nat.not_lt.2 (Nat.le_of_lt hp)
    rw [search_of_le hle hmid ht, if_neg hne, if_neg hnot, ih]
  | highest hlt hout => rw [search, dif_neg (Int.not_le.2 hlt), nearerEnd, if_pos hout]
  | lowest hlt hin hout =>
    rw [search, dif_neg (Int.not_le.2 hlt), nearerEnd, if_neg (Int.not_lt.2 hin), if_pos hout]
  | ceiling hlt hp hq hge hle hcloser => rw [search_of_lt hlt hp hq hge hle, if_pos hcloser]
  | floor hlt hp hq hge hle hnot =>
    rw [search_of_lt hlt hp hq hge hle, if_neg (Nat.not_lt.2 hnot)]

/-! ## The invariant of a search -/

/-- What is known of a range that a search has come to: it is within the legal ticks and at most
just empty, the ticks below it have lower prices than the target, and the ticks above it higher
ones. -/
structure Bracket (target : Amount) (lower upper : Int) : Prop where
  lowest_le : Tick.lowest.index ≤ lower
  le_highest : upper ≤ Tick.highest.index
  le_succ : lower ≤ upper + 1
  below : ∀ (s : Tick) (q : Price), s.price = .ok q → s.index < lower → q.raw < target
  above : ∀ (s : Tick) (q : Price), s.price = .ok q → upper < s.index → target < q.raw

/-- The range of all legal ticks. -/
theorem bracket_all (target : Amount) :
    Bracket target Tick.lowest.index Tick.highest.index where
  lowest_le := Int.le_refl _
  le_highest := Int.le_refl _
  le_succ := by decide
  below _ _ hs hlt := absurd (Tick.price_eq_ok_iff.1 hs).1.1 (Int.not_le.2 hlt)
  above _ _ hs hlt := absurd (Tick.price_eq_ok_iff.1 hs).1.2 (Int.not_le.2 hlt)

section
variable {t : Tick} {p : Price}

/-- A middle tick whose price is too low is not the answer, nor is any tick below it. -/
theorem Bracket.up (h : Bracket target lower upper) (hle : lower ≤ upper)
    (hmid : t.index = midpoint lower upper) (ht : t.price = .ok p) (hp : p.raw < target) :
    Bracket target (t.index + 1) upper := by
  have hlow := le_midpoint hle
  have hhigh := midpoint_le hle
  have hlowest := h.lowest_le
  refine ⟨by omega, h.le_highest, by omega, fun s q hs hlt => ?_, h.above⟩
  exact Nat.lt_of_le_of_lt (Tick.price_mono (Int.lt_add_one_iff.1 hlt) hs ht) hp

/-- And one whose price is too high is not the answer, nor is any tick above it. -/
theorem Bracket.down (h : Bracket target lower upper) (hle : lower ≤ upper)
    (hmid : t.index = midpoint lower upper) (ht : t.price = .ok p) (hp : target < p.raw) :
    Bracket target lower (t.index - 1) := by
  have hlow := le_midpoint hle
  have hhigh := midpoint_le hle
  have hhighest := h.le_highest
  refine ⟨h.lowest_le, by omega, by omega, h.below, fun s q hs hlt => ?_⟩
  exact Nat.lt_of_lt_of_le hp (Tick.price_mono (Int.sub_one_lt_iff.1 hlt) ht hs)

end

/-- The tick of an index in the legal range. -/
theorem exists_price {i : Int} (hlow : Tick.lowest.index ≤ i) (hhigh : i ≤ Tick.highest.index) :
    ∃ (t : Tick) (p : Price), t.index = i ∧ t.price = .ok p := by
  have hlow' : -322517 ≤ i := hlow
  have hhigh' : i ≤ 524288 := hhigh
  exact ⟨⟨i, by omega, by omega⟩, _, rfl, Tick.price_eq_ok_iff.2 ⟨⟨hlow, hhigh⟩, rfl⟩⟩

/-- A search can be carried out on every such range. -/
theorem Bracket.exists_search (h : Bracket target lower upper) :
    ∃ seen answer, Search target lower upper seen answer := by
  induction hn : (upper + 1 - lower).toNat using Nat.strong_induction_on
    generalizing lower upper with
  | _ n ih =>
    have hlowest := h.lowest_le
    have hhighest := h.le_highest
    have hsucc := h.le_succ
    rcases Int.lt_or_le upper lower with hlt | hle
    · -- the range is empty: either an end of the ladder is reached, or two neighbours are left
      obtain rfl : lower = upper + 1 := by omega
      by_cases htop : Tick.highest.index < upper + 1
      · exact ⟨_, _, .highest hlt htop⟩
      by_cases hbottom : upper < Tick.lowest.index
      · exact ⟨_, _, .lowest hlt (Int.not_lt.1 htop) hbottom⟩
      obtain ⟨above, p, habove, hp⟩ := exists_price hlowest (Int.not_lt.1 htop)
      obtain ⟨below, q, rfl, hq⟩ := exists_price (Int.not_lt.1 hbottom) hhighest
      rw [← habove] at hlt ⊢
      have hge : target ≤ p.raw := Nat.le_of_lt (h.above above p hp hlt)
      have hle : q.raw ≤ target := Nat.le_of_lt (h.below below q hq (by omega))
      rcases Nat.lt_or_ge (p.raw.toNat - target.toNat) (target.toNat - q.raw.toNat) with hc | hf
      · exact ⟨_, _, .ceiling hlt hp hq hge hle hc⟩
      · exact ⟨_, _, .floor hlt hp hq hge hle hf⟩
    · have hlow := le_midpoint hle
      have hhigh := midpoint_le hle
      obtain ⟨t, p, hmid, ht⟩ := exists_price (i := midpoint lower upper) (by omega) (by omega)
      rcases Nat.lt_trichotomy p.raw.toNat target.toNat with hp | hp | hp
      · obtain ⟨seen, answer, hsearch⟩ := ih _ (by omega) (h.up hle hmid ht hp) rfl
        exact ⟨_, _, .up hle hmid ht hp hsearch⟩
      · exact ⟨_, _, .met hle hmid ht (Amount.eq_iff.2 hp)⟩
      · obtain ⟨seen, answer, hsearch⟩ := ih _ (by omega) (h.down hle hmid ht hp) rfl
        exact ⟨_, _, .down hle hmid ht hp hsearch⟩

/-- If the range is empty between two ticks, every tick with a price lies on the outer side of one
of them. -/
theorem Bracket.outside {above below : Tick} {p q : Price}
    (h : Bracket target above.index below.index) (hp : above.price = .ok p)
    (hq : below.price = .ok q) {s : Tick} {r : Price} (hs : s.price = .ok r) :
    r.raw.toNat ≤ q.raw.toNat ∧ s.index ≤ below.index ∨
      p.raw.toNat ≤ r.raw.toNat ∧ above.index ≤ s.index := by
  have hsucc := h.le_succ
  rcases Int.lt_or_le below.index s.index with hlt | hle
  · exact .inr ⟨Tick.price_mono (by rw [Tick.le_iff]; omega) hp hs, by omega⟩
  · exact .inl ⟨Tick.price_mono hle hs hq, hle⟩

/-- The answer of a search on such a range is the nearest tick. -/
theorem Search.nearest (hsearch : Search target lower upper seen answer)
    (h : Bracket target lower upper) : ∃ p, Tick.Nearest target answer p := by
  induction hsearch with
  | met _ _ ht hp => exact ⟨_, hp ▸ Tick.nearest_price ht⟩
  | up hle hmid ht hp _ ih => exact ih (h.up hle hmid ht hp)
  | down hle hmid ht hp _ ih => exact ih (h.down hle hmid ht hp)
  | highest hlt hout =>
    obtain ⟨t, p, ht, hp⟩ := exists_price (by decide) (Int.le_refl Tick.highest.index)
    obtain rfl := Tick.ext ht
    exact ⟨p, Tick.nearest_highest hp (Nat.le_of_lt (h.below _ p hp hout))⟩
  | lowest hlt _ hout =>
    obtain ⟨t, p, ht, hp⟩ := exists_price (Int.le_refl Tick.lowest.index) (by decide)
    obtain rfl := Tick.ext ht
    exact ⟨p, Tick.nearest_lowest hp (Nat.le_of_lt (h.above _ p hp hout))⟩
  | @ceiling above below p q hlt hp hq hge hle hcloser =>
    rw [Amount.le_iff] at hge hle
    refine ⟨p, hp, fun s r hs => ?_, fun s r hs heq => ?_⟩
    · have hout := h.outside hp hq hs
      unfold Amount.distance
      omega
    · have hout := h.outside hp hq hs
      unfold Amount.distance at heq
      rw [Tick.le_iff]
      omega
  | @floor above below p q hlt hp hq hge hle hnot =>
    rw [Amount.le_iff] at hge hle
    refine ⟨q, hq, fun s r hs => ?_, fun s r hs heq => ?_⟩
    · have hout := h.outside hp hq hs
      unfold Amount.distance
      omega
    · have hout := h.outside hp hq hs
      have hsq := Tick.price_lt_iff hs hq
      have hsbelow : below.index < s.index ∨ s.index ≤ below.index := by omega
      unfold Amount.distance at heq
      rw [Tick.le_iff]
      omega

/-! ## The result -/

/-- The search over all legal ticks. -/
theorem exists_nearestTick {target : Price} (h : target.raw ≠ 0) :
    ∃ seen t p, Search target.raw Tick.lowest.index Tick.highest.index seen t ∧
      target.nearestTick = .ok t ∧ Tick.Nearest target.raw t p := by
  obtain ⟨seen, t, hsearch⟩ := (bracket_all target.raw).exists_search
  obtain ⟨p, hnearest⟩ := hsearch.nearest (bracket_all target.raw)
  exact ⟨seen, t, p, hsearch, (if_neg h).trans hsearch.search_eq, hnearest⟩

/-- The tick that is nearest to a price is the one that is found. -/
theorem nearestTick_of_nearest {target p : Price} {t : Tick} (h : target.raw ≠ 0)
    (hnearest : Tick.Nearest target.raw t p) : target.nearestTick = .ok t := by
  obtain ⟨_, t', _, -, hfound, hnearest'⟩ := exists_nearestTick h
  rw [hfound, hnearest'.unique hnearest]

/-- A price of zero is refused. For any other price the search ends with a legal tick whose price is
at least as close to it as that of every legal tick, and which is the lowest of those equally close;
on the way it looks at prices of legal ticks only, and no difference wraps around. Prices up to that
of the lowest tick get that tick, prices from that of the highest tick on get that one, and every
legal tick is found by its own price. -/
theorem nearestTick_is_closest (target : Price) :
    (target.raw = 0 → target.nearestTick = .error .nonPositivePrice) ∧
    (target.raw ≠ 0 → ∃ t p seen, target.nearestTick = .ok t ∧ t.Legal ∧ t.price = .ok p ∧
      (∀ s : Tick, s.Legal → ∃ q, s.price = .ok q ∧
        p.raw.distance target.raw ≤ q.raw.distance target.raw ∧
        (q.raw.distance target.raw = p.raw.distance target.raw → t ≤ s)) ∧
      Search target.raw Tick.lowest.index Tick.highest.index seen t ∧ ∀ s ∈ seen, s.Legal) ∧
    (target.raw ≠ 0 → ∀ p, Tick.lowest.price = .ok p → target.raw ≤ p.raw →
      target.nearestTick = .ok Tick.lowest) ∧
    (∀ p, Tick.highest.price = .ok p → p.raw ≤ target.raw →
      target.nearestTick = .ok Tick.highest) ∧
    ∀ t : Tick, t.price = .ok target → target.nearestTick = .ok t := by
  refine ⟨fun hzero => if_pos hzero, fun hne => ?_, fun hne p hp hle => ?_, fun p hp hle => ?_,
    fun t ht => ?_⟩
  · obtain ⟨seen, t, p, hsearch, hfound, hnearest⟩ := exists_nearestTick hne
    have hlegal : t.Legal := (Tick.price_eq_ok_iff.1 hnearest.price).1
    refine ⟨t, p, seen, hfound, hlegal, hnearest.price, fun s hs => ?_, hsearch, hsearch.legal⟩
    have hprice : s.price = .ok ⟨power s.index⟩ := Tick.price_eq_ok_iff.2 ⟨hs, rfl⟩
    exact ⟨_, hprice, hnearest.le s _ hprice, hnearest.low s _ hprice⟩
  · exact nearestTick_of_nearest hne (Tick.nearest_lowest hp hle)
  · have hne : target.raw ≠ 0 :=
      Amount.ne_zero_iff.2 (Nat.lt_of_lt_of_le (Tick.price_raw_pos hp) hle)
    exact nearestTick_of_nearest hne (Tick.nearest_highest hp hle)
  · have hne : target.raw ≠ 0 := Amount.ne_zero_iff.2 (Tick.price_raw_pos ht)
    exact nearestTick_of_nearest hne (Tick.nearest_price ht)

/-- Half way between the prices of the ticks zero and one. -/
def halfway : Price := ⟨1000050000000000000⟩

/-- Of the two the lower one is found. -/
theorem halfway_nearestTick : halfway.nearestTick = .ok Tick.zero := by
  obtain ⟨-, hfound, -⟩ := nearestTick_is_closest halfway
  obtain ⟨t, p, -, ht, -, hprice, hclosest, -⟩ := hfound (by decide)
  have hzero : Tick.zero.price = .ok ⟨1000000000000000000⟩ := by decide +kernel
  have hone : (Tick.clamp 1).price = .ok ⟨1000100000000000000⟩ := by decide +kernel
  obtain ⟨q, hq, hle, hlow⟩ := hclosest Tick.zero (by decide)
  obtain rfl := Except.ok.inj (hzero.symm.trans hq)
  -- a price as close as that of tick zero lies between the two, so its tick is one of them
  have hbelow := Tick.price_lt_iff hprice hzero
  have habove := Tick.price_lt_iff hone hprice
  have hat := Tick.price_lt_iff hprice hone
  have hhalf : halfway.raw.toNat = 1000050000000000000 := by decide
  have hunit : (⟨1000000000000000000⟩ : Price).raw.toNat = 1000000000000000000 := by decide
  have hnext : (⟨1000100000000000000⟩ : Price).raw.toNat = 1000100000000000000 := by decide
  have hzero' : Tick.zero.index = 0 := rfl
  have hone' : (Tick.clamp 1).index = 1 := rfl
  have hindex : t.index = 0 := by
    unfold Amount.distance at hle hlow
    rw [Tick.le_iff] at hlow
    omega
  rw [ht]
  exact congrArg Except.ok (Tick.ext hindex)

end Price

end BatchAuction
