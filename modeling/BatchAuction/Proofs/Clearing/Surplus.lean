import BatchAuction.Clearing.Upside
import BatchAuction.Proofs.Clearing.Scan

/-!
# How the room for upside is handed out

The upside of an offer is what it buys at the clearing price beyond its own demand. The room goes to
the highest ticks first. `Surplus.Allocates` says what comes out without following the walk over the
buckets: either all offers above the clearing tick fit into the room, or there is a floor above
which all fit and which takes the rest of the room. There is one such split
(`Surplus.Allocates.unique`), `Surplus.allocate` finds it (`Surplus.allocate_allocates`), and what
it grants stays within the room (`Surplus.Allocates.sum_portion_le`), and short of it by less than
one unit for each offer at the floor (`Surplus.Allocates.lt_sum_portion`). The walk itself takes
exact differences of rooms (`Surplus.Walk`).
-/

namespace BatchAuction

open Offer (base demand upper above level)

/-- The scarce that an offer buys at a price beyond its own demand. -/
def Offer.upside (p : Price) (o : Offer) : Nat := o.demandAt p - o.demand

/-! ## Fractions -/

namespace FillRatio

/-- The part of a number that a ratio grants, rounded down. -/
def part (r : FillRatio) (n : Nat) : Nat :=
  if r.IsFull then n else n * r.filled.toNat / r.bucket.toNat

variable {r : FillRatio}

/-- A ratio that is not full fills less than the bucket. -/
theorem not_isFull_iff : ¬ r.IsFull ↔ r.filled.toNat < r.bucket.toNat := by
  rw [IsFull, Amount.le_iff, Nat.not_le]

/-- A part is not more than the whole. -/
theorem part_le (r : FillRatio) (n : Nat) : r.part n ≤ n := by
  unfold part
  split
  · exact Nat.le_refl n
  · rename_i h
    have hlt := not_isFull_iff.1 h
    rw [Nat.div_le_iff_le_mul_add_pred (by omega)]
    have : n * r.filled.toNat ≤ n * r.bucket.toNat := Nat.mul_le_mul_left n (by omega)
    rw [Nat.mul_comm r.bucket.toNat]
    omega

/-- Taking a fraction succeeds, with the part that the ratio grants. -/
theorem apply_eq_ok_iff {demand x : Amount} :
    r.apply demand = .ok x ↔ x.toNat = r.part demand.toNat := by
  unfold apply part
  split
  · rw [Except.ok.injEq, Amount.eq_iff, eq_comm]
  · rename_i h
    have hlt := not_isFull_iff.1 h
    rw [Amount.mulDiv_eq_ok_iff, Amount.ne_zero_iff]
    exact and_iff_right (by omega)

/-- A full ratio fills all of a demand. -/
theorem filledOf_of_isFull (h : r.IsFull) (d : Amount) : r.filledOf d = d := if_pos h

/-- Any other fills what it says. -/
theorem filledOf_of_not_isFull (h : ¬ r.IsFull) (d : Amount) : r.filledOf d = r.filled := if_neg h

section
variable {α : Type} {f : α → Nat} {l : List α} {d : Amount}

/-- The parts of the terms of a sum that the ratio is a fraction of are within what it grants. -/
theorem sum_part_le (hd : d.toNat = (l.map f).sum) (h : ¬ r.IsFull → r.bucket = d) :
    (l.map fun a => r.part (f a)).sum ≤ (r.filledOf d).toNat := by
  unfold part
  split
  · rename_i hr
    rw [filledOf_of_isFull hr, hd]
  · rename_i hr
    have hlt := not_isFull_iff.1 hr
    refine Nat.le_trans (sum_div_le (fun a => f a * r.filled.toNat) _ l) ?_
    rw [List.sum_map_mul_right, ← hd, ← h hr, Nat.mul_div_cancel_left _ (by omega),
      filledOf_of_not_isFull hr]

/-- They fall short of what it grants by less than their number. -/
theorem filledOf_lt_sum_part (hne : l ≠ []) (hd : d.toNat = (l.map f).sum)
    (h : ¬ r.IsFull → r.bucket = d) :
    (r.filledOf d).toNat < (l.map fun a => r.part (f a)).sum + l.length := by
  have hlen : 0 < l.length := List.length_pos_of_ne_nil hne
  unfold part
  split
  · rename_i hr
    rw [filledOf_of_isFull hr, hd]
    exact Nat.lt_add_of_pos_right hlen
  · rename_i hr
    have hlt := not_isFull_iff.1 hr
    have hsum := sum_add_length_le (fun a => f a * r.filled.toNat)
      (show 0 < r.bucket.toNat by omega) l
    rw [List.sum_map_mul_right, ← hd, ← h hr, Nat.mul_comm r.bucket.toNat] at hsum
    rw [filledOf_of_not_isFull hr]
    exact Nat.lt_of_mul_lt_mul_right (Nat.lt_of_lt_of_le (by omega) hsum)

end

end FillRatio

/-! ## The upside of a bucket -/

/-- The upside of an offer is computed exactly. -/
theorem Amount.toNat_upside {o : Offer} {own cp : Price} {u : Amount}
    (hp : o.tick.price = .ok own) (h : o.amount.upside own cp = .ok u) :
    u.toNat = o.upside cp := by
  simp only [Amount.upside, bind_eq_ok_iff, pure_eq_ok_iff, Amount.scarceAt_eq_ok_iff] at h
  obtain ⟨x, ⟨-, hx⟩, y, ⟨-, hy⟩, rfl⟩ := h
  have hown : y.toNat = o.demand := hy.trans (Totals.demandAt_eq_demand hp)
  rw [Amount.toNat_sub, hx, hown]
  rfl

/-- Folding bids of one tick adds their upside. -/
theorem Surplus.toNat_foldlM {tick : Tick} {own cp : Price} (hp : tick.price = .ok own)
    {bids : List Bid} :
    ∀ {t u : Amount}, (∀ bid ∈ bids, bid.tick = tick) →
      bids.foldlM (fun total bid => do total.add (← bid.amount.upside own cp)) t = .ok u →
      u.toNat = t.toNat + ((bids.map Bid.offer).map (Offer.upside cp)).sum := by
  induction bids with
  | nil =>
    intro t u _ h
    obtain rfl : t = u := pure_eq_ok_iff.1 h
    rfl
  | cons bid bids ih =>
    intro t u htick h
    obtain ⟨v, hv, h⟩ := foldlM_cons_eq_ok_iff.1 h
    obtain ⟨x, hx, hv⟩ := bind_eq_ok_iff.1 hv
    have hbid : bid.offer.tick.price = .ok own := by
      rw [← hp, ← htick bid List.mem_cons_self]
      rfl
    have hup := Amount.toNat_upside (o := bid.offer) hbid hx
    have hrest := ih (fun b hb => htick b (List.mem_cons_of_mem _ hb)) h
    rw [hrest, Amount.add_eq_ok_iff.1 hv, hup, List.map_cons, List.map_cons, List.sum_cons,
      Nat.add_assoc]

/-- The upside wanted at one tick is the sum over the active bids. -/
theorem Surplus.toNat_wanted {tick : Tick} {own cp : Price} {b : Bucket} {u : Amount}
    (hp : tick.price = .ok own) (htick : ∀ bid ∈ b.bids, bid.tick = tick)
    (h : wanted b own cp = .ok u) :
    u.toNat = ((b.active.map Bid.offer).map (Offer.upside cp)).sum := by
  have hfold := toNat_foldlM hp (fun bid hb => htick bid (List.mem_filter.1 hb).1) h
  rwa [Amount.toNat_zero, Nat.zero_add] at hfold

/-! ## The split -/

namespace Surplus

/-- The split of some room over the offers above a clearing tick. -/
inductive Allocates (ct : Tick) (cp : Price) (room : Nat) (offers : List Offer) : Surplus → Prop
  /-- The upside of all of them fits. -/
  | all : ((above ct offers).map (Offer.upside cp)).sum ≤ room →
      Allocates ct cp room offers (.unlimited ct)
  /-- The upside above the floor fits, and the floor gets the rest, which is not all it wants. -/
  | floor {floor : Tick} {rest wanted : Amount} : ct < floor →
      ((above floor offers).map (Offer.upside cp)).sum + rest.toNat = room →
      wanted.toNat = ((level floor offers).map (Offer.upside cp)).sum →
      rest.toNat < wanted.toNat → Allocates ct cp room offers ⟨floor, rest, wanted⟩

variable {ct : Tick} {cp : Price} {room : Nat} {offers offers' : List Offer} {s s' : Surplus}

/-- The upside above a tick below the floor does not fit. -/
theorem lt_sum_above {t floor : Tick} {rest wanted : Amount} (ht : t < floor)
    (hs : ((above floor offers).map (Offer.upside cp)).sum + rest.toNat = room)
    (hw : wanted.toNat = ((level floor offers).map (Offer.upside cp)).sum)
    (hlt : rest.toNat < wanted.toNat) :
    room < ((above t offers).map (Offer.upside cp)).sum := by
  refine Nat.lt_of_lt_of_le ?_ (Offer.sum_upper_le_above _ ht)
  rw [Offer.sum_upper]
  omega

/-- There is one split. -/
theorem Allocates.unique (h : Allocates ct cp room offers s) (h' : Allocates ct cp room offers s') :
    s = s' := by
  cases h with
  | all hall =>
    cases h' with
    | all => rfl
    | floor hf hs hw hlt => exact absurd hall (Nat.not_le.2 (lt_sum_above hf hs hw hlt))
  | @floor f rest wanted hf hs hw hlt =>
    cases h' with
    | all hall => exact absurd hall (Nat.not_le.2 (lt_sum_above hf hs hw hlt))
    | @floor f' rest' wanted' hf' hs' hw' hlt' =>
      rcases Int.lt_trichotomy f.index f'.index with hff | hff | hff
      · have h2 := lt_sum_above hff hs' hw' hlt'
        omega
      · obtain rfl := Tick.ext hff
        have hrest : rest = rest' := Amount.eq_iff.2 (by omega)
        have hwanted : wanted = wanted' := Amount.eq_iff.2 (by omega)
        rw [hrest, hwanted]
      · have h2 := lt_sum_above hff hs hw hlt
        omega

/-- The split depends on the offers from the clearing tick upwards, in any order. -/
theorem Allocates.congr (hp : (upper ct offers).Perm (upper ct offers'))
    (h : Allocates ct cp room offers s) : Allocates ct cp room offers' s := by
  have sums {t : Tick} (ht : ct ≤ t) :
      ((above t offers).map (Offer.upside cp)).sum =
          ((above t offers').map (Offer.upside cp)).sum ∧
        ((level t offers).map (Offer.upside cp)).sum =
          ((level t offers').map (Offer.upside cp)).sum := by
    have habove := Offer.above_perm_of_upper ht hp
    have hlevel := Offer.level_perm_of_upper ht hp
    exact ⟨(habove.map _).sum_eq, (hlevel.map _).sum_eq⟩
  cases h with
  | all hall => exact .all ((sums (Int.le_refl _)).1 ▸ hall)
  | floor hf hs hw hlt =>
    have hfloor := sums (Int.le_of_lt hf)
    exact .floor hf (hfloor.1 ▸ hs) (hfloor.2 ▸ hw) hlt

/-! ## Finding it -/

/-- If the upside of the higher offers fits, and the others are not above the clearing tick, there
is no floor. -/
theorem Allocates.all_append {high low : List Offer} (hlow : ∀ o ∈ low, o.tick ≤ ct)
    (hroom : (high.map (Offer.upside cp)).sum ≤ room) :
    Allocates ct cp room (high ++ low) (.unlimited ct) := by
  refine .all ?_
  rw [Offer.above_append, Offer.above_eq_nil hlow, List.append_nil]
  exact Nat.le_trans (Offer.sum_above_le _) hroom

/-- A walk down the buckets in exact arithmetic: the upside of a bucket that is passed and the room
left after it make up the room before it. -/
inductive Walk (ct : Tick) (cp : Price) : Amount → List (Tick × Bucket) → Surplus → Prop
  /-- All buckets are passed. -/
  | done {room : Amount} : Walk ct cp room [] (.unlimited ct)
  /-- The next bucket is not above the clearing tick. -/
  | low {room : Amount} {tick : Tick} {bucket : Bucket} {entries : List (Tick × Bucket)} :
      tick ≤ ct → Walk ct cp room ((tick, bucket) :: entries) (.unlimited ct)
  /-- The upside of the next bucket does not fit. -/
  | floor {room upside : Amount} {tick : Tick} {bucket : Bucket} {entries : List (Tick × Bucket)}
      {own : Price} :
      ct < tick → tick.price = .ok own → wanted bucket own cp = .ok upside →
      room.toNat < upside.toNat → Walk ct cp room ((tick, bucket) :: entries) ⟨tick, room, upside⟩
  /-- It fits, and the walk goes on with the room that is left. -/
  | pass {room upside left : Amount} {tick : Tick} {bucket : Bucket}
      {entries : List (Tick × Bucket)} {own : Price} {s : Surplus} :
      ct < tick → tick.price = .ok own → wanted bucket own cp = .ok upside →
      upside.toNat + left.toNat = room.toNat → Walk ct cp left entries s →
      Walk ct cp room ((tick, bucket) :: entries) s

/-- Handing out room over buckets is such a walk. -/
theorem ofBuckets_walk {entries : List (Tick × Bucket)} :
    ∀ {room : Amount}, ofBuckets ct cp room entries = .ok s → Walk ct cp room entries s := by
  induction entries with
  | nil =>
    intro room h
    cases h
    exact .done
  | cons e entries ih =>
    intro room h
    obtain ⟨tick, bucket⟩ := e
    unfold ofBuckets at h
    split at h
    · rename_i hct
      cases h
      exact .low hct
    · rename_i hct
      have hlt : ct < tick := Int.not_le.1 hct
      simp only [bind_eq_ok_iff, mapError_eq_ok_iff] at h
      obtain ⟨own, hown, upside, hupside, h⟩ := h
      split at h
      · rename_i hfits
        rw [Amount.le_iff] at hfits
        refine .pass hlt hown hupside ?_ (ih h)
        rw [Amount.toNat_subMod hfits]
        exact Nat.add_sub_cancel' hfits
      · rename_i hfits
        rw [Amount.le_iff, Nat.not_le] at hfits
        cases h
        exact .floor hlt hown hupside hfits

/-- A walk, with the offers already passed, ends with the split. -/
theorem Walk.allocates {left : Amount} {entries : List (Tick × Bucket)}
    (h : Walk ct cp left entries s) :
    ∀ {high : List Offer}, Descending entries → (∀ o ∈ high, ∀ e ∈ entries, e.1 < o.tick) →
      (high.map (Offer.upside cp)).sum + left.toNat = room →
      Allocates ct cp room (high ++ offersOf entries) s := by
  induction h with
  | done =>
    intro high _ _ hroom
    exact .all_append (fun _ ho => nomatch ho) (by omega)
  | @low left tick bucket entries hct =>
    intro high hd _ hroom
    refine .all_append (fun o ho => ?_) (by omega)
    rcases List.mem_append.1 ho with ho | ho
    · rw [hd.head_tick o ho]
      exact hct
    · exact Int.le_trans (Int.le_of_lt (hd.tail_tick o ho)) hct
  | @floor left upside tick bucket entries own hlt hown hupside hfits =>
    intro high hd habove hroom
    have hhead : ∀ o ∈ high, tick < o.tick := fun o ho => habove o ho _ List.mem_cons_self
    have hsum := toNat_wanted hown (hd.at_tick _ List.mem_cons_self) hupside
    show Allocates ct cp room (high ++ (bucket.active.map Bid.offer ++ offersOf entries)) _
    refine .floor hlt ?_ ?_ hfits
    · rwa [Offer.above_sorted hhead hd.head_tick hd.tail_tick]
    · rwa [Offer.level_sorted hhead hd.head_tick hd.tail_tick]
  | @pass left upside rest tick bucket entries own s _ hown hupside hleft _ ih =>
    intro high hd habove hroom
    have hsum : upside.toNat = ((bucket.active.map Bid.offer).map (Offer.upside cp)).sum :=
      toNat_wanted hown (hd.at_tick _ List.mem_cons_self) hupside
    show Allocates ct cp room (high ++ (bucket.active.map Bid.offer ++ offersOf entries)) _
    rw [← List.append_assoc]
    refine ih hd.tail (hd.above_tail habove) ?_
    rw [List.map_append, List.sum_append]
    omega

/-- The split does not depend on the order of the offers. -/
theorem Allocates.of_perm (hp : offers.Perm offers') (h : Allocates ct cp room offers s) :
    Allocates ct cp room offers' s :=
  h.congr (hp.filter _)

/-- The split of a book is the one of its active offers. -/
theorem allocate_allocates {b : Book} {room : Amount} (hi : b.Indexed)
    (h : allocate b ct cp room = .ok s) : Allocates ct cp room.toNat b.activeOffers s := by
  have halloc : Allocates ct cp room.toNat ([] ++ offersOf b.activeDescending) s :=
    (ofBuckets_walk h).allocates hi.descending (by simp) (by simp)
  exact halloc.of_perm b.offersOf_activeDescending

/-! ## What it grants -/

/-- The part of its upside that an offer at a tick gets. -/
def portion (s : Surplus) (tick : Tick) (upside : Nat) : Nat :=
  if s.floor < tick then upside else if tick = s.floor then s.fill.part upside else 0

/-- A share is the portion, computed exactly. -/
theorem share_eq_ok_iff {tick : Tick} {upside x : Amount} :
    s.share tick upside = .ok x ↔ x.toNat = s.portion tick upside.toNat := by
  unfold share portion
  split
  · rw [Except.ok.injEq, Amount.eq_iff, eq_comm]
  · split
    · exact FillRatio.apply_eq_ok_iff
    · rw [Except.ok.injEq, Amount.eq_iff, eq_comm, Amount.toNat_zero]

/-- A portion is not more than the upside. -/
theorem portion_le (s : Surplus) (tick : Tick) (upside : Nat) : s.portion tick upside ≤ upside := by
  unfold portion
  split
  · exact Nat.le_refl _
  · split
    · exact s.fill.part_le _
    · exact Nat.zero_le _

/-- What is granted goes to the ticks above the floor and to the floor. -/
theorem sum_portion (s : Surplus) (f : Offer → Nat) (l : List Offer) :
    (l.map fun o => s.portion o.tick (f o)).sum =
      ((above s.floor l).map f).sum + ((level s.floor l).map fun o => s.fill.part (f o)).sum := by
  rw [above, level, sum_map_filter, sum_map_filter, ← List.sum_map_add]
  refine congrArg List.sum (List.map_congr_left fun o _ => ?_)
  unfold portion
  by_cases hlt : s.floor < o.tick
  · have hne : o.tick ≠ s.floor := fun h => Tick.lt_irrefl s.floor (by rwa [h] at hlt)
    simp only [hlt, hne, if_true, if_false, decide_true, decide_false, Bool.false_eq_true,
      Nat.add_zero]
  · by_cases heq : o.tick = s.floor
    · simp only [hlt, if_pos heq, if_false, decide_false, Bool.false_eq_true, decide_eq_true heq,
        if_true, Nat.zero_add]
    · simp only [hlt, heq, if_false, decide_false, Bool.false_eq_true]

/-- Above a tick that is below the floor, it goes to the same ones. -/
theorem sum_portion_above (s : Surplus) (f : Offer → Nat) {t : Tick} (ht : t < s.floor) :
    ((above t offers).map fun o => s.portion o.tick (f o)).sum =
      ((above s.floor offers).map f).sum +
        ((level s.floor offers).map fun o => s.fill.part (f o)).sum := by
  rw [sum_portion, Offer.above_above (Int.le_of_lt ht), Offer.level_above ht]

/-- The upside granted above the clearing tick stays within the room. -/
theorem Allocates.sum_portion_le (h : Allocates ct cp room offers s) :
    ((above ct offers).map fun o => s.portion o.tick (o.upside cp)).sum ≤ room := by
  cases h with
  | all hall =>
    exact Nat.le_trans (List.sum_le_sum fun o _ => portion_le _ o.tick (o.upside cp)) hall
  | @floor f rest wanted hf hs hw hlt =>
    have hnot : ¬ (FillRatio.mk rest wanted).IsFull := FillRatio.not_isFull_iff.2 hlt
    have hpart := FillRatio.sum_part_le (r := ⟨rest, wanted⟩) hw fun _ => rfl
    rw [FillRatio.filledOf_of_not_isFull hnot] at hpart
    rw [sum_portion_above _ _ hf]
    exact hs ▸ Nat.add_le_add_left hpart _

/-- If there is a floor above the clearing tick, there are offers at it. -/
theorem Allocates.level_floor_ne_nil (h : Allocates ct cp room offers s) (hf : ct < s.floor) :
    level s.floor offers ≠ [] := by
  cases h with
  | all => exact absurd hf (Tick.lt_irrefl ct)
  | @floor f rest wanted _ _ hw hlt =>
    intro hnil
    rw [show level f offers = [] from hnil, List.map_nil, List.sum_nil] at hw
    omega

/-- And less than one unit of the room is left for each of them. -/
theorem Allocates.lt_sum_portion (h : Allocates ct cp room offers s) (hf : ct < s.floor) :
    room < ((above ct offers).map fun o => s.portion o.tick (o.upside cp)).sum +
      (level s.floor offers).length := by
  have hne := h.level_floor_ne_nil hf
  cases h with
  | all => exact absurd hf (Tick.lt_irrefl ct)
  | @floor f rest wanted hf hs hw hlt =>
    have hnot : ¬ (FillRatio.mk rest wanted).IsFull := FillRatio.not_isFull_iff.2 hlt
    have hpart := FillRatio.filledOf_lt_sum_part (r := ⟨rest, wanted⟩) hne hw fun _ => rfl
    rw [FillRatio.filledOf_of_not_isFull hnot] at hpart
    rw [sum_portion_above _ _ hf, Nat.add_assoc, ← hs]
    exact Nat.add_lt_add_left hpart _

end Surplus

end BatchAuction
