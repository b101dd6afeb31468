import BatchAuction.Clearing.Scan
import Mathlib.Algebra.Order.BigOperators.Group.List
import Mathlib.Algebra.Order.Group.Nat
import Mathlib.Algebra.Ring.Nat
import Mathlib.Data.List.Perm.Basic

/-!
# Offers and the tick at which they clear

Clearing looks at the tick and the amount of a bid and at nothing else: its `Offer`. For a list of
offers, `ClearsAt caps offers t` says that `t` is the highest tick at which the offers from `t`
upwards reach a cap. There is at most one such tick (`ClearsAt.unique`). It depends only on the
offers at it and above it (`ClearsAt.congr`), and more offers never lower it
(`ClearsAt.of_sublist`). A tick strictly below it is `Lost`, and stays so.
-/

namespace BatchAuction

/-- What clearing sees of a bid. -/
@[ext]
structure Offer where
  /-- The tick of the bid. -/
  tick : Tick
  /-- The base amount offered. -/
  amount : Amount
deriving DecidableEq, Repr

/-- The offer of a bid. -/
def Bid.offer (b : Bid) : Offer := ⟨b.tick, b.amount⟩

@[simp] theorem Bid.offer_close (b : Bid) : b.close.offer = b.offer := rfl

namespace Offer

/-- The base offered, as a number. -/
def base (o : Offer) : Nat := o.amount.toNat

/-- The scarce that an offer buys at a price, rounded down. -/
def demandAt (o : Offer) (p : Price) : Nat :=
  o.amount.toNat * Amount.scale.toNat / p.raw.toNat

/-- The scarce that an offer buys at its own tick, rounded down. -/
def demand (o : Offer) : Nat := o.demandAt ⟨Price.power o.tick.index⟩

/-- The offers at a tick and above it. -/
def upper (t : Tick) (offers : List Offer) : List Offer :=
  offers.filter fun o => decide (t ≤ o.tick)

/-- The offers above a tick. -/
def above (t : Tick) (offers : List Offer) : List Offer :=
  offers.filter fun o => decide (t < o.tick)

/-- The offers at a tick. -/
def level (t : Tick) (offers : List Offer) : List Offer :=
  offers.filter fun o => decide (o.tick = t)

/-- The sum of the base or of the own demand reaches its cap. -/
def Reaches (caps : Caps) (offers : List Offer) : Prop :=
  caps.base.toNat ≤ (offers.map base).sum ∨ caps.scarce.toNat ≤ (offers.map demand).sum

instance (caps : Caps) (offers : List Offer) : Decidable (Reaches caps offers) :=
  inferInstanceAs (Decidable (_ ∨ _))

/-- The highest tick with an offer at which the offers from there upwards reach a cap. -/
def ClearsAt (caps : Caps) (offers : List Offer) (t : Tick) : Prop :=
  (∃ o ∈ offers, o.tick = t) ∧ Reaches caps (upper t offers) ∧
    ∀ o ∈ offers, t < o.tick → ¬ Reaches caps (upper o.tick offers)

/-- A tick strictly below the one at which the offers clear. -/
def Lost (caps : Caps) (offers : List Offer) (t : Tick) : Prop :=
  ∃ clearing, ClearsAt caps offers clearing ∧ t < clearing

variable {caps : Caps} {offers offers' : List Offer} {s t : Tick}

/-! ## Cutting a list of offers at a tick -/

@[simp] theorem mem_upper {o : Offer} : o ∈ upper t offers ↔ o ∈ offers ∧ t ≤ o.tick := by
  simp [upper]

@[simp] theorem mem_above {o : Offer} : o ∈ above t offers ↔ o ∈ offers ∧ t < o.tick := by
  simp [above]

@[simp] theorem mem_level {o : Offer} : o ∈ level t offers ↔ o ∈ offers ∧ o.tick = t := by
  simp [level]

/-- The offers from a tick on of two lists follow on each other. -/
theorem upper_append (l m : List Offer) : upper t (l ++ m) = upper t l ++ upper t m :=
  List.filter_append ..

/-- And so do those above a tick. -/
theorem above_append (l m : List Offer) : above t (l ++ m) = above t l ++ above t m :=
  List.filter_append ..

/-- And those at a tick. -/
theorem level_append (l m : List Offer) : level t (l ++ m) = level t l ++ level t m :=
  List.filter_append ..

/-- Nothing is cut off if every offer is at the tick or above it. -/
theorem upper_eq_self (h : ∀ o ∈ offers, t ≤ o.tick) : upper t offers = offers :=
  List.filter_eq_self.2 fun o ho => decide_eq_true (h o ho)

/-- If all offers are below a tick, there are none from it on. -/
theorem upper_eq_nil (h : ∀ o ∈ offers, o.tick < t) : upper t offers = [] :=
  List.filter_eq_nil_iff.2 fun o ho => by
    have := h o ho
    simp only [Tick.lt_iff, Tick.le_iff, decide_eq_true_eq] at this ⊢
    omega

/-- If all offers are above a tick, all of them are above it. -/
theorem above_eq_self (h : ∀ o ∈ offers, t < o.tick) : above t offers = offers :=
  List.filter_eq_self.2 fun o ho => decide_eq_true (h o ho)

/-- If no offer is above a tick, there are none above it. -/
theorem above_eq_nil (h : ∀ o ∈ offers, o.tick ≤ t) : above t offers = [] :=
  List.filter_eq_nil_iff.2 fun o ho => by
    have := h o ho
    simp only [Tick.lt_iff, Tick.le_iff, decide_eq_true_eq] at this ⊢
    omega

/-- If all offers are at a tick, all of them are at it. -/
theorem level_eq_self (h : ∀ o ∈ offers, o.tick = t) : level t offers = offers :=
  List.filter_eq_self.2 fun o ho => decide_eq_true (h o ho)

/-- If no offer is at a tick, there are none at it. -/
theorem level_eq_nil (h : ∀ o ∈ offers, o.tick ≠ t) : level t offers = [] :=
  List.filter_eq_nil_iff.2 fun o ho => by simpa using h o ho

/-- Cutting twice at rising ticks is cutting once at the higher one. -/
theorem upper_upper (h : s ≤ t) : upper t (upper s offers) = upper t offers := by
  simp only [upper, List.filter_filter]
  refine List.filter_congr fun o _ => ?_
  rw [← Bool.decide_and, decide_eq_decide]
  simp only [Tick.le_iff] at h ⊢
  omega

/-- The offers above a tick are all among those from a lower tick on. -/
theorem above_upper (h : s ≤ t) : above t (upper s offers) = above t offers := by
  simp only [above, upper, List.filter_filter]
  refine List.filter_congr fun o _ => ?_
  rw [← Bool.decide_and, decide_eq_decide]
  simp only [Tick.le_iff, Tick.lt_iff] at h ⊢
  omega

/-- And so are those at the tick. -/
theorem level_upper (h : s ≤ t) : level t (upper s offers) = level t offers := by
  simp only [level, upper, List.filter_filter]
  refine List.filter_congr fun o _ => ?_
  rw [← Bool.decide_and, decide_eq_decide]
  simp only [Tick.le_iff, Tick.ext_iff] at h ⊢
  omega

/-- The offers above a tick are all among those above a lower tick. -/
theorem above_above (h : s ≤ t) : above t (above s offers) = above t offers := by
  simp only [above, List.filter_filter]
  refine List.filter_congr fun o _ => ?_
  rw [← Bool.decide_and, decide_eq_decide]
  simp only [Tick.le_iff, Tick.lt_iff] at h ⊢
  omega

/-- And so are those at the tick, if it is strictly higher. -/
theorem level_above (h : s < t) : level t (above s offers) = level t offers := by
  simp only [level, above, List.filter_filter]
  refine List.filter_congr fun o _ => ?_
  rw [← Bool.decide_and, decide_eq_decide]
  simp only [Tick.lt_iff, Tick.ext_iff] at h ⊢
  omega

/-- Offers that agree from a tick upwards agree above it and above any higher tick. -/
theorem above_perm_of_upper (h : s ≤ t) (hp : (upper s offers).Perm (upper s offers')) :
    (above t offers).Perm (above t offers') := by
  have hcut : (above t (upper s offers)).Perm (above t (upper s offers')) := hp.filter _
  rwa [above_upper h, above_upper h] at hcut

/-- And they agree at it and at any higher tick. -/
theorem level_perm_of_upper (h : s ≤ t) (hp : (upper s offers).Perm (upper s offers')) :
    (level t offers).Perm (level t offers') := by
  have hcut : (level t (upper s offers)).Perm (level t (upper s offers')) := hp.filter _
  rwa [level_upper h, level_upper h] at hcut

/-- The offers from a tick upwards are those at it and those above it. -/
theorem upper_perm : (upper t offers).Perm (level t offers ++ above t offers) := by
  have h := List.filter_append_perm (fun o : Offer => decide (o.tick = t)) (upper t offers)
  refine h.symm.trans (List.Perm.of_eq ?_)
  have hlevel : (upper t offers).filter (fun o => decide (o.tick = t)) = level t offers :=
    level_upper (Int.le_refl _)
  rw [hlevel]
  simp only [above, upper, List.filter_filter]
  congr 1
  refine List.filter_congr fun o _ => ?_
  rw [← decide_not, ← Bool.decide_and, decide_eq_decide]
  simp only [Tick.le_iff, Tick.lt_iff, Tick.ext_iff]
  omega

/-- All offers are those from a tick upwards and those below it. -/
theorem perm_upper_append : offers.Perm
    (upper t offers ++ offers.filter fun o => decide (o.tick < t)) := by
  have h := List.filter_append_perm (fun o : Offer => decide (t ≤ o.tick)) offers
  refine h.symm.trans (List.Perm.of_eq ?_)
  unfold upper
  congr 1
  refine List.filter_congr fun o _ => ?_
  rw [← decide_not, decide_eq_decide]
  simp only [Tick.le_iff, Tick.lt_iff]
  omega

/-! ## Sums -/

/-- Fewer offers have a smaller sum. -/
theorem sum_le_of_sublist (f : Offer → Nat) (h : offers.Sublist offers') :
    (offers.map f).sum ≤ (offers'.map f).sum :=
  (h.map f).sum_le_sum fun _ _ => Nat.zero_le _

/-- The sum above a tick is a part of the whole. -/
theorem sum_above_le (f : Offer → Nat) : ((above t offers).map f).sum ≤ (offers.map f).sum :=
  sum_le_of_sublist f List.filter_sublist

/-- The sum from a tick on is the one at the tick and the one above it. -/
theorem sum_upper (f : Offer → Nat) :
    ((upper t offers).map f).sum = ((level t offers).map f).sum + ((above t offers).map f).sum := by
  rw [(upper_perm.map f).sum_eq, List.map_append, List.sum_append]

/-- A sum over offers none of which is below a tick. -/
theorem sum_eq_of_forall_le (f : Offer → Nat) (h : ∀ o ∈ offers, t ≤ o.tick) :
    (offers.map f).sum = ((level t offers).map f).sum + ((above t offers).map f).sum := by
  rw [← sum_upper, upper_eq_self h]

/-- The sum from a tick on is a part of the sum above a lower tick. -/
theorem sum_upper_le_above (f : Offer → Nat) (h : s < t) :
    ((upper t offers).map f).sum ≤ ((above s offers).map f).sum := by
  have hsub : upper t (above s offers) = upper t offers := by
    simp only [above, upper, List.filter_filter]
    refine List.filter_congr fun o _ => ?_
    rw [← Bool.decide_and, decide_eq_decide]
    simp only [Tick.le_iff, Tick.lt_iff] at h ⊢
    omega
  rw [← hsub]
  exact sum_le_of_sublist f List.filter_sublist

/-! ## Where offers clear -/

/-- Whether a cap is reached does not depend on the order of the offers. -/
theorem Reaches.of_perm (h : offers.Perm offers') (hr : Reaches caps offers) :
    Reaches caps offers' := by
  unfold Reaches at hr ⊢
  rwa [← (h.map base).sum_eq, ← (h.map demand).sum_eq]

/-- More offers reach what fewer reach. -/
theorem Reaches.of_sublist (h : offers.Sublist offers') (hr : Reaches caps offers) :
    Reaches caps offers' :=
  hr.imp (fun hb => Nat.le_trans hb (sum_le_of_sublist base h))
    fun hd => Nat.le_trans hd (sum_le_of_sublist demand h)

/-- Offers clear at one tick at most. -/
theorem ClearsAt.unique (hs : ClearsAt caps offers s) (ht : ClearsAt caps offers t) : s = t := by
  obtain ⟨⟨o, ho, rfl⟩, hrs, hhs⟩ := hs
  obtain ⟨⟨o', ho', rfl⟩, hrt, hht⟩ := ht
  rcases Int.lt_trichotomy o.tick.index o'.tick.index with hlt | heq | hgt
  · exact absurd hrt (hhs o' ho' hlt)
  · exact Tick.ext heq
  · exact absurd hrs (hht o ho hgt)

/-- Where offers clear depends on the offers from there upwards, in any order. -/
theorem ClearsAt.congr (hp : (upper t offers).Perm (upper t offers'))
    (h : ClearsAt caps offers t) : ClearsAt caps offers' t := by
  obtain ⟨⟨o, ho, rfl⟩, hr, hh⟩ := h
  have mem {o' : Offer} (ht : o.tick ≤ o'.tick) : o' ∈ offers' → o' ∈ offers := fun ho' =>
    (mem_upper.1 (hp.mem_iff.2 (mem_upper.2 ⟨ho', ht⟩))).1
  refine ⟨⟨o, (mem_upper.1 (hp.mem_iff.1 (mem_upper.2 ⟨ho, Int.le_refl _⟩))).1, rfl⟩,
    hr.of_perm hp, fun o' ho' hlt hr' => ?_⟩
  have hle : o.tick ≤ o'.tick := Int.le_of_lt hlt
  refine hh o' (mem hle ho') hlt (hr'.of_perm ?_)
  have hcut : (upper o'.tick (upper o.tick offers')).Perm (upper o'.tick (upper o.tick offers)) :=
    hp.symm.filter _
  rwa [upper_upper hle, upper_upper hle] at hcut

/-- Offers that reach a cap from some tick upwards clear at that tick or above it. -/
theorem exists_clearsAt {o : Offer} (ho : o ∈ offers) (hr : Reaches caps (upper o.tick offers)) :
    ∃ t, ClearsAt caps offers t ∧ o.tick ≤ t := by
  -- the distance to the end of the range of ticks bounds how often a higher tick can be found
  induction hn : (0x80000000 - o.tick.index).toNat using Nat.strong_induction_on
    generalizing o with
  | _ n ih =>
    by_cases hmax : ∃ o' ∈ offers, o.tick < o'.tick ∧ Reaches caps (upper o'.tick offers)
    · obtain ⟨o', ho', hlt, hr'⟩ := hmax
      rw [Tick.lt_iff] at hlt
      have hbound := o'.tick.index_lt
      obtain ⟨t, ht, hle⟩ := ih _ (by omega) ho' hr' rfl
      rw [Tick.le_iff] at hle
      exact ⟨t, ht, by rw [Tick.le_iff]; omega⟩
    · exact ⟨o.tick, ⟨⟨o, ho, rfl⟩, hr, fun o' ho' hlt hr' => hmax ⟨o', ho', hlt, hr'⟩⟩,
        Int.le_refl _⟩

/-- More offers leave the clearing tick where it is or raise it. -/
theorem ClearsAt.of_sublist (h : ClearsAt caps offers t) (hs : offers.Sublist offers') :
    ∃ t', ClearsAt caps offers' t' ∧ t ≤ t' := by
  obtain ⟨⟨o, ho, rfl⟩, hr, -⟩ := h
  exact exists_clearsAt (hs.subset ho) (hr.of_sublist (hs.filter _))

/-- Where offers clear does not depend on their order. -/
theorem ClearsAt.of_perm (hp : offers.Perm offers') (h : ClearsAt caps offers t) :
    ClearsAt caps offers' t :=
  h.congr (hp.filter _)

/-- A lost tick stays lost when an offer is added. -/
theorem Lost.cons (h : Lost caps offers t) (o : Offer) : Lost caps (o :: offers) t := by
  obtain ⟨c, hc, hlt⟩ := h
  obtain ⟨c', hc', hle⟩ := hc.of_sublist (List.sublist_cons_self o offers)
  exact ⟨c', hc', Int.lt_of_lt_of_le hlt hle⟩

/-- Whether a tick is lost does not depend on the order of the offers. -/
theorem Lost.of_perm (hp : offers.Perm offers') (h : Lost caps offers t) :
    Lost caps offers' t := by
  obtain ⟨c, hc, hlt⟩ := h
  exact ⟨c, hc.of_perm hp, hlt⟩

end Offer

end BatchAuction
