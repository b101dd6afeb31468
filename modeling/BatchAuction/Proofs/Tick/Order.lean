import BatchAuction.Proofs.Tick.Accuracy

/-!
# A higher tick has a higher price

From exponent to exponent the power of the price base grows (`Price.raise_powers_lt`). The prices of
negative ticks are reciprocals of such powers, rounded down, and the rounding could hide the growth.
It does not where the power is below `10 ^ 14`, less a little: there the growth by nearly the ratio
is more than one unit in the last place of the reciprocal (`Price.reciprocal_lt_of_growth`). The
lowest ticks, whose powers are larger, are looked at one by one. So of two legal ticks the higher
one has the higher price (`Tick.price_lt`), and nothing wraps around on the way to either price
(`Tick.prices_strictly_increase`).
-/

namespace BatchAuction

namespace Price

/-- Powers grow with the exponent over the whole legal range. -/
theorem raise_powers_lt {e e' : Nat} (h : e < e') (he' : e' ≤ 524288) :
    raise powers e Amount.scale < raise powers e' Amount.scale := by
  have below {e e' : Nat} (h : e < e') (he' : e' < 524288) :
      raise powers e Amount.scale < raise powers e' Amount.scale := by
    rw [raise_powers (by omega), raise_powers he']
    exact raise_lt_raise steep_lowPowers (Nat.le_refl _) (Nat.le_refl _) (Nat.le_refl _)
      (Nat.le_refl _) h he'
  rcases Nat.lt_or_eq_of_le he' with hlt | rfl
  · exact below h hlt
  · -- only the highest exponent uses the last factor, so it is compared with the one before it
    have hlast : raise powers 524287 Amount.scale < raise powers 524288 Amount.scale := by
      decide +kernel
    rcases Nat.lt_or_eq_of_le (Nat.le_of_lt_succ h) with hlt | rfl
    · exact Nat.lt_trans (below hlt (by decide)) hlast
    · exact hlast

/-- Up to the highest legal tick the powers do not fall. -/
theorem raise_powers_mono {e e' : Nat} (h : e ≤ e') (he' : e' ≤ 524288) :
    raise powers e Amount.scale ≤ raise powers e' Amount.scale := by
  rcases Nat.lt_or_eq_of_le h with hlt | rfl
  · exact Nat.le_of_lt (raise_powers_lt hlt he')
  · exact Nat.le_refl _

/-! ## Reciprocals -/

/-- A reciprocal is a quotient, rounded down. -/
theorem toNat_reciprocal (a : Amount) :
    (reciprocal a).toNat = Amount.scale.toNat * Amount.scale.toNat / a.toNat := by
  have hsquare : (Amount.scale.mulMod Amount.scale).toNat =
      Amount.scale.toNat * Amount.scale.toNat := by decide +kernel
  rw [← hsquare]
  rfl

/-- A larger number has no larger reciprocal. -/
theorem reciprocal_anti {a b : Amount} (ha : 0 < a.toNat) (h : a ≤ b) :
    reciprocal b ≤ reciprocal a :=
  Nat.div_le_div_left h ha

/-- Quotients of one number that differ by one or more before they are rounded down differ after
it. -/
theorem div_lt_div_of_mul_le {a b q : Nat} (ha : 0 < a) (hb : 0 < b)
    (h : a * (b + q) ≤ b * q) : q / b < q / a := by
  refine Nat.lt_of_lt_of_le (Nat.lt_succ_self _) ((Nat.le_div_iff_mul_le ha).2 ?_)
  refine Nat.le_of_mul_le_mul_right ?_ hb
  calc (q / b + 1) * a * b = a * (b + q / b * b) := by ring
    _ ≤ a * (b + q) := Nat.mul_le_mul_left _ (Nat.add_le_add_left (Nat.div_mul_le_self _ _) _)
    _ ≤ q * b := Nat.mul_comm b q ▸ h

/-- Two numbers in the ratio of neighbouring powers have different reciprocals, unless the larger
one is close to `10 ^ 14` or above. -/
theorem reciprocal_lt_of_growth {a b : Amount} (ha : 0 < a.toNat) (hb : 0 < b.toNat)
    (hgrowth : value a * (ratio * kept ^ 38) ≤ value b)
    (hbound : b.toNat ≤ 99999999999900 * Amount.scale.toNat) : reciprocal b < reciprocal a := by
  have hpos := scale_pos
  have hratio : (a.toNat : ℚ) * (ratio * kept ^ 38) ≤ b.toNat := by
    rwa [value, value, div_mul_eq_mul_div, div_le_div_iff_of_pos_right hpos] at hgrowth
  -- the growth is nearly one part in `10 ^ 4`, and `10 ^ 4` times the bound is the square of the
  -- scale, in units of the last place
  have hroom : (b.toNat : ℚ) + Amount.scale.toNat * Amount.scale.toNat ≤
      ratio * kept ^ 38 * (Amount.scale.toNat * Amount.scale.toNat) := by
    have hcast : (b.toNat : ℚ) ≤ 99999999999900 * Amount.scale.toNat := by exact_mod_cast hbound
    refine (add_le_add_left hcast _).trans ?_
    norm_num [ratio, kept, Amount.scale]
  have hgap : (a.toNat : ℚ) * (b.toNat + Amount.scale.toNat * Amount.scale.toNat) ≤
      b.toNat * (Amount.scale.toNat * Amount.scale.toNat) :=
    calc (a.toNat : ℚ) * (b.toNat + Amount.scale.toNat * Amount.scale.toNat)
        ≤ a.toNat * (ratio * kept ^ 38 * (Amount.scale.toNat * Amount.scale.toNat)) :=
          mul_le_mul_of_nonneg_left hroom (Nat.cast_nonneg _)
      _ = a.toNat * (ratio * kept ^ 38) * (Amount.scale.toNat * Amount.scale.toNat) := by ring
      _ ≤ b.toNat * (Amount.scale.toNat * Amount.scale.toNat) :=
          mul_le_mul_of_nonneg_right hratio (mul_pos hpos hpos).le
  rw [Amount.lt_iff, toNat_reciprocal, toNat_reciprocal]
  exact div_lt_div_of_mul_le ha hb (by exact_mod_cast hgap)

/-- Up to the highest legal tick the powers are positive. -/
theorem raise_powers_pos {e : Nat} (he : e ≤ 524288) :
    0 < (raise powers e Amount.scale).toNat :=
  Nat.lt_of_lt_of_le (by decide) (scale_le_raise_powers he)

/-- The powers of neighbouring legal exponents have different reciprocals. -/
theorem reciprocal_raise_succ_lt {e : Nat} (he : e + 1 ≤ 322517) :
    reciprocal (raise powers (e + 1) Amount.scale) < reciprocal (raise powers e Amount.scale) := by
  rcases Nat.lt_or_ge e 322378 with hlow | hhigh
  · have hlast : (raise powers 322378 Amount.scale).toNat ≤
        99999999999900 * Amount.scale.toNat := by
      decide +kernel
    have hmono := raise_powers_mono (show e + 1 ≤ 322378 from hlow) (by decide)
    exact reciprocal_lt_of_growth (raise_powers_pos (by omega)) (raise_powers_pos (by omega))
      (value_mul_le_value_succ (by omega)) (Nat.le_trans hmono hlast)
  · -- here neighbouring reciprocals differ by one, although the quotients before rounding do not
    have hrest : ∀ k < 139, reciprocal (raise powers (322378 + k + 1) Amount.scale) <
        reciprocal (raise powers (322378 + k) Amount.scale) := by
      decide +kernel
    have hk := hrest (e - 322378) (by omega)
    rwa [Nat.add_sub_cancel' hhigh] at hk

/-- The reciprocals of the powers fall as the exponent rises. -/
theorem reciprocal_raise_lt {e e' : Nat} (h : e < e') (he' : e' ≤ 322517) :
    reciprocal (raise powers e' Amount.scale) < reciprocal (raise powers e Amount.scale) := by
  have hanti := reciprocal_anti (raise_powers_pos (e := e + 1) (by omega))
    (raise_powers_mono h (by omega : e' ≤ 524288))
  exact Nat.lt_of_le_of_lt hanti (reciprocal_raise_succ_lt (by omega))

/-! ## Prices -/

/-- A power grows with its index. -/
theorem power_lt {i j : Int} (hlow : -322517 ≤ i) (h : i < j) (hhigh : j ≤ 524288) :
    power i < power j := by
  unfold power
  simp only
  split
  · split
    · exact reciprocal_raise_lt (by omega) (by omega)
    · -- the reciprocal is below that of one whole unit, and the power at least one whole unit
      have hunit : reciprocal (raise powers 0 Amount.scale) = Amount.scale := by decide +kernel
      have hlt := reciprocal_raise_lt (show 0 < i.natAbs by omega) (by omega)
      rw [hunit] at hlt
      exact Nat.lt_of_lt_of_le hlt (scale_le_raise_powers (by omega))
  · rw [if_neg (by omega)]
    exact raise_powers_lt (by omega) (by omega)

end Price

namespace Tick

/-- The price of a tick is below the price of any higher tick. -/
theorem price_lt {s t : Tick} {p q : Price} (h : s < t) (hp : s.price = .ok p)
    (hq : t.price = .ok q) : p.raw < q.raw := by
  obtain ⟨hs, rfl⟩ := price_eq_ok_iff.1 hp
  obtain ⟨ht, rfl⟩ := price_eq_ok_iff.1 hq
  exact Price.power_lt hs.1 h ht.2

/-- And at most the price of any tick that is not below it. -/
theorem price_mono {s t : Tick} {p q : Price} (h : s ≤ t) (hp : s.price = .ok p)
    (hq : t.price = .ok q) : p.raw ≤ q.raw := by
  rcases Int.lt_or_eq_of_le h with hlt | heq
  · exact Nat.le_of_lt (price_lt hlt hp hq)
  · obtain rfl := Tick.ext heq
    obtain rfl : p = q := Except.ok.inj (hp.symm.trans hq)
    exact Nat.le_refl _

/-- Of two legal ticks the higher one has the higher price, and both prices are positive. No product
in the exponentiation or in the reciprocal of either price reaches `2 ^ 256`, and no divisor is
zero. -/
theorem prices_strictly_increase {s t : Tick} (hs : s.Legal) (ht : t.Legal) (h : s < t) :
    ∃ p q, s.price = .ok p ∧ t.price = .ok q ∧ p.raw.toNat < q.raw.toNat ∧ 0 < p.raw.toNat ∧
      Price.Exact s.index ∧ Price.Exact t.index := by
  have hp : s.price = .ok ⟨Price.power s.index⟩ := price_eq_ok_iff.2 ⟨hs, rfl⟩
  have hq : t.price = .ok ⟨Price.power t.index⟩ := price_eq_ok_iff.2 ⟨ht, rfl⟩
  exact ⟨_, _, hp, hq, price_lt h hp hq, price_raw_pos hp, Price.exact_of_legal hs,
    Price.exact_of_legal ht⟩

/-- The second lowest legal tick. -/
def secondLowest : Tick := ⟨-322516, by decide, by decide⟩

/-- At the lowest ticks the difference is a single unit. -/
theorem lowest_prices_increase :
    ∃ p q, lowest.price = .ok p ∧ secondLowest.price = .ok q ∧ p.raw.toNat < q.raw.toNat ∧
      p.raw.toNat = 9861 ∧ q.raw.toNat = 9862 := by
  obtain ⟨p, q, hp, hq, hlt, -⟩ :=
    prices_strictly_increase (s := lowest) (t := secondLowest) (by decide) (by decide) (by decide)
  have hp' : lowest.price = .ok ⟨9861⟩ := by decide +kernel
  have hq' : secondLowest.price = .ok ⟨9862⟩ := by decide +kernel
  obtain rfl := Except.ok.inj (hp.symm.trans hp')
  obtain rfl := Except.ok.inj (hq.symm.trans hq')
  exact ⟨_, _, hp, hq, hlt, by decide, by decide⟩

end Tick

end BatchAuction
