import BatchAuction.Proofs.Tick.Order
import Mathlib.Data.Nat.Cast.Order.Field

/-!
# How far a price is from the exact power

The price of a legal tick is the power `1.0001 ^ t` within one part in `10 ^ 12` and one unit of the
last place (`Tick.price_tracks_power`). A power that is built from the table has been rounded down
at most 38 times, also at the highest tick, which is the last factor itself
(`Price.near_raise_legal`). So it falls short of the exact power by no more than that part
(`Price.Near.tracks`). The reciprocal of such a power is at least the exact one and exceeds it by no
more than that part, and then it is rounded down once more, which may take one unit
(`Price.Near.reciprocal_tracks`).
-/

namespace BatchAuction

namespace Price

variable {n : Nat} {a : Amount} {x : ℚ}

/-- The part of the exact power by which a price may miss it. -/
def tolerance : ℚ := 1 / 10 ^ 12

/-- The tolerance is positive. -/
theorem tolerance_pos : 0 < tolerance := by
  norm_num [tolerance]

/-- What 38 roundings take away is within the tolerance. -/
theorem one_sub_tolerance_le : 1 - tolerance ≤ kept ^ 38 := by
  norm_num [tolerance, kept, Amount.scale]

/-- And so is what their reciprocal adds. -/
theorem inv_kept_pow_le : (kept ^ 38)⁻¹ ≤ 1 + tolerance := by
  norm_num [tolerance, kept, Amount.scale]

/-- A number is an exact one, counted in units of the last place, but for the tolerance and one such
unit. -/
def Tracks (x : ℚ) (a : Amount) : Prop :=
  |a.toNat - Amount.scale.toNat * x| ≤ 1 + tolerance * (Amount.scale.toNat * x)

/-- An amount is its value at the scale. -/
theorem toNat_eq_scale_mul_value (a : Amount) :
    (a.toNat : ℚ) = Amount.scale.toNat * value a := by
  rw [value, mul_div_cancel₀ _ scale_pos.ne']

/-- A number that has been rounded down at most 38 times falls short of the exact power by the
tolerance at most. -/
theorem Near.tracks (h : Near 38 n a) : Tracks (ratio ^ n) a := by
  have hpow := pow_pos ratio_pos n
  have hupper : Amount.scale.toNat * value a ≤ Amount.scale.toNat * ratio ^ n :=
    mul_le_mul_of_nonneg_left h.le scale_pos.le
  have hlower : Amount.scale.toNat * ratio ^ n * (1 - tolerance) ≤ Amount.scale.toNat * value a :=
    calc Amount.scale.toNat * ratio ^ n * (1 - tolerance)
        ≤ Amount.scale.toNat * ratio ^ n * kept ^ 38 :=
          mul_le_mul_of_nonneg_left one_sub_tolerance_le (mul_pos scale_pos hpow).le
      _ = Amount.scale.toNat * (ratio ^ n * kept ^ 38) := mul_assoc _ _ _
      _ ≤ Amount.scale.toNat * value a := mul_le_mul_of_nonneg_left h.ge scale_pos.le
  have hroom : 0 ≤ tolerance * (Amount.scale.toNat * ratio ^ n) :=
    (mul_pos tolerance_pos (mul_pos scale_pos hpow)).le
  rw [Tracks, toNat_eq_scale_mul_value, abs_le]
  constructor <;> linarith

/-! ## Reciprocals -/

/-- A reciprocal is rounded down by less than one unit. -/
theorem reciprocal_bounds (ha : 0 < a.toNat) :
    ((reciprocal a).toNat : ℚ) ≤ Amount.scale.toNat * (value a)⁻¹ ∧
      Amount.scale.toNat * (value a)⁻¹ < (reciprocal a).toNat + 1 := by
  have hpos : (0 : ℚ) < a.toNat := by exact_mod_cast ha
  have hquotient : Amount.scale.toNat * (value a)⁻¹ =
      ((Amount.scale.toNat * Amount.scale.toNat : Nat) : ℚ) / a.toNat := by
    rw [value, inv_div, Nat.cast_mul, mul_div_assoc]
  have hlt := Nat.lt_mul_div_succ (Amount.scale.toNat * Amount.scale.toNat) ha
  rw [Nat.mul_comm a.toNat] at hlt
  rw [hquotient, toNat_reciprocal, div_lt_iff₀ hpos]
  exact ⟨Nat.cast_div_le, by exact_mod_cast hlt⟩

/-- The reciprocal of a number that has been rounded down at most 38 times exceeds the exact one by
the tolerance at most, and falls short of it by less than one unit. -/
theorem Near.reciprocal_tracks (h : Near 38 n a) (ha : 0 < a.toNat) :
    Tracks (ratio ^ n)⁻¹ (reciprocal a) := by
  have hpow := pow_pos ratio_pos n
  have hpart : 0 < ratio ^ n * kept ^ 38 := mul_pos hpow (pow_pos kept_pos 38)
  obtain ⟨hfloor, hceil⟩ := reciprocal_bounds ha
  have hlower : Amount.scale.toNat * (ratio ^ n)⁻¹ ≤ Amount.scale.toNat * (value a)⁻¹ :=
    mul_le_mul_of_nonneg_left (inv_anti₀ (hpart.trans_le h.ge) h.le) scale_pos.le
  have hupper : Amount.scale.toNat * (value a)⁻¹ ≤
      Amount.scale.toNat * (ratio ^ n)⁻¹ * (1 + tolerance) :=
    calc Amount.scale.toNat * (value a)⁻¹
        ≤ Amount.scale.toNat * (ratio ^ n * kept ^ 38)⁻¹ :=
          mul_le_mul_of_nonneg_left (inv_anti₀ hpart h.ge) scale_pos.le
      _ = Amount.scale.toNat * (ratio ^ n)⁻¹ * (kept ^ 38)⁻¹ := by rw [mul_inv, mul_assoc]
      _ ≤ Amount.scale.toNat * (ratio ^ n)⁻¹ * (1 + tolerance) :=
          mul_le_mul_of_nonneg_left inv_kept_pow_le (mul_pos scale_pos (inv_pos.2 hpow)).le
  have hroom : 0 ≤ tolerance * (Amount.scale.toNat * (ratio ^ n)⁻¹) :=
    (mul_pos tolerance_pos (mul_pos scale_pos (inv_pos.2 hpow))).le
  rw [Tracks, abs_le]
  constructor <;> linarith

/-! ## The whole table -/

/-- The last factor of the table, the power of the highest legal tick. -/
def lastPower : Amount := 58667844441422969901301586347865591163491

/-- The last power of the table has been rounded down. -/
theorem rounded_lastPower : Rounded 524288 lastPower := by
  decide +kernel

/-- The highest legal tick uses this power alone. -/
theorem raise_powers_last : raise powers 524288 Amount.scale = lastPower := by
  decide +kernel

/-- The power of a legal exponent has been rounded at most 38 times. -/
theorem near_raise_legal {e : Nat} (he : e ≤ 524288) :
    Near 38 e (raise powers e Amount.scale) := by
  rcases Nat.lt_or_eq_of_le he with hlt | rfl
  · exact near_raise_powers hlt
  · rw [raise_powers_last]
    exact (rounded_lastPower.near (by decide)).mono (by decide)

/-- The power of a legal index tracks the exact one. -/
theorem power_tracks {i : Int} (hlow : -322517 ≤ i) (hhigh : i ≤ 524288) :
    Tracks (ratio ^ i) (power i) := by
  have hnear := near_raise_legal (e := i.natAbs) (by omega)
  unfold power
  simp only
  split
  · rename_i hneg
    have hindex : ratio ^ i = (ratio ^ i.natAbs)⁻¹ := by
      rw [← zpow_natCast, ← zpow_neg, Int.ofNat_natAbs_of_nonpos hneg.le, neg_neg]
    rw [hindex]
    exact hnear.reciprocal_tracks (raise_powers_pos (by omega))
  · rename_i hnonneg
    have hindex : ratio ^ i = ratio ^ i.natAbs := by
      rw [← zpow_natCast, Int.natAbs_of_nonneg (not_lt.1 hnonneg)]
    rw [hindex]
    exact hnear.tracks

end Price

namespace Tick

/-- A legal tick has a price, and its raw value is `10 ^ 18 * 1.0001 ^ t` but for one part in
`10 ^ 12` and one unit. -/
theorem price_tracks_power {t : Tick} (h : t.Legal) :
    ∃ p, t.price = .ok p ∧
      |(p.raw.toNat : ℚ) - 10 ^ 18 * (10001 / 10000) ^ t.index| ≤
        1 + 10 ^ 6 * (10001 / 10000) ^ t.index := by
  refine ⟨_, price_eq_ok_iff.2 ⟨h, rfl⟩, ?_⟩
  have htracks := Price.power_tracks h.1 h.2
  have hscale : (Amount.scale.toNat : ℚ) = 10 ^ 18 := by norm_num [Amount.scale]
  rw [Price.Tracks, hscale, ← mul_assoc] at htracks
  have hpart : Price.tolerance * 10 ^ 18 = 10 ^ 6 := by norm_num [Price.tolerance]
  rwa [hpart] at htracks

/-- At the lowest tick the unit is nearly used up: the raw price is 9861, and the exact one lies
between this and the next number. -/
theorem lowest_price_tracks_power :
    lowest.price = .ok ⟨9861⟩ ∧
      |(9861 : ℚ) - 10 ^ 18 * (10001 / 10000) ^ (-322517 : Int)| ≤
        1 + 10 ^ 6 * (10001 / 10000) ^ (-322517 : Int) := by
  obtain ⟨p, hp, htracks⟩ := price_tracks_power (t := lowest) (by decide)
  have hlowest : lowest.price = .ok ⟨9861⟩ := by decide +kernel
  obtain rfl := Except.ok.inj (hp.symm.trans hlowest)
  exact ⟨hlowest, htracks⟩

end Tick

end BatchAuction
