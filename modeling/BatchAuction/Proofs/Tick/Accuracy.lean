import BatchAuction.Proofs.Tick.Power
import Mathlib.Algebra.Order.Field.Rat
import Mathlib.Data.Rat.Cast.Order
import Mathlib.Tactic.Linarith
import Mathlib.Tactic.NormNum
import Mathlib.Tactic.Positivity

/-!
# Powers of the price base are accurate

A fixed-point number stands for a fraction, its `Price.value`. Rounding down takes at most one part
in `10 ^ 18` from a number that is at least one whole unit, so a power that has been rounded a known
number of times lies between a known part of the exact power and the exact power (`Price.Near`). The
factors of the table are exact powers, each rounded down once (`Price.tabulated_lowPowers`), and
multiplying one in rounds once more; a power with 19 binary digits in its exponent has been rounded
at most 38 times (`Price.near_raise_powers`). So a power exceeds the one before it by nearly the
whole ratio of neighbouring prices (`Price.value_mul_le_value_succ`).
-/

namespace BatchAuction

namespace Price

/-- What a fixed-point number with 18 decimals stands for. -/
def value (a : Amount) : ℚ := a.toNat / Amount.scale.toNat

/-- The ratio of the prices of neighbouring ticks. -/
def ratio : ℚ := 10001 / 10000

/-- The part that rounding down leaves of a number from one whole unit upwards. -/
def kept : ℚ := 1 - 1 / Amount.scale.toNat

/-- A number stands for a power of the ratio, but for some roundings down. -/
structure Near (roundings exponent : Nat) (a : Amount) : Prop where
  le : value a ≤ ratio ^ exponent
  ge : ratio ^ exponent * kept ^ roundings ≤ value a

variable {a b : Amount} {j k m n : Nat}

/-- The scale is positive. -/
theorem scale_pos : (0 : ℚ) < Amount.scale.toNat := by
  norm_num [Amount.scale]

/-- So is the ratio of two neighbouring prices. -/
theorem ratio_pos : 0 < ratio := by
  norm_num [ratio]

/-- The part that rounding down leaves is positive. -/
theorem kept_pos : 0 < kept := by
  norm_num [kept, Amount.scale]

/-- And it is at most the whole. -/
theorem kept_le_one : kept ≤ 1 := by
  norm_num [kept, Amount.scale]

/-- The value of an amount is not negative. -/
theorem value_nonneg (a : Amount) : 0 ≤ value a := by
  unfold value
  positivity

/-- An amount that is at least the scale has a value of at least one. -/
theorem one_le_value (h : Amount.scale ≤ a) : 1 ≤ value a := by
  rw [value, one_le_div scale_pos]
  exact_mod_cast h

/-! ## Rounding down -/

/-- A number from one whole unit upwards loses at least the last unit of its value. -/
theorem mul_kept_le {x : ℚ} (h : 1 ≤ x) : x * kept ≤ x - 1 / Amount.scale.toNat := by
  have hulp : (0 : ℚ) ≤ 1 / Amount.scale.toNat := (one_div_pos.2 scale_pos).le
  have hloss : 1 * (1 / (Amount.scale.toNat : ℚ)) ≤ x * (1 / Amount.scale.toNat) :=
    mul_le_mul_of_nonneg_right h hulp
  rw [kept, mul_sub, mul_one]
  linarith

/-- A rounded product is at most the product. -/
theorem value_rescaledProduct_le (hfit : a.toNat * b.toNat < Amount.modulus) :
    value (rescaledProduct a b) ≤ value a * value b := by
  have hdiv : ((a.toNat * b.toNat / Amount.scale.toNat : Nat) : ℚ) * Amount.scale.toNat ≤
      a.toNat * b.toNat := by
    exact_mod_cast Nat.div_mul_le_self _ _
  have hpos := scale_pos
  rw [value, value, value, toNat_rescaledProduct hfit, div_mul_div_comm,
    div_le_div_iff₀ hpos (mul_pos hpos hpos), ← mul_assoc]
  exact mul_le_mul_of_nonneg_right hdiv hpos.le

/-- A rounded product is less than one unit of the last place below the product. -/
theorem sub_le_value_rescaledProduct (hfit : a.toNat * b.toNat < Amount.modulus) :
    value a * value b - 1 / Amount.scale.toNat ≤ value (rescaledProduct a b) := by
  have hlt : (a.toNat : ℚ) * b.toNat <
      Amount.scale.toNat * ((a.toNat * b.toNat / Amount.scale.toNat : Nat) + 1) := by
    exact_mod_cast Nat.lt_mul_div_succ (a.toNat * b.toNat)
      (show 0 < Amount.scale.toNat by decide)
  have hpos := scale_pos
  rw [sub_le_iff_le_add, value, value, value, toNat_rescaledProduct hfit, div_mul_div_comm,
    ← add_div, div_le_div_iff₀ (mul_pos hpos hpos) hpos, ← mul_assoc]
  refine mul_le_mul_of_nonneg_right ?_ hpos.le
  rw [mul_comm (_ + 1)]
  exact hlt.le

/-- A value that is near after some roundings is near after more. -/
theorem Near.mono (h : Near k n a) (hkj : k ≤ j) : Near j n a := by
  have hpow : kept ^ j ≤ kept ^ k := pow_le_pow_of_le_one kept_pos.le kept_le_one hkj
  exact ⟨h.le, (mul_le_mul_of_nonneg_left hpow (pow_pos ratio_pos n).le).trans h.ge⟩

/-- The product of two powers has the roundings of both and one of its own. -/
theorem Near.rescaledProduct (ha : Near k m a) (hb : Near j n b)
    (hfit : a.toNat * b.toNat < Amount.modulus) (hsa : Amount.scale ≤ a) (hsb : Amount.scale ≤ b) :
    Near (k + j + 1) (m + n) (rescaledProduct a b) := by
  have hm := (pow_pos ratio_pos m).le
  have hpart := (mul_pos (pow_pos ratio_pos n) (pow_pos kept_pos j)).le
  constructor
  · rw [pow_add]
    exact (value_rescaledProduct_le hfit).trans (mul_le_mul ha.le hb.le (value_nonneg b) hm)
  · have hone : 1 ≤ value a * value b :=
      one_le_mul_of_one_le_of_one_le (one_le_value hsa) (one_le_value hsb)
    calc ratio ^ (m + n) * kept ^ (k + j + 1)
        = ratio ^ m * kept ^ k * (ratio ^ n * kept ^ j) * kept := by ring
      _ ≤ value a * value b * kept :=
          mul_le_mul_of_nonneg_right (mul_le_mul ha.ge hb.ge hpart (value_nonneg a)) kept_pos.le
      _ ≤ value a * value b - 1 / Amount.scale.toNat := mul_kept_le hone
      _ ≤ value (Price.rescaledProduct a b) := sub_le_value_rescaledProduct hfit

/-! ## The table of factors -/

/-- A factor is the power with an exponent, rounded down. -/
def Rounded (n : Nat) (f : Amount) : Prop :=
  f.toNat * 10000 ^ n ≤ Amount.scale.toNat * 10001 ^ n ∧
    Amount.scale.toNat * 10001 ^ n < (f.toNat + 1) * 10000 ^ n

instance (n : Nat) (f : Amount) : Decidable (Rounded n f) := inferInstanceAs (Decidable (_ ∧ _))

/-- The factors are the powers with the exponents `n`, `2 * n`, `4 * n` and so on. -/
def Tabulated : Nat → List Amount → Prop
  | _, [] => True
  | n, f :: fs => Rounded n f ∧ Tabulated (2 * n) fs

instance Tabulated.decidable : (n : Nat) → (fs : List Amount) → Decidable (Tabulated n fs)
  | _, [] => inferInstanceAs (Decidable True)
  | n, _ :: fs =>
    have := Tabulated.decidable (2 * n) fs
    inferInstanceAs (Decidable (_ ∧ _))

/-- The low powers of the table have been rounded once. -/
theorem tabulated_lowPowers : Tabulated 1 lowPowers := by
  decide +kernel

/-- A factor has been rounded once. -/
theorem Rounded.near (h : Rounded n a) (ha : Amount.scale ≤ a) : Near 1 n a := by
  have hden : (0 : ℚ) < 10000 ^ n := pow_pos (by norm_num) n
  have hle : (a.toNat : ℚ) * 10000 ^ n ≤ Amount.scale.toNat * 10001 ^ n := by exact_mod_cast h.1
  have hlt : (Amount.scale.toNat : ℚ) * 10001 ^ n < (a.toNat + 1) * 10000 ^ n := by
    exact_mod_cast h.2
  have hupper : value a ≤ ratio ^ n := by
    rw [value, ratio, div_pow, div_le_div_iff₀ scale_pos hden]
    linarith
  have hlower : ratio ^ n - 1 / Amount.scale.toNat ≤ value a := by
    rw [sub_le_iff_le_add, value, ratio, div_pow, ← add_div, div_le_div_iff₀ hden scale_pos]
    linarith
  refine ⟨hupper, ?_⟩
  rw [pow_one]
  exact (mul_kept_le ((one_le_value ha).trans hupper)).trans hlower

/-- Each binary digit of the exponent adds at most two roundings. -/
theorem raise_near {fs : List Amount} :
    ∀ {top k m n e : Nat} {x : Amount}, Steep top fs → Tabulated n fs → Amount.scale ≤ x →
      x.toNat ≤ top → Near k m x → e < 2 ^ fs.length →
      Near (k + 2 * fs.length) (m + n * e) (raise fs e x) := by
  induction fs with
  | nil =>
    intro top k m n e x _ _ _ _ h he
    obtain rfl : e = 0 := by simpa using he
    exact h
  | cons f fs ih =>
    intro top k m n e x hsteep htable hx hx' h he
    rw [List.length_cons, Nat.pow_succ] at he
    have hd := digit_bounds hsteep hx hx' e
    obtain ⟨hf, -, hfit, hrest⟩ := hsteep
    have hdigit :
        Near (k + 2) (m + n * (e % 2)) (if e % 2 = 1 then rescaledProduct x f else x) := by
      split
      · rename_i hodd
        rw [hodd, Nat.mul_one]
        have hprod : x.toNat * f.toNat < Amount.modulus :=
          Nat.lt_of_le_of_lt (Nat.mul_le_mul_right _ hx') hfit
        exact h.rescaledProduct (htable.1.near hf) hprod hx hf
      · rename_i hodd
        have heven : e % 2 = 0 := by omega
        rw [heven, Nat.mul_zero, Nat.add_zero]
        exact h.mono (Nat.le_add_right k 2)
    have hall := ih (e := e / 2) hrest htable.2 hd.1 hd.2 hdigit (by omega)
    have hexponent : m + n * (e % 2) + 2 * n * (e / 2) = m + n * e := by
      calc m + n * (e % 2) + 2 * n * (e / 2) = m + n * (2 * (e / 2) + e % 2) := by ring
        _ = m + n * e := by rw [Nat.div_add_mod]
    have hroundings : k + 2 + 2 * fs.length = k + 2 * (f :: fs).length := by
      rw [List.length_cons]
      ring
    rw [hexponent, hroundings] at hall
    exact hall

/-- A whole unit is the power with exponent zero. -/
theorem near_scale : Near 0 0 Amount.scale := by
  have hone : value Amount.scale = 1 := div_self scale_pos.ne'
  refine ⟨?_, ?_⟩
  · rw [hone, pow_zero]
  · rw [hone, pow_zero, pow_zero, mul_one]

/-- The power of an exponent with 19 binary digits has been rounded at most 38 times. -/
theorem near_raise_powers {e : Nat} (he : e < 524288) :
    Near 38 e (raise powers e Amount.scale) := by
  have h := raise_near (e := e) steep_lowPowers tabulated_lowPowers (Nat.le_refl _)
    (Nat.le_refl _) near_scale he
  rw [Nat.zero_add, Nat.zero_add, Nat.one_mul] at h
  rwa [raise_powers he]

/-- From one exponent to the next a power grows by the ratio, but for the roundings. -/
theorem value_mul_le_value_succ {e : Nat} (he : e + 1 < 524288) :
    value (raise powers e Amount.scale) * (ratio * kept ^ 38) ≤
      value (raise powers (e + 1) Amount.scale) := by
  have hgrowth : 0 ≤ ratio * kept ^ 38 := (mul_pos ratio_pos (pow_pos kept_pos 38)).le
  calc value (raise powers e Amount.scale) * (ratio * kept ^ 38)
      ≤ ratio ^ e * (ratio * kept ^ 38) :=
        mul_le_mul_of_nonneg_right (near_raise_powers (Nat.lt_of_succ_lt he)).le hgrowth
    _ = ratio ^ (e + 1) * kept ^ 38 := by ring
    _ ≤ value (raise powers (e + 1) Amount.scale) := (near_raise_powers he).ge

end Price

end BatchAuction
