import BatchAuction.Tick.Price
import Mathlib.Tactic.Ring

/-!
# Powers of the price base grow with the exponent

`Price.raise` multiplies the factors at the set binary digits of an exponent, lowest digit first.
The table of factors is *steep* (`Price.Steep`): every factor exceeds whatever the factors before it
can build up, and no product wraps. So of two exponents the one that wins at the highest digit at
which they differ has the larger power (`Price.raise_lt_raise`). Two consequences are used
elsewhere. A legal tick has a price above zero (`Tick.price_raw_pos`): the power that is inverted
for the lowest legal tick is below the square of the scale. And its price is computed exactly
(`Price.exact_of_legal`): arithmetic modulo `2 ^ 256` reduces nothing there.
-/

namespace BatchAuction

namespace Price

/-- The factors of a list can be multiplied onto any value up to `top`: each is at least one whole
unit, above everything built before it, and the product stays below the modulus. -/
def Steep : Nat → List Amount → Prop
  | _, [] => True
  | top, f :: fs =>
    Amount.scale.toNat ≤ f.toNat ∧ top < f.toNat ∧ top * f.toNat < Amount.modulus ∧
      Steep (top * f.toNat / Amount.scale.toNat) fs

instance Steep.decidable : (top : Nat) → (fs : List Amount) → Decidable (Steep top fs)
  | _, [] => inferInstanceAs (Decidable True)
  | top, f :: fs =>
    have := Steep.decidable (top * f.toNat / Amount.scale.toNat) fs
    inferInstanceAs (Decidable (_ ∧ _ ∧ _ ∧ _))

/-- A product that does not wrap is the exact one, rounded down. -/
theorem toNat_rescaledProduct {a b : Amount} (h : a.toNat * b.toNat < Amount.modulus) :
    (rescaledProduct a b).toNat = a.toNat * b.toNat / Amount.scale.toNat := by
  show (a.mulMod b).toNat / _ = _
  rw [Amount.mulMod, Amount.toNat_ofNat_of_lt h]

/-- A whole unit or more, times a factor of a steep list, stays between the factor and the next
bound. -/
theorem rescaledProduct_bounds {top : Nat} {f x : Amount} {fs : List Amount}
    (h : Steep top (f :: fs)) (hx : Amount.scale ≤ x) (hx' : x.toNat ≤ top) :
    f ≤ rescaledProduct x f ∧
      (rescaledProduct x f).toNat ≤ top * f.toNat / Amount.scale.toNat := by
  obtain ⟨_, _, hfit, _⟩ := h
  have hle : x.toNat * f.toNat ≤ top * f.toNat := Nat.mul_le_mul_right _ hx'
  rw [Amount.le_iff, toNat_rescaledProduct (Nat.lt_of_le_of_lt hle hfit)]
  refine ⟨?_, Nat.div_le_div_right hle⟩
  rw [Nat.le_div_iff_mul_le (by decide), Nat.mul_comm]
  exact Nat.mul_le_mul_right _ hx

/-- What is multiplied in at one digit of the exponent. -/
theorem digit_bounds {top : Nat} {f x : Amount} {fs : List Amount} (h : Steep top (f :: fs))
    (hx : Amount.scale ≤ x) (hx' : x.toNat ≤ top) (e : Nat) :
    Amount.scale ≤ (if e % 2 = 1 then rescaledProduct x f else x) ∧
      (if e % 2 = 1 then rescaledProduct x f else x).toNat ≤
        top * f.toNat / Amount.scale.toNat := by
  have hstep := rescaledProduct_bounds h hx hx'
  have hf := h.1
  split
  · exact ⟨Nat.le_trans hf hstep.1, hstep.2⟩
  · refine ⟨hx, ?_⟩
    rw [Nat.le_div_iff_mul_le (by decide)]
    exact Nat.mul_le_mul hx' hf

/-- A power is at least what it starts from. -/
theorem scale_le_raise {fs : List Amount} :
    ∀ {top : Nat} {x : Amount} {e : Nat}, Steep top fs → Amount.scale ≤ x → x.toNat ≤ top →
      Amount.scale ≤ raise fs e x := by
  induction fs with
  | nil => intro _ _ _ _ hx _; exact hx
  | cons f fs ih =>
    intro top x e h hx hx'
    have hd := digit_bounds h hx hx' e
    exact ih h.2.2.2 hd.1 hd.2

/-- Multiplying a larger value by the same factors gives a larger power. -/
theorem raise_lt_raise_of_lt {fs : List Amount} :
    ∀ {top : Nat} {x y : Amount} (e : Nat), Steep top fs → Amount.scale ≤ x → y.toNat ≤ top →
      x < y → raise fs e x < raise fs e y := by
  induction fs with
  | nil => intro _ _ _ _ _ _ _ hxy; exact hxy
  | cons f fs ih =>
    intro top x y e h hx hy hxy
    rw [Amount.lt_iff] at hxy
    have hy' : Amount.scale ≤ y := Nat.le_trans hx (Nat.le_of_lt hxy)
    have hdx := digit_bounds h hx (by omega) e
    have hdy := digit_bounds h hy' hy e
    refine ih _ h.2.2.2 hdx.1 hdy.2 ?_
    split
    · obtain ⟨hf, _, hfit, _⟩ := h
      have hyf : y.toNat * f.toNat ≤ top * f.toNat := Nat.mul_le_mul_right _ hy
      have hxf : x.toNat * f.toNat + f.toNat ≤ y.toNat * f.toNat := by
        have := Nat.mul_le_mul_right f.toNat (Nat.succ_le_of_lt hxy)
        rwa [Nat.succ_mul] at this
      rw [Amount.lt_iff, toNat_rescaledProduct (by omega), toNat_rescaledProduct (by omega)]
      -- the factor is at least one whole unit, so the quotients differ by at least one
      have hstep : x.toNat * f.toNat / Amount.scale.toNat + 1 ≤
          (x.toNat * f.toNat + f.toNat) / Amount.scale.toNat := by
        rw [Nat.le_div_iff_mul_le (by decide), Nat.succ_mul]
        have := Nat.div_mul_le_self (x.toNat * f.toNat) Amount.scale.toNat
        omega
      exact Nat.lt_of_lt_of_le hstep (Nat.div_le_div_right hxf)
    · exact hxy

/-- Powers of a steep list grow with the exponent, whatever values they start from: at the highest
digit where the exponents differ one power takes a factor that exceeds all the other one has. -/
theorem raise_lt_raise {fs : List Amount} :
    ∀ {top : Nat} {x y : Amount} {e e' : Nat}, Steep top fs → Amount.scale ≤ x → x.toNat ≤ top →
      Amount.scale ≤ y → y.toNat ≤ top → e < e' → e' < 2 ^ fs.length →
      raise fs e x < raise fs e' y := by
  induction fs with
  | nil =>
    intro _ _ _ e e' _ _ _ _ _ he he'
    simp only [List.length_nil, Nat.pow_zero] at he'
    omega
  | cons f fs ih =>
    intro top x y e e' h hx hx' hy hy' he he'
    have hlen : 2 ^ (f :: fs).length = 2 * 2 ^ fs.length := by
      rw [List.length_cons, Nat.pow_succ, Nat.mul_comm]
    have hdx := digit_bounds h hx hx' e
    have hdy := digit_bounds h hy hy' e'
    rcases Nat.lt_or_ge (e / 2) (e' / 2) with hlt | hge
    · exact ih h.2.2.2 hdx.1 hdx.2 hdy.1 hdy.2 hlt (by omega)
    · -- only the lowest digit differs, so the larger exponent is odd and the smaller one even
      have heq : e / 2 = e' / 2 := by omega
      unfold raise
      rw [← heq]
      refine raise_lt_raise_of_lt _ h.2.2.2 hdx.1 hdy.2 ?_
      rw [if_neg (by omega), if_pos (by omega)]
      exact Nat.lt_of_le_of_lt hx' (Nat.lt_of_lt_of_le h.2.1 (rescaledProduct_bounds h hy hy').1)

/-! ## The table of factors -/

/-- The factors but the last, which only the highest legal tick uses. -/
def lowPowers : List Amount := powers.take 19

/-- The low powers of the table are steep. -/
theorem steep_lowPowers : Steep Amount.scale.toNat lowPowers := by
  decide +kernel

/-- Factors beyond the digits of an exponent play no part. -/
theorem raise_append_of_lt {fs gs : List Amount} :
    ∀ {x : Amount} {e : Nat}, e < 2 ^ fs.length → raise (fs ++ gs) e x = raise fs e x := by
  induction fs with
  | nil =>
    intro x e he
    obtain rfl : e = 0 := by simpa using he
    induction gs with
    | nil => rfl
    | cons g gs ih => exact ih
  | cons f fs ih =>
    intro x e he
    rw [List.length_cons, Nat.pow_succ] at he
    exact ih (by omega)

/-- Below `2 ^ 19` the last factor plays no part. -/
theorem raise_powers {e : Nat} (he : e < 524288) (x : Amount) :
    raise powers e x = raise lowPowers e x := by
  show raise (lowPowers ++ powers.drop 19) e x = _
  exact raise_append_of_lt he

/-- The power of a legal exponent is at least one whole unit. -/
theorem scale_le_raise_powers {e : Nat} (he : e ≤ 524288) :
    Amount.scale ≤ raise powers e Amount.scale := by
  rcases Nat.lt_or_eq_of_le he with hlt | rfl
  · rw [raise_powers hlt]
    exact scale_le_raise steep_lowPowers (Nat.le_refl _) (Nat.le_refl _)
  · decide +kernel

/-- The power that is inverted for a legal tick does not exceed the square of the scale. -/
theorem raise_powers_le {e : Nat} (he : e ≤ 322517) :
    (raise powers e Amount.scale).toNat ≤ Amount.scale.toNat * Amount.scale.toNat := by
  have hlast : (raise lowPowers 322517 Amount.scale).toNat ≤
      Amount.scale.toNat * Amount.scale.toNat := by
    decide +kernel
  rw [raise_powers (by omega)]
  rcases Nat.lt_or_eq_of_le he with hlt | rfl
  · have hmono : raise lowPowers e Amount.scale < raise lowPowers 322517 Amount.scale :=
      raise_lt_raise steep_lowPowers (Nat.le_refl _) (Nat.le_refl _) (Nat.le_refl _)
        (Nat.le_refl _) hlt (by decide)
    exact Nat.le_trans (Nat.le_of_lt hmono) hlast
  · exact hlast

/-- The power of a legal index is positive. -/
theorem power_pos {i : Int} (hlow : -322517 ≤ i) (hhigh : i ≤ 524288) : 0 < (power i).toNat := by
  have hbase := scale_le_raise_powers (e := i.natAbs) (by omega)
  have hscale : 0 < Amount.scale.toNat := by decide
  rw [Amount.le_iff] at hbase
  unfold power
  split
  · have hle := raise_powers_le (e := i.natAbs) (by omega)
    have hsquare : (Amount.scale.mulMod Amount.scale).toNat =
        Amount.scale.toNat * Amount.scale.toNat := by decide +kernel
    simp only [reciprocal, hsquare]
    exact Nat.div_pos hle (by omega)
  · exact Nat.lt_of_lt_of_le hscale hbase

/-! ## Products that do not wrap around -/

/-- Every product that `raise` forms fits. -/
def Unwrapped : List Amount → Nat → Amount → Prop
  | [], _, _ => True
  | f :: fs, e, acc =>
    (e % 2 = 1 → acc.toNat * f.toNat < Amount.modulus) ∧
      Unwrapped fs (e / 2) (if e % 2 = 1 then rescaledProduct acc f else acc)

/-- Nothing wraps around in the price of an index, and the number that is inverted is not zero. -/
structure Exact (index : Int) : Prop where
  products : Unwrapped powers index.natAbs Amount.scale
  square : Amount.scale.toNat * Amount.scale.toNat < Amount.modulus
  divisor : 0 < (raise powers index.natAbs Amount.scale).toNat

/-- Over steep factors no product wraps around. -/
theorem Steep.unwrapped {fs : List Amount} :
    ∀ {top : Nat} {x : Amount} (e : Nat), Steep top fs → Amount.scale ≤ x → x.toNat ≤ top →
      Unwrapped fs e x := by
  induction fs with
  | nil => exact fun _ _ _ _ => trivial
  | cons f fs ih =>
    intro top x e h hx hx'
    have hd := digit_bounds h hx hx' e
    refine ⟨fun _ => ?_, ih _ h.2.2.2 hd.1 hd.2⟩
    exact Nat.lt_of_le_of_lt (Nat.mul_le_mul_right _ hx') h.2.2.1

/-- An exponent without digits forms no product. -/
theorem unwrapped_zero (fs : List Amount) (x : Amount) : Unwrapped fs 0 x := by
  induction fs with
  | nil => exact trivial
  | cons f fs ih => exact ⟨fun h => (nomatch h), ih⟩

/-- Factors beyond the digits of an exponent form no product. -/
theorem Unwrapped.append {fs gs : List Amount} :
    ∀ {x : Amount} {e : Nat}, e < 2 ^ fs.length → Unwrapped fs e x → Unwrapped (fs ++ gs) e x := by
  induction fs with
  | nil =>
    intro x e he _
    obtain rfl : e = 0 := by simpa using he
    exact unwrapped_zero gs x
  | cons f fs ih =>
    intro x e he h
    rw [List.length_cons, Nat.pow_succ] at he
    exact ⟨h.1, ih (by omega) h.2⟩

/-- The products for a legal exponent fit. -/
theorem unwrapped_powers {e : Nat} (he : e ≤ 524288) : Unwrapped powers e Amount.scale := by
  rcases Nat.lt_or_eq_of_le he with hlt | rfl
  · show Unwrapped (lowPowers ++ powers.drop 19) e Amount.scale
    exact (steep_lowPowers.unwrapped e (Nat.le_refl _) (Nat.le_refl _)).append hlt
  · -- the highest legal exponent has its last digit set and no other
    simp only [powers, Unwrapped]
    decide +kernel

/-- The price of a legal tick is computed exactly. -/
theorem exact_of_legal {t : Tick} (h : t.Legal) : Exact t.index := by
  have hlow : -322517 ≤ t.index := h.1
  have hhigh : t.index ≤ 524288 := h.2
  have hmagnitude : t.index.natAbs ≤ 524288 := by omega
  exact ⟨unwrapped_powers hmagnitude, by decide,
    Nat.lt_of_lt_of_le (by decide) (scale_le_raise_powers hmagnitude)⟩

end Price

/-- A price is positive. -/
theorem Tick.price_raw_pos {t : Tick} {p : Price} (h : t.price = .ok p) : 0 < p.raw.toNat := by
  obtain ⟨hlegal, rfl⟩ := Tick.price_eq_ok_iff.1 h
  exact Price.power_pos hlegal.1 hlegal.2

end BatchAuction
