import BatchAuction.Proofs.Amount.Numeral
import BatchAuction.Tick.PriceText

/-!
# Prices are rendered without loss

A price is written as a plain decimal number while its raw value has 96 bits and as a whole number
of units of the last place beyond that. Either way the text means the raw value divided by `10 ^ 18`
(`Price.value?_text`), so no two prices are written the same. In the other direction, a decimal
number becomes an amount by scaling up or by cutting places. Both come to the same quotient
(`Amount.ofDecimal?_eq`), which always fits, because a coefficient of 96 bits times `10 ^ 18` does.
So only a number below zero has no amount, and every decimal number whose value is that of a price
gives the raw value back, with however many zeros at its end.
-/

namespace BatchAuction

/-! ## Decimal numbers as amounts -/

namespace Amount

variable {d : Decimal}

/-- The amount of a decimal number that is not below zero, as a natural number. -/
def quotient (d : Decimal) : Nat := d.coefficient * 10 ^ 18 / 10 ^ d.places

/-- Scaling up to 18 places and cutting the places beyond them are one quotient. -/
theorem ofDecimal?_eq (d : Decimal) :
    ofDecimal? d = if d.negative ∧ d.coefficient ≠ 0 then none else ofNat? (quotient d) := by
  unfold ofDecimal?
  split
  · rfl
  · split
    · rename_i hfew
      have hsum : 18 - d.places + d.places = 18 := Nat.sub_add_cancel hfew
      have hpow : 10 ^ 18 = 10 ^ (18 - d.places) * 10 ^ d.places := by rw [← pow_add, hsum]
      rw [quotient, hpow, ← Nat.mul_assoc, Nat.mul_div_cancel _ (Nat.pow_pos (by decide))]
      rfl
    · rename_i hmany
      have hsum : d.places - 18 + 18 = d.places := Nat.sub_add_cancel (Nat.le_of_not_le hmany)
      have hpow : 10 ^ d.places = 10 ^ (d.places - 18) * 10 ^ 18 := by rw [← pow_add, hsum]
      rw [quotient, hpow, Nat.mul_div_mul_right _ _ (by decide)]
      rfl

/-- The quotient always fits. -/
theorem quotient_lt (d : Decimal) : quotient d < modulus := by
  calc quotient d ≤ d.coefficient * 10 ^ 18 := Nat.div_le_self _ _
    _ < Decimal.modulus * 10 ^ 18 := Nat.mul_lt_mul_of_pos_right d.coefficient_lt (by decide)
    _ < modulus := by decide

/-- A decimal number that is not below zero has an amount. -/
theorem ofDecimal?_of_not_neg (h : ¬ d.value < 0) :
    ∃ a, ofDecimal? d = some a ∧ a.toNat = quotient d := by
  rw [Decimal.value_neg_iff] at h
  refine ⟨⟨quotient d, quotient_lt d⟩, ?_, rfl⟩
  rw [ofDecimal?_eq, if_neg h]
  exact ofNat?_eq_some_iff.2 rfl

/-- Only a decimal number below zero has no amount. -/
theorem ofDecimal?_eq_none_iff (d : Decimal) : ofDecimal? d = none ↔ d.value < 0 := by
  constructor
  · intro hnone
    by_contra h
    obtain ⟨a, ha, -⟩ := ofDecimal?_of_not_neg h
    rw [ha] at hnone
    cases hnone
  · intro h
    rw [ofDecimal?_eq, if_pos ((Decimal.value_neg_iff d).1 h)]

/-- Every decimal number with the value of an amount gives that amount. -/
theorem ofDecimal?_of_value {a : Amount} (h : d.value = a.toNat / 10 ^ 18) :
    ofDecimal? d = some a := by
  have hsign : ¬ d.value < 0 := by
    rw [h, not_lt]
    exact div_nonneg (Nat.cast_nonneg _) (by norm_num)
  rw [Decimal.value_of_not_neg hsign, Decimal.magnitude,
    div_eq_div_iff (pow_ne_zero _ (by norm_num)) (by norm_num)] at h
  have hscaled : d.coefficient * 10 ^ 18 = a.toNat * 10 ^ d.places := by exact_mod_cast h
  obtain ⟨b, hb, hquotient⟩ := ofDecimal?_of_not_neg hsign
  rw [quotient, hscaled, Nat.mul_div_cancel _ (Nat.pow_pos (by decide))] at hquotient
  rw [hb, Amount.ext hquotient]

end Amount

/-! ## Prices as decimal numbers -/

namespace Price

/-- A price that has a decimal form is that decimal number. -/
theorem value_of_decimal? {p : Price} {d : Decimal} (h : p.decimal? = some d) :
    d.value = p.raw.toNat / 10 ^ 18 := by
  have hlt : p.raw.toNat < Decimal.modulus :=
    Amount.decimal?_isSome_iff.1 (Option.isSome_iff_exists.2 ⟨d, h⟩)
  rw [decimal?, Amount.decimal?_of_lt hlt] at h
  cases h
  rfl

/-- The text of a price means its raw value with 18 places. -/
theorem value?_text (p : Price) :
    Numeral.value? p.text = some ((p.raw.toNat : ℚ) / 10 ^ 18) := by
  unfold text
  split
  · rename_i d hd
    rw [Decimal.value?_text, Decimal.value_normalize, value_of_decimal? hd]
  · have hlist : (toString p.raw ++ "e-18").toList =
        Nat.toDigits 10 p.raw.toNat ++ ['e', '-', '1', '8'] := by
      show (toString p.raw.toNat ++ "e-18").toList = _
      rw [String.toList_append, Nat.toString_eq_ofList_toDigits, String.toList_ofList]
      rfl
    have hdigits : ∀ c ∈ Nat.toDigits 10 p.raw.toNat, c.isDigit = true :=
      fun c hc => Nat.isDigit_of_mem_toDigits (by decide) (by decide) hc
    have hpower : Numeral.power? ['e', '-', '1', '8'] = some (1 / 10 ^ 18) := rfl
    obtain ⟨c, cs, hbegin⟩ :=
      List.exists_cons_of_ne_nil (Nat.toDigits_ne_nil (n := p.raw.toNat) (b := 10))
    have hc : c.isDigit = true := hdigits c (hbegin ▸ List.mem_cons_self)
    have hunsigned := Numeral.unsigned?_exponent hdigits Nat.toDigits_ne_nil hpower
    rw [hbegin, List.cons_append] at hlist
    rw [Numeral.value?_of_digit hlist hc, ← List.cons_append, ← hbegin, hunsigned, Numeral.number,
      Nat.ofDigitChars_ten_toDigits, mul_one_div]

/-! ## The result -/

/-- The text of every price means its raw value divided by `10 ^ 18`, so prices with the same text
are the same. A price has a decimal form exactly if its raw value has 96 bits, the form has its
value, and every decimal number of that value gives the raw value back. A decimal number has no
amount exactly if it is below zero, and otherwise its amount is the number of units rounded down. -/
theorem rendering_lossless :
    (∀ p : Price, Numeral.value? p.text = some ((p.raw.toNat : ℚ) / 10 ^ 18) ∧
      (∀ q : Price, q.text = p.text → q = p) ∧
      (p.decimal?.isSome ↔ p.raw.toNat < 2 ^ 96) ∧
      (∀ d, p.decimal? = some d → d.value = p.raw.toNat / 10 ^ 18) ∧
      ∀ d : Decimal, d.value = p.raw.toNat / 10 ^ 18 → Amount.ofDecimal? d = some p.raw) ∧
    ∀ d : Decimal, (Amount.ofDecimal? d = none ↔ d.value < 0) ∧
      (¬ d.value < 0 → ∃ a, Amount.ofDecimal? d = some a ∧
        a.toNat = d.coefficient * 10 ^ 18 / 10 ^ d.places) := by
  refine ⟨fun p => ⟨value?_text p, fun q htext => ?_, ?_, fun d hd => value_of_decimal? hd,
    fun d hd => Amount.ofDecimal?_of_value hd⟩,
    fun d => ⟨Amount.ofDecimal?_eq_none_iff d, fun h => Amount.ofDecimal?_of_not_neg h⟩⟩
  · have hvalue := value?_text q
    rw [htext, value?_text p] at hvalue
    have hcast := (div_left_inj' (by norm_num)).1 (Option.some.inj hvalue)
    exact Price.ext (Amount.ext (Nat.cast_injective hcast).symm)
  · rw [decimal?, Amount.decimal?_isSome_iff]
    norm_num

/-- A price of one tenth. -/
def tenth : Price := ⟨⟨100000000000000000, by decide⟩⟩

/-- One tenth with as many places as there can be. -/
def longTenth : Decimal := ⟨false, 1000000000000000000000000000, 28, by decide, by decide⟩

/-- Zero with a minus sign. -/
def minusZero : Decimal := { Decimal.zero with negative := true }

/-- One tenth is written without the zeros, and the zeros do not matter when it is turned into an
amount. Zero with a minus sign is not below zero. -/
theorem tenth_rendered :
    tenth.text = "0.1" ∧ Numeral.value? tenth.text = some ((tenth.raw.toNat : ℚ) / 10 ^ 18) ∧
      Amount.ofDecimal? longTenth = some tenth.raw ∧
      ∃ a, Amount.ofDecimal? minusZero = some a ∧ a.toNat = 0 := by
  obtain ⟨hprices, hdecimals⟩ := rendering_lossless
  obtain ⟨hread, -, -, -, hback⟩ := hprices tenth
  have hvalue : longTenth.value = tenth.raw.toNat / 10 ^ 18 := by
    norm_num [Decimal.value, Decimal.magnitude, longTenth, tenth]
  have hzero : ¬ minusZero.value < 0 := by
    norm_num [Decimal.value, Decimal.magnitude, minusZero, Decimal.zero]
  exact ⟨by decide +kernel, hread, hback longTenth hvalue, (hdecimals minusZero).2 hzero⟩

end Price

end BatchAuction
