import BatchAuction.Amount.Decimal
import Mathlib.Algebra.Order.Field.Rat
import Mathlib.Tactic.Ring

/-!
# The written form of a decimal number means the number

`Numeral.value?` reads a written number as an exact rational one: digits, perhaps with a point
among them, perhaps with a power of ten behind an `e`, and perhaps with a minus sign in front. It
knows nothing of how decimal numbers are kept or written. What `Decimal.text` writes, it reads as
the value of the decimal number (`Decimal.value?_text`), for every coefficient, every number of
places and both signs. Zeros at the end of the places add nothing to the value, so a number means
the same without them (`Decimal.value_normalize`).
-/

namespace BatchAuction

/-! ## Reading a number -/

namespace Numeral

/-- The number that some digits spell. -/
def number (digits : List Char) : Nat := Nat.ofDigitChars 10 digits 0

/-- The digits that a text begins with, if there are any, and the rest of the text. -/
def digits? (cs : List Char) : Option (List Char × List Char) :=
  if cs.takeWhile Char.isDigit = [] then none
  else some (cs.takeWhile Char.isDigit, cs.dropWhile Char.isDigit)

/-- The digits behind a point, none if there is no point, and the rest of the text. -/
def fraction? : List Char → Option (List Char × List Char)
  | '.' :: cs => digits? cs
  | cs => some ([], cs)

/-- The power of ten that a text ends with, one if it is at its end. -/
def power? : List Char → Option ℚ
  | [] => some 1
  | 'e' :: '-' :: cs =>
    match digits? cs with
    | some (exponent, []) => some (1 / 10 ^ number exponent)
    | _ => none
  | 'e' :: cs =>
    match digits? cs with
    | some (exponent, []) => some (10 ^ number exponent)
    | _ => none
  | _ => none

/-- The value of a written number without a sign. -/
def unsigned? (cs : List Char) : Option ℚ := do
  let (whole, cs) ← digits? cs
  let (fraction, cs) ← fraction? cs
  let power ← power? cs
  return number (whole ++ fraction) / 10 ^ fraction.length * power

/-- The value of a written number. -/
def value? (s : String) : Option ℚ :=
  match s.toList with
  | '-' :: cs => (unsigned? cs).map (- ·)
  | cs => unsigned? cs

variable {digits cs : List Char}

/-- The digits end where something else begins. -/
theorem digits?_append (hdigits : ∀ c ∈ digits, c.isDigit = true) (hne : digits ≠ [])
    (rest : List Char) (hrest : ∀ c ∈ rest.head?, c.isDigit = false) :
    digits? (digits ++ rest) = some (digits, rest) := by
  have hend : rest.takeWhile Char.isDigit = [] ∧ rest.dropWhile Char.isDigit = rest := by
    cases rest with
    | nil => exact ⟨rfl, rfl⟩
    | cons c rest =>
      have hc := hrest c rfl
      rw [List.takeWhile_cons, List.dropWhile_cons, hc]
      exact ⟨rfl, rfl⟩
  rw [digits?, List.takeWhile_append_of_pos hdigits, List.dropWhile_append_of_pos hdigits, hend.1,
    hend.2, List.append_nil, if_neg hne]

/-- Digits alone are a whole number. -/
theorem unsigned?_whole (hdigits : ∀ c ∈ digits, c.isDigit = true) (hne : digits ≠ []) :
    unsigned? digits = some (number digits : ℚ) := by
  have hread := digits?_append hdigits hne [] fun _ h => nomatch h
  rw [List.append_nil] at hread
  simp [unsigned?, hread, fraction?, power?]

/-- With a point before the last of them, the digits are so many places smaller. -/
theorem unsigned?_point {fraction : List Char} (hdigits : ∀ c ∈ digits, c.isDigit = true)
    (hne : digits ≠ []) (hfraction : ∀ c ∈ fraction, c.isDigit = true) (hne' : fraction ≠ []) :
    unsigned? (digits ++ '.' :: fraction) =
      some ((number (digits ++ fraction) : ℚ) / 10 ^ fraction.length) := by
  have hwhole := digits?_append hdigits hne ('.' :: fraction) fun c hc => by
    cases hc
    rfl
  have hplaces := digits?_append hfraction hne' [] fun _ h => nomatch h
  rw [List.append_nil] at hplaces
  simp [unsigned?, hwhole, fraction?, hplaces, power?]

/-- With an exponent behind them, the digits are a multiple of a power of ten. -/
theorem unsigned?_exponent {power : ℚ} (hdigits : ∀ c ∈ digits, c.isDigit = true)
    (hne : digits ≠ []) (hpower : power? ('e' :: cs) = some power) :
    unsigned? (digits ++ 'e' :: cs) = some ((number digits : ℚ) * power) := by
  have hwhole := digits?_append hdigits hne ('e' :: cs) fun c hc => by
    cases hc
    rfl
  simp [unsigned?, hwhole, fraction?, hpower]

/-- A text that begins with a digit has no sign. -/
theorem value?_of_digit {s : String} {c : Char} (hs : s.toList = c :: cs)
    (hc : c.isDigit = true) : value? s = unsigned? (c :: cs) := by
  unfold value?
  rw [hs]
  split
  · rename_i heq
    cases heq
    cases hc
  · rfl

end Numeral

/-! ## Digits of a number -/

namespace Decimal

/-- Padding adds digits only. -/
theorem isDigit_paddedDigits {n length : Nat} :
    ∀ c ∈ paddedDigits n length, c.isDigit = true := by
  intro c hc
  rcases List.mem_append.1 hc with hzero | hdigit
  · rw [List.eq_of_mem_replicate hzero]
    rfl
  · exact Nat.isDigit_of_mem_toDigits (by decide) (by decide) hdigit

/-- Padded digits fill the length that is asked for. -/
theorem le_length_paddedDigits (n length : Nat) : length ≤ (paddedDigits n length).length := by
  rw [paddedDigits, List.length_leftpad]
  exact Nat.le_max_left _ _

/-- Zeros in front of a number mean nothing. -/
theorem number_paddedDigits (n length : Nat) : Numeral.number (paddedDigits n length) = n := by
  rw [Numeral.number, paddedDigits, List.leftpad, Nat.ofDigitChars_append,
    Nat.ofDigitChars_replicate_zero, Nat.mul_zero, Nat.ofDigitChars_ten_toDigits]

/-! ## The value of a decimal number -/

/-- The value without the sign. -/
def magnitude (d : Decimal) : ℚ := d.coefficient / 10 ^ d.places

/-- The exact value. -/
def value (d : Decimal) : ℚ := if d.negative then -d.magnitude else d.magnitude

/-- The value without its sign is not negative. -/
theorem magnitude_nonneg (d : Decimal) : 0 ≤ d.magnitude :=
  div_nonneg (Nat.cast_nonneg _) (pow_nonneg (by norm_num) _)

/-- And it is zero only if all digits are. -/
theorem magnitude_eq_zero_iff (d : Decimal) : d.magnitude = 0 ↔ d.coefficient = 0 := by
  have hpow : (10 : ℚ) ^ d.places ≠ 0 := pow_ne_zero _ (by norm_num)
  rw [magnitude, div_eq_zero_iff, or_iff_left hpow, Nat.cast_eq_zero]

/-- A number is below zero if it has a minus sign and is not zero. -/
theorem value_neg_iff (d : Decimal) :
    d.value < 0 ↔ d.negative = true ∧ d.coefficient ≠ 0 := by
  have hnonneg := d.magnitude_nonneg
  unfold value
  split
  · rename_i hsign
    rw [neg_lt_zero, and_iff_right hsign, Ne, ← magnitude_eq_zero_iff]
    exact ⟨ne_of_gt, fun hne => lt_of_le_of_ne hnonneg (Ne.symm hne)⟩
  · rename_i hsign
    exact ⟨fun h => absurd h (not_lt.2 hnonneg), fun h => absurd h.1 hsign⟩

/-- Otherwise the sign does not matter. -/
theorem value_of_not_neg {d : Decimal} (h : ¬ d.value < 0) : d.value = d.magnitude := by
  rw [value_neg_iff] at h
  unfold value
  split
  · rename_i hsign
    have hzero : d.coefficient = 0 := not_not.1 fun hne => h ⟨hsign, hne⟩
    rw [(magnitude_eq_zero_iff d).2 hzero, neg_zero]
  · rfl

/-! ## The written form of a decimal number -/

/-- The digits of the coefficient, at least one more than there are places. -/
def digits (d : Decimal) : List Char := paddedDigits d.coefficient (d.places + 1)

/-- The digits before the point. -/
def wholeDigits (d : Decimal) : List Char := d.digits.take (d.digits.length - d.places)

/-- The digits behind the point. -/
def placeDigits (d : Decimal) : List Char := d.digits.drop (d.digits.length - d.places)

/-- The digits before the point and those after it are all digits. -/
theorem whole_append_places (d : Decimal) : d.wholeDigits ++ d.placeDigits = d.digits :=
  List.take_append_drop _ _

/-- There are as many digits after the point as the scale says. -/
theorem length_placeDigits (d : Decimal) : d.placeDigits.length = d.places := by
  have hlength : d.places + 1 ≤ d.digits.length := le_length_paddedDigits _ _
  rw [placeDigits, List.length_drop]
  omega

/-- There is a digit before the point. -/
theorem wholeDigits_ne_nil (d : Decimal) : d.wholeDigits ≠ [] := by
  have hlength : d.places + 1 ≤ d.digits.length := le_length_paddedDigits _ _
  rw [wholeDigits, Ne, ← List.length_eq_zero_iff, List.length_take]
  omega

/-- Before the point there are digits only. -/
theorem isDigit_wholeDigits {d : Decimal} : ∀ c ∈ d.wholeDigits, c.isDigit = true :=
  fun c hc => isDigit_paddedDigits c (List.mem_of_mem_take hc)

/-- After the point there are digits only. -/
theorem isDigit_placeDigits {d : Decimal} : ∀ c ∈ d.placeDigits, c.isDigit = true :=
  fun c hc => isDigit_paddedDigits c (List.mem_of_mem_drop hc)

/-- The written form after the sign. -/
def unsignedText (d : Decimal) : List Char :=
  d.wholeDigits ++ if d.places = 0 then [] else '.' :: d.placeDigits

/-- The text is a sign, if the number has one, and the text without a sign. -/
theorem toList_text (d : Decimal) :
    d.text.toList = (if d.negative then ['-'] else []) ++ d.unsignedText := by
  rw [text, String.toList_ofList, List.append_assoc]
  rfl

/-- The text without a sign is read back as the value without its sign. -/
theorem unsigned?_unsignedText (d : Decimal) :
    Numeral.unsigned? d.unsignedText = some d.magnitude := by
  have hnumber : Numeral.number (d.wholeDigits ++ d.placeDigits) = d.coefficient := by
    rw [whole_append_places]
    exact number_paddedDigits _ _
  have hplaces := d.length_placeDigits
  unfold unsignedText magnitude
  split
  · rename_i hnone
    have hempty : d.placeDigits = [] := List.length_eq_zero_iff.1 (hplaces.trans hnone)
    rw [hempty] at hnumber
    rw [List.append_nil] at hnumber ⊢
    rw [Numeral.unsigned?_whole isDigit_wholeDigits d.wholeDigits_ne_nil, hnumber, hnone, pow_zero,
      div_one]
  · rename_i hsome
    have hne : d.placeDigits ≠ [] := by
      intro hempty
      rw [hempty] at hplaces
      exact hsome hplaces.symm
    rw [Numeral.unsigned?_point isDigit_wholeDigits d.wholeDigits_ne_nil isDigit_placeDigits hne,
      hnumber, hplaces]

/-- What is written is read as the value. -/
theorem value?_text (d : Decimal) : Numeral.value? d.text = some d.value := by
  have hunsigned := d.unsigned?_unsignedText
  have hlist := d.toList_text
  unfold value
  cases hsign : d.negative with
  | true =>
    rw [hsign] at hlist
    have hneg : d.text.toList = '-' :: d.unsignedText := hlist
    rw [Numeral.value?, hneg]
    show (Numeral.unsigned? d.unsignedText).map (- ·) = _
    rw [hunsigned]
    rfl
  | false =>
    rw [hsign] at hlist
    have hplain : d.text.toList = d.unsignedText := hlist
    obtain ⟨c, cs, hwhole⟩ := List.exists_cons_of_ne_nil d.wholeDigits_ne_nil
    have hc : c.isDigit = true := isDigit_wholeDigits c (hwhole ▸ List.mem_cons_self)
    have hbegin : d.unsignedText =
        c :: (cs ++ if d.places = 0 then [] else '.' :: d.placeDigits) := by
      rw [unsignedText, hwhole, List.cons_append]
    rw [Numeral.value?_of_digit (hplain.trans hbegin) hc, ← hbegin, hunsigned]
    rfl

/-! ## Zeros at the end -/

/-- Leaving out zeros at the end does not change the value. -/
theorem stripZeros_value (coefficient places : Nat) :
    ((stripZeros coefficient places).1 : ℚ) / 10 ^ (stripZeros coefficient places).2 =
      coefficient / 10 ^ places := by
  induction places generalizing coefficient with
  | zero => rfl
  | succ places ih =>
    unfold stripZeros
    split
    · rename_i hzero
      have hten : coefficient = coefficient / 10 * 10 :=
        (Nat.div_mul_cancel (Nat.dvd_of_mod_eq_zero hzero)).symm
      have hcast : (coefficient : ℚ) = (coefficient / 10 : Nat) * 10 := by
        exact_mod_cast hten
      rw [ih, hcast, pow_succ, mul_div_mul_right _ _ (by norm_num)]
    · rfl

/-- Zeros at the end of the places and the sign of a zero add nothing to the value. -/
theorem value_normalize (d : Decimal) : d.normalize.value = d.value := by
  have hmagnitude : d.normalize.magnitude = d.magnitude :=
    stripZeros_value d.coefficient d.places
  rw [value, value, hmagnitude]
  by_cases hzero : d.coefficient = 0
  · rw [(magnitude_eq_zero_iff d).2 hzero, neg_zero, ite_self, ite_self]
  · have hsign : d.normalize.negative = d.negative := by simp [normalize, hzero]
    rw [hsign]

end Decimal

end BatchAuction
