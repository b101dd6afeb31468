import BatchAuction.Amount.Basic

/-!
# Decimal numbers

`Decimal` is a signed decimal number `± coefficient / 10 ^ places` with a 96-bit coefficient and at
most 28 places. A small amount is read as a number of whole units with 18 places
(`Amount.decimal?`), and a decimal number of whole units becomes an amount by scaling up to 18
places or by cutting the places beyond them (`Amount.ofDecimal?`).
-/

namespace BatchAuction

/-- The numbers below this one, `2 ^ 96`, are coefficients. -/
abbrev Decimal.modulus : Nat := 0x1000000000000000000000000

/-- A decimal number with its sign kept apart, so that zero may be negative. -/
structure Decimal where
  /-- Whether the number carries a minus sign. -/
  negative : Bool
  /-- All digits, read as a natural number. -/
  coefficient : Nat
  /-- How many of the digits stand behind the point. -/
  places : Nat
  /-- The coefficient has 96 bits. -/
  coefficient_lt : coefficient < Decimal.modulus
  /-- There are at most 28 places. -/
  places_le : places ≤ 28
deriving DecidableEq, Repr

namespace Decimal

/-- Zero without places. -/
def zero : Decimal := ⟨false, 0, 0, by decide, by decide⟩

/-- The decimal number of a coefficient and a number of places, if both are in range. -/
def ofInt? (coefficient : Int) (places : Nat) : Option Decimal :=
  if h : coefficient.natAbs < modulus ∧ places ≤ 28 then
    some ⟨decide (coefficient < 0), coefficient.natAbs, places, h.1, h.2⟩
  else none

/-- Drops the last places while they hold a zero; answers the digits and places that are left. -/
def stripZeros : Nat → Nat → Nat × Nat
  | coefficient, 0 => (coefficient, 0)
  | coefficient, places + 1 =>
    if coefficient % 10 = 0 then stripZeros (coefficient / 10) places
    else (coefficient, places + 1)

/-- Stripping makes neither the coefficient nor the number of places larger. -/
theorem stripZeros_le (coefficient places : Nat) :
    (stripZeros coefficient places).1 ≤ coefficient ∧
      (stripZeros coefficient places).2 ≤ places := by
  induction places generalizing coefficient with
  | zero => exact ⟨Nat.le_refl _, Nat.le_refl _⟩
  | succ places ih =>
    unfold stripZeros
    split
    · exact ⟨Nat.le_trans (ih _).1 (Nat.div_le_self _ _), Nat.le_succ_of_le (ih _).2⟩
    · exact ⟨Nat.le_refl _, Nat.le_refl _⟩

/-- The same number without zeros at the end of its places, and without the sign of a zero. -/
def normalize (d : Decimal) : Decimal where
  negative := d.negative && d.coefficient != 0
  coefficient := (stripZeros d.coefficient d.places).1
  places := (stripZeros d.coefficient d.places).2
  coefficient_lt := Nat.lt_of_le_of_lt (stripZeros_le _ _).1 d.coefficient_lt
  places_le := Nat.le_trans (stripZeros_le _ _).2 d.places_le

/-- The decimal digits of a number, with zeros in front up to a given length. -/
def paddedDigits (n length : Nat) : List Char :=
  (Nat.toDigits 10 n).leftpad length '0'

/-- The written form: at least one digit before the point, and exactly `places` digits behind it;
no point if there are no places. -/
def text (d : Decimal) : String :=
  let digits := paddedDigits d.coefficient (d.places + 1)
  let whole := digits.take (digits.length - d.places)
  let fraction := digits.drop (digits.length - d.places)
  let sign := if d.negative then ['-'] else []
  String.ofList (sign ++ whole ++ if d.places = 0 then [] else '.' :: fraction)

instance : ToString Decimal := ⟨text⟩

end Decimal

namespace Amount

/-- How many decimals an amount implies. -/
def places : Nat := 18

/-- A natural number, if it has 128 bits. -/
def unsigned128? (n : Nat) : Option Nat :=
  if n < 0x100000000000000000000000000000000 then some n else none

/-- A natural number as an integer, if it has 127 bits and so leaves one for the sign. -/
def signed128? (n : Nat) : Option Int :=
  if n < 0x80000000000000000000000000000000 then some n else none

/-- An amount as a decimal number of whole units. It is narrowed to 128 bits, then to an integer of
127 bits and a sign, and then to a coefficient; each step may refuse it. -/
def decimal? (a : Amount) : Option Decimal := do
  let unsigned ← unsigned128? a.toNat
  let signed ← signed128? unsigned
  Decimal.ofInt? signed places

/-- A decimal number of whole units as an amount, rounded down; a number below zero has none. -/
def ofDecimal? (d : Decimal) : Option Amount :=
  if d.negative ∧ d.coefficient ≠ 0 then none
  else if d.places ≤ places then ofNat? (d.coefficient * Nat.pow 10 (places - d.places))
  else ofNat? (d.coefficient / Nat.pow 10 (d.places - places))

/-- The steps before the last refuse nothing that has 96 bits. -/
theorem decimal?_of_lt {a : Amount} (h : a.toNat < Decimal.modulus) :
    a.decimal? = some ⟨false, a.toNat, places, h, by decide⟩ := by
  have hunsigned : unsigned128? a.toNat = some a.toNat := if_pos (Nat.lt_trans h (by decide))
  have hsigned : signed128? a.toNat = some (a.toNat : Int) := if_pos (Nat.lt_trans h (by decide))
  have hsign : ¬ (a.toNat : Int) < 0 := Int.not_lt.2 (Int.natCast_nonneg _)
  have hbounds : (a.toNat : Int).natAbs < Decimal.modulus ∧ places ≤ 28 := ⟨h, by decide⟩
  unfold decimal?
  rw [hunsigned, Option.bind_eq_bind, Option.bind_some, hsigned, Option.bind_eq_bind,
    Option.bind_some, Decimal.ofInt?, dif_pos hbounds]
  simp [hsign]

/-- An amount has a decimal form exactly when it has 96 bits. -/
theorem decimal?_isSome_iff {a : Amount} : a.decimal?.isSome ↔ a.toNat < Decimal.modulus := by
  constructor
  · intro h
    obtain ⟨d, hd⟩ := Option.isSome_iff_exists.1 h
    obtain ⟨n, hn, hd⟩ := Option.bind_eq_some_iff.1 hd
    obtain ⟨i, hi, hd⟩ := Option.bind_eq_some_iff.1 hd
    obtain rfl : a.toNat = n := Option.some.inj (Option.ite_none_right_eq_some.1 hn).2
    obtain rfl : (a.toNat : Int) = i := Option.some.inj (Option.ite_none_right_eq_some.1 hi).2
    unfold Decimal.ofInt? at hd
    split at hd
    · rename_i hbounds
      exact hbounds.1
    · cases hd
  · intro h
    rw [decimal?_of_lt h]
    rfl

end Amount

end BatchAuction
