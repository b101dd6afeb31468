import BatchAuction.Amount.Basic

/-!
# Arithmetic that refuses

`Amount.add` and `Amount.mulDiv` answer the exact result or the reason why there is none:
`ArithmeticError`. The product inside `mulDiv` is taken exactly, so only the quotient can be too
large, and it is rounded down.
-/

namespace BatchAuction

/-- Why an arithmetic operation has no answer. -/
inductive ArithmeticError
  /-- The exact result is not below `2 ^ 256`. -/
  | overflow
  /-- The divisor is zero. -/
  | divisionByZero
deriving DecidableEq, Repr

/-- The wording of an arithmetic error. -/
def ArithmeticError.message : ArithmeticError → String
  | .overflow => "arithmetic overflow"
  | .divisionByZero => "division by zero"

namespace Amount

/-- The amount equal to a natural number, or an overflow. -/
def exactly (n : Nat) : Except ArithmeticError Amount :=
  if h : n < modulus then .ok ⟨n, h⟩ else .error .overflow

/-- The exact sum. -/
def add (a b : Amount) : Except ArithmeticError Amount :=
  exactly (a.toNat + b.toNat)

/-- The quotient `a * b / d`, rounded down. -/
def mulDiv (a b d : Amount) : Except ArithmeticError Amount :=
  if d = 0 then .error .divisionByZero else exactly (a.toNat * b.toNat / d.toNat)

/-! ## Lemmas -/

/-- A number is answered exactly if it has 256 bits. -/
theorem exactly_eq_ok_iff {n : Nat} {a : Amount} : exactly n = .ok a ↔ a.toNat = n := by
  unfold exactly
  split
  · exact ⟨fun h => by cases h; rfl, fun h => by subst h; rfl⟩
  · rename_i h
    constructor
    · intro h'
      cases h'
    · intro h'
      exact absurd (h' ▸ a.isLt) h

/-- Any other number overflows. -/
theorem exactly_eq_error_iff {n : Nat} {e : ArithmeticError} :
    exactly n = .error e ↔ modulus ≤ n ∧ e = .overflow := by
  unfold exactly
  split
  · rename_i h
    constructor
    · intro h'
      cases h'
    · intro h'
      exact absurd h (Nat.not_lt.mpr h'.1)
  · rename_i h
    constructor
    · intro h'
      cases h'
      exact ⟨Nat.not_lt.mp h, rfl⟩
    · intro h'
      rw [h'.2]

/-- A sum succeeds exactly with the sum of the numbers. -/
theorem add_eq_ok_iff {a b c : Amount} : a.add b = .ok c ↔ c.toNat = a.toNat + b.toNat :=
  exactly_eq_ok_iff

/-- A quotient succeeds exactly with the rounded quotient of the numbers, for a nonzero divisor. -/
theorem mulDiv_eq_ok_iff {a b d c : Amount} :
    mulDiv a b d = .ok c ↔ d ≠ 0 ∧ c.toNat = a.toNat * b.toNat / d.toNat := by
  unfold mulDiv
  split
  · rename_i h
    exact ⟨fun h' => (nomatch h'), fun h' => absurd h h'.1⟩
  · rename_i h
    rw [exactly_eq_ok_iff]
    exact ⟨fun h' => ⟨h, h'⟩, fun h' => h'.2⟩

end Amount

end BatchAuction
