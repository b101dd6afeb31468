import BatchAuction.Json.Scalar

/-!
# Number literals with a double

A number literal is read in two steps, each of which may lose precision. First it becomes
`significand * 10 ^ exponent` with a significand of 64 bits (`Scaled.ofLiteral`): digits are
taken as long as they fit, those that are left over before the point only raise the exponent, and
those behind it are dropped. Then both factors are rounded to doubles, and so is their product.
`Json.literalInRange` says whether that last double is finite.
-/

namespace BatchAuction

namespace Json

/-! ## Doubles among the natural numbers -/

/-- The number nearest to `n` that has at most 53 binary digits before its zeros at the end. Of two
such neighbours at the same distance it is the one whose last digit is even. -/
def nearestDouble (n : Nat) : Nat :=
  let step := Nat.pow 2 (n.log2 - 52)
  let count := n / step
  let rest := n % step
  if step < 2 * rest ∨ (2 * rest = step ∧ count % 2 = 1) then (count + 1) * step
  else count * step

/-- The smallest number whose nearest double would not be finite: it lies half a step above the
largest double. -/
def doubleLimit : Nat := Nat.pow 2 1024 - Nat.pow 2 970

/-! ## Literals -/

/-- Appends decimal digits to a number as long as it keeps to 64 bits; answers the number and the
digits that are left over. -/
def appendDigits (n : Nat) : List Char → Nat × List Char
  | [] => (n, [])
  | c :: digits =>
    let next := n * 10 + (c.toNat - 48)
    if next < 0x10000000000000000 then appendDigits next digits else (n, c :: digits)

/-- The exponent of a literal, from what follows its mark. -/
def exponentValue : List Char → Int
  | '-' :: digits => -(Nat.ofDigitChars 10 digits 0 : Nat)
  | '+' :: digits => (Nat.ofDigitChars 10 digits 0 : Nat)
  | digits => (Nat.ofDigitChars 10 digits 0 : Nat)

/-- The number `significand * 10 ^ exponent`. -/
structure Scaled where
  /-- The digits that count. -/
  significand : Nat
  /-- How many decimal places the point moves to the right. -/
  exponent : Int
deriving DecidableEq, Repr

namespace Scaled

/-- The number of a literal without its sign. A digit behind the point is appended whenever it fits,
also if digits before the point were left over. -/
def ofLiteral (literal : List Char) : Scaled :=
  let unsigned := literal.dropWhile (· = '-')
  let isMark := fun c : Char => c = 'e' || c = 'E'
  let mantissa := unsigned.takeWhile fun c => !isMark c
  let exponent := exponentValue ((unsigned.dropWhile fun c => !isMark c).drop 1)
  let whole := appendDigits 0 (mantissa.takeWhile (· ≠ '.'))
  let places := (mantissa.dropWhile (· ≠ '.')).drop 1
  let digits := appendDigits whole.1 places
  ⟨digits.1, exponent + whole.2.length - (places.length - digits.2.length)⟩

/-- Rounding both factors and then their product ends at a finite double. A power of ten beyond
`10 ^ 308` has no double, and a negative exponent divides, which never leaves the range. -/
def isFinite (s : Scaled) : Bool :=
  s.significand == 0 || s.exponent < 0 ||
    (s.exponent ≤ 308 &&
      nearestDouble s.significand * nearestDouble (Nat.pow 10 s.exponent.toNat) < doubleLimit)

end Scaled

/-- A number literal has a finite double. -/
def literalInRange (literal : List Char) : Bool := (Scaled.ofLiteral literal).isFinite

/-! ## Lemmas -/

/-- A number of at most 53 binary digits is a double. -/
theorem nearestDouble_of_log2_le {n : Nat} (h : n.log2 ≤ 52) : nearestDouble n = n := by
  simp [nearestDouble, Nat.sub_eq_zero_of_le h, Nat.mod_one]

end Json

end BatchAuction
