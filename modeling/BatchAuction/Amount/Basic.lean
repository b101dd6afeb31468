/-!
# Amounts

`Amount` is a quantity of an asset, or a raw price, counted in units of `10 ^ -18`. It is a natural
number below `2 ^ 256`, and its order is the order of the numbers. Three kinds of arithmetic are
kept apart by name: subtraction stops at zero (`-`), `addCapped` stops at the largest amount, and
`addMod`, `subMod`, `mulMod` reduce modulo `2 ^ 256`. The arithmetic that refuses instead is in
`BatchAuction.Amount.Checked`.
-/

namespace BatchAuction

/-- The numbers below this one, `2 ^ 256`, are amounts. -/
abbrev Amount.modulus : Nat :=
  0x10000000000000000000000000000000000000000000000000000000000000000

/-- A natural number below `2 ^ 256`. -/
@[ext]
structure Amount where
  /-- The number itself. -/
  toNat : Nat
  /-- It fits into 256 bits. -/
  isLt : toNat < Amount.modulus
deriving DecidableEq, Repr

namespace Amount

/-- The remainder of a natural number modulo `2 ^ 256`. -/
def ofNat (n : Nat) : Amount :=
  ⟨n % modulus, Nat.mod_lt _ (by decide)⟩

/-- The amount equal to a natural number, if it fits. -/
def ofNat? (n : Nat) : Option Amount :=
  if h : n < modulus then some ⟨n, h⟩ else none

instance (n : Nat) : OfNat Amount n := ⟨ofNat n⟩

instance : Inhabited Amount := ⟨0⟩

instance : LE Amount := ⟨fun a b => a.toNat ≤ b.toNat⟩

instance : LT Amount := ⟨fun a b => a.toNat < b.toNat⟩

instance (a b : Amount) : Decidable (a ≤ b) := inferInstanceAs (Decidable (a.toNat ≤ b.toNat))

instance (a b : Amount) : Decidable (a < b) := inferInstanceAs (Decidable (a.toNat < b.toNat))

/-- Amounts are written in decimal. -/
instance : ToString Amount := ⟨fun a => toString a.toNat⟩

/-- The smaller of two amounts. -/
instance : Min Amount := ⟨fun a b => if a ≤ b then a else b⟩

/-- Subtraction that stops at zero, as on the natural numbers. -/
instance : Sub Amount := ⟨fun a b => ⟨a.toNat - b.toNat, by have := a.isLt; omega⟩⟩

/-- The largest amount. -/
def max : Amount := ⟨modulus - 1, by decide⟩

/-- One whole unit, `10 ^ 18`. -/
def scale : Amount := ⟨1000000000000000000, by decide⟩

/-- The largest cap an auction accepts and the largest total its book may reach. -/
def maxTotal : Amount := ⟨0xffffffffffffffffffffffffffffffff, by decide⟩

/-- Addition that stops at the largest amount. -/
def addCapped (a b : Amount) : Amount :=
  if h : a.toNat + b.toNat < modulus then ⟨a.toNat + b.toNat, h⟩ else max

/-- Addition modulo `2 ^ 256`. -/
def addMod (a b : Amount) : Amount := ofNat (a.toNat + b.toNat)

/-- Subtraction modulo `2 ^ 256`. -/
def subMod (a b : Amount) : Amount := ofNat (modulus + a.toNat - b.toNat)

/-- Multiplication modulo `2 ^ 256`. -/
def mulMod (a b : Amount) : Amount := ofNat (a.toNat * b.toNat)

/-- Whole units as an amount, `n * 10 ^ 18` modulo `2 ^ 256`. -/
def units (n : Nat) : Amount := (ofNat n).mulMod scale

/-- The sum of a list of amounts modulo `2 ^ 256`. -/
def sumMod (amounts : List Amount) : Amount := amounts.foldl addMod 0

/-! ## Lemmas -/

@[simp] theorem toNat_zero : (0 : Amount).toNat = 0 := rfl

/-- Amounts are compared as numbers. -/
theorem le_iff {a b : Amount} : a ≤ b ↔ a.toNat ≤ b.toNat := Iff.rfl

/-- And so are they strictly. -/
theorem lt_iff {a b : Amount} : a < b ↔ a.toNat < b.toNat := Iff.rfl

/-- Amounts with the same number are the same. -/
theorem eq_iff {a b : Amount} : a = b ↔ a.toNat = b.toNat :=
  ⟨fun h => h ▸ rfl, fun h => Amount.ext h⟩

@[simp] theorem toNat_sub (a b : Amount) : (a - b).toNat = a.toNat - b.toNat := rfl

/-- A number that fits is its own remainder. -/
theorem toNat_ofNat_of_lt {n : Nat} (h : n < modulus) : (ofNat n).toNat = n :=
  Nat.mod_eq_of_lt h

/-- Every amount is read back from its number. -/
@[simp] theorem ofNat?_toNat (a : Amount) : ofNat? a.toNat = some a :=
  dif_pos a.isLt

/-- A number is an amount exactly when it is below `2 ^ 256`. -/
theorem ofNat?_eq_some_iff {n : Nat} {a : Amount} : ofNat? n = some a ↔ a.toNat = n := by
  constructor
  · intro h
    unfold ofNat? at h
    split at h
    · cases h; rfl
    · cases h
  · rintro rfl
    exact ofNat?_toNat a

end Amount

end BatchAuction
