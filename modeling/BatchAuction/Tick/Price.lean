import BatchAuction.Amount.Checked
import BatchAuction.Tick.Basic

/-!
# The price of a tick

`Tick.price` raises `1.0001` to the index of a legal tick in fixed point with 18 decimals. The
power is built from `Price.powers`, the rounded values of `1.0001 ^ (2 ^ i)`: one factor for each
binary digit of the index that is set, with a division by the scale after each product. A negative
index gives the rounded reciprocal of the power of its absolute value.
-/

namespace BatchAuction

/-- A price in base units for one scarce unit, with 18 implied decimals. -/
@[ext]
structure Price where
  /-- The price times `10 ^ 18`. -/
  raw : Amount
deriving DecidableEq, Repr

namespace Price

/-- The values of `1.0001 ^ (2 ^ i)` with 18 decimals, for `i` from 0 to 19. -/
def powers : List Amount :=
  [1000100000000000000,
   1000200010000000000,
   1000400060004000100,
   1000800280056007000,
   1001601200560182043,
   1003204964963598014,
   1006420201727613920,
   1012881622445451097,
   1025929181087729343,
   1052530684607338948,
   1107820842039993613,
   1227267018058200482,
   1506184333613467388,
   2268591246822644826,
   5146506245160322222,
   26486526531474198664,
   701536087702486644953,
   492152882348911033633683,
   242214459604341065650571799093,
   58667844441422969901301586347865591163491]

/-- The product of two fixed-point numbers, rounded down. -/
def rescaledProduct (a b : Amount) : Amount :=
  ⟨(a.mulMod b).toNat / Amount.scale.toNat,
    Nat.lt_of_le_of_lt (Nat.div_le_self _ _) (a.mulMod b).isLt⟩

/-- Multiplies `acc` by the factors at the set binary digits of `exponent`, lowest digit first. -/
def raise : List Amount → Nat → Amount → Amount
  | [], _, acc => acc
  | factor :: factors, exponent, acc =>
    raise factors (exponent / 2)
      (if exponent % 2 = 1 then rescaledProduct acc factor else acc)

/-- The fixed-point reciprocal of a fixed-point number, rounded down. -/
def reciprocal (a : Amount) : Amount :=
  ⟨(Amount.scale.mulMod Amount.scale).toNat / a.toNat,
    Nat.lt_of_le_of_lt (Nat.div_le_self _ _) (Amount.scale.mulMod Amount.scale).isLt⟩

/-- The fixed-point value of `1.0001 ^ index`. -/
def power (index : Int) : Amount :=
  let magnitude := raise powers index.natAbs Amount.scale
  if index < 0 then reciprocal magnitude else magnitude

end Price

/-- The price of a legal tick. -/
def Tick.price (t : Tick) : Except TickError Price :=
  match t.check with
  | .ok () => .ok ⟨Price.power t.index⟩
  | .error e => .error e

namespace Amount

/-- The scarce units that a base amount buys at a price, rounded down. -/
def scarceAt (amount : Amount) (price : Price) : Except ArithmeticError Amount :=
  amount.mulDiv scale price.raw

/-- The base units that a scarce amount costs at a price, rounded down. -/
def baseAt (scarce : Amount) (price : Price) : Except ArithmeticError Amount :=
  scarce.mulDiv price.raw scale

end Amount

/-- A legal tick has the price of its power, and no other tick has one. -/
theorem Tick.price_eq_ok_iff {t : Tick} {p : Price} :
    t.price = .ok p ↔ t.Legal ∧ p = ⟨Price.power t.index⟩ := by
  unfold price
  cases h : t.check with
  | ok => simp [← check_eq_ok_iff, h, eq_comm]
  | error e => simp [← check_eq_ok_iff, h]

end BatchAuction
