/-!
# Accounts and assets

An auction moves two assets between numbered accounts: bids are paid in `Asset.base`, and winners
receive `Asset.scarce`.
-/

namespace BatchAuction

/-- An account, named by a 64-bit number. -/
@[ext]
structure Account where
  /-- The number. -/
  number : Nat
  /-- It has 64 bits. -/
  number_lt : number < 0x10000000000000000 := by decide
deriving DecidableEq, Repr

namespace Account

instance : ToString Account := ⟨fun a => s!"acct#{a.number}"⟩

/-- The account of a number, if it has 64 bits. -/
def ofNat? (n : Nat) : Option Account :=
  if h : n < 0x10000000000000000 then some ⟨n, h⟩ else none

/-- Every account is read back from its number. -/
@[simp] theorem ofNat?_number (a : Account) : ofNat? a.number = some a := by
  unfold ofNat?
  rw [dif_pos a.number_lt]

end Account

/-- The two assets of an auction. -/
inductive Asset
  /-- What bids are paid in. -/
  | base
  /-- What the auction hands out. -/
  | scarce
deriving DecidableEq, Repr

namespace Asset

/-- The trading symbol. -/
def symbol : Asset → String
  | .base => "BASE"
  | .scarce => "SCARCE"

/-- The name used in error texts. -/
def name : Asset → String
  | .base => "Base"
  | .scarce => "Scarce"

end Asset

end BatchAuction
