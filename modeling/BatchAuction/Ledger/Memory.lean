import BatchAuction.Amount.Checked
import BatchAuction.Ledger.Basic
import BatchAuction.SortedMap

/-!
# The ledger of balances

`MemoryLedger` keeps a balance for every account and asset it has met, and per asset the sum of all
credits and of all debits. A debit is refused exactly when the account holds less, a credit
exactly when the balance would leave the 256 bits, and a refused move changes nothing.
-/

namespace BatchAuction

/-- Accounts are ranked by their number. -/
instance : Ranked Account where
  rank a := a.number
  eq_of_rank_eq h := Account.ext (Int.ofNat_inj.mp h)

/-- Amounts of the two assets, each known or not. -/
@[ext]
structure Holdings where
  /-- The base amount. -/
  base : Option Amount
  /-- The scarce amount. -/
  scarce : Option Amount
deriving DecidableEq, Repr

namespace Holdings

/-- Neither amount is known. -/
def empty : Holdings := ⟨none, none⟩

/-- The amount of an asset; an unknown amount is zero. -/
def get (h : Holdings) : Asset → Amount
  | .base => h.base.getD 0
  | .scarce => h.scarce.getD 0

/-- Sets the amount of an asset. -/
def set (h : Holdings) (asset : Asset) (amount : Amount) : Holdings :=
  match asset with
  | .base => { h with base := some amount }
  | .scarce => { h with scarce := some amount }

/-- A written holding is read back, and the other one is as before. -/
@[simp] theorem get_set (h : Holdings) (asset asset' : Asset) (amount : Amount) :
    (h.set asset amount).get asset' = if asset = asset' then amount else h.get asset' := by
  cases asset <;> cases asset' <;> simp [set, get]

end Holdings

/-- Balances by account with running sums of credits and debits. -/
@[ext]
structure MemoryLedger where
  /-- What each known account holds. -/
  balances : SortedMap Account Holdings
  /-- The sum of all credits per asset, capped at the largest amount. -/
  totalCredited : Holdings
  /-- The sum of all debits per asset, capped at the largest amount. -/
  totalDebited : Holdings
deriving DecidableEq

namespace MemoryLedger

/-- The ledger that knows no account. -/
def empty : MemoryLedger := ⟨.empty, .empty, .empty⟩

/-- What an account holds. -/
def balance (l : MemoryLedger) (account : Account) (asset : Asset) : Amount :=
  ((l.balances.get? account).getD .empty).get asset

/-- Sets a balance and leaves the running sums alone. -/
def withBalance (l : MemoryLedger) (account : Account) (asset : Asset) (amount : Amount) :
    MemoryLedger :=
  { l with
    balances := l.balances.upsert account fun holdings =>
      (holdings.getD .empty).set asset amount }

/-- The accounts that the ledger knows, in the order of their numbers. -/
def accounts (l : MemoryLedger) : List Account := l.balances.keys

/-- Adds to a balance. -/
def credit (l : MemoryLedger) (account : Account) (asset : Asset) (amount : Amount) :
    Except LedgerError MemoryLedger :=
  match (l.balance account asset).add amount with
  | .error _ => .error (.balanceOverflow account asset)
  | .ok balance =>
    .ok { l.withBalance account asset balance with
      totalCredited := l.totalCredited.set asset ((l.totalCredited.get asset).addCapped amount) }

/-- Takes from a balance. -/
def debit (l : MemoryLedger) (account : Account) (asset : Asset) (amount : Amount) :
    Except LedgerError MemoryLedger :=
  let available := l.balance account asset
  if available < amount then .error (.insufficientBalance account asset amount available)
  else
    .ok { l.withBalance account asset (available - amount) with
      totalDebited := l.totalDebited.set asset ((l.totalDebited.get asset).addCapped amount) }

/-- The ledger after a move. -/
def move (l : MemoryLedger) (m : Move) : Except LedgerError MemoryLedger :=
  match m.direction with
  | .credit => l.credit m.account m.asset m.amount
  | .debit => l.debit m.account m.asset m.amount

/-- A refused move leaves the ledger as it was. -/
instance : AssetLedger MemoryLedger where
  perform l m :=
    match l.move m with
    | .ok l' => (.ok (), l')
    | .error e => (.error e, l)
  balance := balance

/-! ## Lemmas -/

/-- Setting a balance changes that balance only. -/
theorem balance_withBalance (l : MemoryLedger) (account account' : Account) (asset asset' : Asset)
    (amount : Amount) :
    (l.withBalance account asset amount).balance account' asset' =
      if account = account' ∧ asset = asset' then amount else l.balance account' asset' := by
  simp only [balance, withBalance]
  by_cases h : account = account'
  · subst h
    simp
  · rw [SortedMap.get?_upsert_of_ne _ _ h]
    simp [h]

end MemoryLedger

end BatchAuction
