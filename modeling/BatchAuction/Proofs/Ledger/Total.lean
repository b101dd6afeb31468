import BatchAuction.Proofs.Ledger.Balance
import Mathlib.Algebra.BigOperators.Group.Finset.Piecewise
import Mathlib.Algebra.Order.BigOperators.Group.Finset
import Mathlib.Data.Fintype.EquivFin

/-!
# What all accounts hold together

`MemoryLedger.total` adds up the balances of the accounts that a ledger knows. The other accounts
hold nothing, so it is the sum over all accounts there are (`MemoryLedger.total_eq_sum`), and what
is known of every balance can be added up. Two accounts together never hold more than the total, and
a transfer leaves it as it was.
-/

namespace BatchAuction

/-- Accounts are the numbers of 64 bits. -/
instance : Fintype Account :=
  .ofEquiv (Fin 0x10000000000000000) ⟨fun i => ⟨i.val, i.isLt⟩, fun x => ⟨x.number, x.number_lt⟩,
    fun _ => rfl, fun _ => rfl⟩

namespace MemoryLedger

open AssetLedger (transfer)

variable {l l' : MemoryLedger} {x y : Account} {s : Asset}

/-- What the accounts that a ledger knows hold together. -/
def total (l : MemoryLedger) (s : Asset) : Nat :=
  (l.accounts.map fun x => (l.balance x s).toNat).sum

/-- An account that the ledger does not know holds nothing. -/
theorem balance_of_not_mem (h : x ∉ l.accounts) : l.balance x s = 0 := by
  have hnone : l.balances.get? x = none := by
    cases hget : l.balances.get? x with
    | none => rfl
    | some holdings =>
      have hentry := SortedMap.mem_entries_iff.2 hget
      exact absurd (List.mem_map_of_mem hentry) h
  rw [balance, hnone]
  cases s <;> rfl

/-- The total is the sum over all accounts. -/
theorem total_eq_sum (l : MemoryLedger) (s : Asset) :
    l.total s = ∑ x : Account, (l.balance x s).toNat := by
  have hknown : l.total s = ∑ x ∈ l.accounts.toFinset, (l.balance x s).toNat :=
    (List.sum_toFinset _ l.balances.nodup_keys).symm
  rw [hknown]
  refine Finset.sum_subset (Finset.subset_univ _) fun x _ hx => ?_
  have hnot : x ∉ l.accounts := fun hmem => hx (List.mem_toFinset.2 hmem)
  rw [balance_of_not_mem hnot]
  rfl

/-- Two accounts hold no more than all. -/
theorem add_le_total (h : x ≠ y) :
    (l.balance x s).toNat + (l.balance y s).toNat ≤ l.total s := by
  rw [total_eq_sum]
  exact Finset.add_le_sum (f := fun x => (l.balance x s).toNat) (fun _ _ => Nat.zero_le _)
    (Finset.mem_univ x) (Finset.mem_univ y) h

/-- The same balances have the same total. -/
theorem Same.total_eq (h : Same l l') (s : Asset) : l.total s = l'.total s := by
  rw [total_eq_sum, total_eq_sum]
  exact Finset.sum_congr rfl fun x _ => by rw [h x s]

/-- What balances gain and lose, all accounts together gain and lose. -/
theorem total_of_balances {gained lost : Account → Nat}
    (h : ∀ x, (l'.balance x s).toNat + lost x = (l.balance x s).toNat + gained x) :
    l'.total s + ∑ x, lost x = l.total s + ∑ x, gained x := by
  rw [total_eq_sum, total_eq_sum, ← Finset.sum_add_distrib, ← Finset.sum_add_distrib]
  exact Finset.sum_congr rfl fun x _ => h x

/-- Over all accounts, a credit credits its amount once. -/
@[simp] theorem sum_credits_credit (x : Account) (s' : Asset) (a : Amount) (s : Asset) :
    ∑ y, (Move.credit x s' a).credits y s = if s' = s then a.toNat else 0 := by
  simp [ite_and]

/-- And a debit debits its amount once. -/
@[simp] theorem sum_debits_debit (x : Account) (s' : Asset) (a : Amount) (s : Asset) :
    ∑ y, (Move.debit x s' a).debits y s = if s' = s then a.toNat else 0 := by
  simp [ite_and]

/-- A transfer leaves the total as it was. -/
theorem total_transfer {source target : Account} {s' : Asset} {a : Amount}
    (h : transfer l source target s' a = (.ok (), l')) (s : Asset) : l'.total s = l.total s := by
  have hsum := total_of_balances fun x => transfer_ok h x s
  rw [sum_debits_debit, sum_credits_credit] at hsum
  omega

end MemoryLedger

end BatchAuction
