import BatchAuction.Ledger.Guarded
import BatchAuction.Proofs.Ledger.Balance

/-!
# Ledgers that give the same answers

Two ledgers may differ in what they remember and still answer alike for ever: related ledgers agree
about every move and every transfer and stay related (`AssetLedger.Bisimulation`), and so they agree
about batches, with everything that undoing them does. Ledgers of balances answer alike if they
hold the same (`MemoryLedger.bisimulation_same`), and so do ledgers behind policies that accept
every move from now on (`GuardedLedger.bisimulation_accepts`).
-/

namespace BatchAuction

variable {L M : Type}

namespace AssetLedger

variable [AssetLedger L] [AssetLedger M] {R : L → M → Prop} {l : L} {k : M}

/-- The same answer, and related ledgers. -/
def Agree (R : L → M → Prop) (r : Except LedgerError Unit × L) (r' : Except LedgerError Unit × M) :
    Prop :=
  ∃ answer l k, r = (answer, l) ∧ r' = (answer, k) ∧ R l k

/-- Related ledgers agree about every move and every transfer, and stay related. -/
structure Bisimulation (R : L → M → Prop) : Prop where
  move : ∀ {l k}, R l k → ∀ m, Agree R (perform l m) (perform k m)
  transfer : ∀ {l k}, R l k → ∀ source target s amount,
    Agree R (AssetLedger.transfer l source target s amount)
      (AssetLedger.transfer k source target s amount)

/-- Ledgers that agree about every move agree about the transfers that are made of moves. -/
theorem agree_transferBy (hR : ∀ {l k}, R l k → ∀ m, Agree R (perform l m) (perform k m))
    (h : R l k) (source target : Account) (s : Asset) (amount : Amount) :
    Agree R (transferBy perform l source target s amount)
      (transferBy perform k source target s amount) := by
  unfold transferBy
  obtain ⟨answer, l₁, k₁, hl, hk, h₁⟩ := hR h (.debit source s amount)
  rw [hl, hk]
  rcases answer with e | _
  · exact ⟨_, l₁, k₁, rfl, rfl, h₁⟩
  · obtain ⟨answer, l₂, k₂, hl, hk, h₂⟩ := hR h₁ (.credit target s amount)
    simp only [hl, hk]
    rcases answer with e | _
    · obtain ⟨answer, l₃, k₃, hl, hk, h₃⟩ := hR h₂ (.credit source s amount)
      simp only [hl, hk]
      rcases answer with e' | _ <;> exact ⟨_, l₃, k₃, rfl, rfl, h₃⟩
    · exact ⟨_, l₂, k₂, rfl, rfl, h₂⟩

/-- Ledgers without a transfer of their own only have to agree about moves. -/
theorem Bisimulation.of_move (hR : ∀ {l k}, R l k → ∀ m, Agree R (perform l m) (perform k m))
    (hL : ∀ l : L, AssetLedger.transfer l = transferBy perform l)
    (hM : ∀ k : M, AssetLedger.transfer k = transferBy perform k) : Bisimulation R where
  move := hR
  transfer {l k} h source target s amount := by
    rw [hL l, hM k]
    exact agree_transferBy hR h source target s amount

/-- Taking back moves keeps ledgers related. -/
theorem Bisimulation.undo (hR : Bisimulation R) (moves : List Move) :
    ∀ {l k}, R l k → R (undo l moves) (undo k moves) := by
  induction moves with
  | nil => exact fun h => h
  | cons m moves ih =>
    intro l k h
    unfold AssetLedger.undo
    obtain ⟨answer, l₁, k₁, hl, hk, h₁⟩ := hR.move h m.inverse
    rw [hl, hk]
    exact ih h₁

/-- Related ledgers perform the rest of a batch alike. -/
theorem Bisimulation.performFrom (hR : Bisimulation R) {moves : List Move} :
    ∀ {l k} {applied : List Move}, R l k →
      Agree R (performFrom l applied moves) (performFrom k applied moves) := by
  induction moves with
  | nil => exact fun h => ⟨_, _, _, rfl, rfl, h⟩
  | cons m moves ih =>
    intro l k applied h
    unfold AssetLedger.performFrom
    obtain ⟨answer, l₁, k₁, hl, hk, h₁⟩ := hR.move h m
    rw [hl, hk]
    rcases answer with e | _
    · exact ⟨_, _, _, rfl, rfl, hR.undo applied h₁⟩
    · exact ih h₁

/-- Related ledgers agree about batches. -/
theorem Bisimulation.performAll (hR : Bisimulation R) (h : R l k) (moves : List Move) :
    Agree R (performAll l moves) (performAll k moves) :=
  hR.performFrom h

end AssetLedger

/-! ## Balances -/

namespace MemoryLedger

variable {l k : MemoryLedger}

/-- The same new balance keeps the balances the same. -/
theorem Same.withBalance (h : Same l k) (x : Account) (s : Asset) (b : Amount) :
    Same (l.withBalance x s b) (k.withBalance x s b) := by
  intro y s'
  rw [balance_withBalance, balance_withBalance, h y s']

/-- A move is refused or performed by its effect on the balances alone. -/
theorem Same.move (h : Same l k) (m : Move) :
    (∃ e, l.move m = .error e ∧ k.move m = .error e) ∨
      ∃ l' k', l.move m = .ok l' ∧ k.move m = .ok k' ∧ Same l' k' := by
  rcases m.eq_credit_or_debit with ⟨x, s, a, rfl⟩ | ⟨x, s, a, rfl⟩
  · show (∃ e, l.credit x s a = .error e ∧ k.credit x s a = .error e) ∨
      ∃ l' k', l.credit x s a = .ok l' ∧ k.credit x s a = .ok k' ∧ Same l' k'
    unfold credit
    rw [h x s]
    rcases (k.balance x s).add a with _ | b
    · exact .inl ⟨_, rfl, rfl⟩
    · exact .inr ⟨_, _, rfl, rfl, h.withBalance x s b⟩
  · show (∃ e, l.debit x s a = .error e ∧ k.debit x s a = .error e) ∨
      ∃ l' k', l.debit x s a = .ok l' ∧ k.debit x s a = .ok k' ∧ Same l' k'
    unfold debit
    simp only [h x s]
    split
    · exact .inl ⟨_, rfl, rfl⟩
    · exact .inr ⟨_, _, rfl, rfl, h.withBalance x s _⟩

/-- Ledgers that hold the same agree about a move. -/
theorem Same.agree (h : Same l k) (m : Move) :
    AssetLedger.Agree Same (AssetLedger.perform l m) (AssetLedger.perform k m) := by
  simp only [AssetLedger.perform]
  rcases h.move m with ⟨e, hl, hk⟩ | ⟨l', k', hl, hk, h'⟩
  · rw [hl, hk]
    exact ⟨_, _, _, rfl, rfl, h⟩
  · rw [hl, hk]
    exact ⟨_, _, _, rfl, rfl, h'⟩

/-- Ledgers that hold the same give the same answers. -/
theorem bisimulation_same : AssetLedger.Bisimulation Same :=
  .of_move Same.agree (fun _ => rfl) fun _ => rfl

end MemoryLedger

/-! ## Policies that accept -/

namespace RefusalPolicy

variable {σ : Type} [RefusalPolicy σ] {p : σ}

/-- The state of a policy after it has judged some moves. -/
def after (p : σ) (moves : List Move) : σ := moves.foldl (fun p m => (judge p m).2) p

/-- The policy refuses no move any more. -/
def Accepts (p : σ) : Prop := ∀ moves m, (judge (after p moves) m).1 = none

/-- An accepting policy does not refuse the next move. -/
theorem Accepts.judge_fst (h : Accepts p) (m : Move) : (judge p m).1 = none := h [] m

/-- And it stays accepting after it. -/
theorem Accepts.judge_snd (h : Accepts p) (m : Move) : Accepts (judge p m).2 :=
  fun moves => h (m :: moves)

end RefusalPolicy

namespace GuardedLedger

open RefusalPolicy (Accepts)

variable {σ : Type} [RefusalPolicy σ] {l : GuardedLedger σ}

/-- Behind a policy that accepts every move, the balances decide. -/
theorem perform_of_accepts (h : Accepts l.policy) (m : Move) :
    ∃ l', AssetLedger.perform l m = ((AssetLedger.perform l.inner m).1, l') ∧
      l'.inner = (AssetLedger.perform l.inner m).2 ∧ Accepts l'.policy := by
  have hnone := h.judge_fst m
  have hnext := h.judge_snd m
  show ∃ l', l.perform m = _ ∧ _
  unfold GuardedLedger.perform
  generalize RefusalPolicy.judge l.policy m = judged at hnone hnext
  obtain ⟨answer, policy⟩ := judged
  obtain rfl : answer = none := hnone
  simp only [AssetLedger.perform]
  rcases l.inner.move m with e | inner
  · exact ⟨_, rfl, rfl, hnext⟩
  · exact ⟨_, rfl, rfl, hnext⟩

/-- Behind policies that accept every move, ledgers that hold the same give the same answers. -/
theorem bisimulation_accepts : AssetLedger.Bisimulation fun l k : GuardedLedger σ =>
    Accepts l.policy ∧ Accepts k.policy ∧ MemoryLedger.Same l.inner k.inner := by
  refine .of_move ?_ (fun _ => rfl) fun _ => rfl
  rintro l k ⟨hl, hk, h⟩ m
  obtain ⟨l', hl', hinner, haccepts⟩ := perform_of_accepts hl m
  obtain ⟨k', hk', hinner', haccepts'⟩ := perform_of_accepts hk m
  obtain ⟨answer, i, j, hi, hj, hsame⟩ := MemoryLedger.bisimulation_same.move h m
  rw [hi] at hl' hinner
  rw [hj] at hk' hinner'
  exact ⟨answer, l', k', hl', hk', haccepts, haccepts', by rwa [hinner, hinner']⟩

end GuardedLedger

end BatchAuction
