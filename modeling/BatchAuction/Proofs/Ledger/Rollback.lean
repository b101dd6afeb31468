import BatchAuction.Ledger.Guarded
import BatchAuction.Proofs.Ledger.Balance

/-!
# Batches behind a refusing policy

A policy may refuse any move, also the inverse of one that was performed, and an inverse that is
skipped changes the balances that the later ones meet, so that they may be refused for lack of funds
or of room. A batch that fails still asks for every inverse once, last first, and each balance is
off by exactly the moves whose inverse was refused (`GuardedLedger.RolledBack`,
`GuardedLedger.performAll_rolledBack`). The journal shows whether there are any: if the move that
stopped the batch is the only one that was refused, all balances are restored
(`GuardedLedger.RolledBack.same_of_refusals`).
-/

namespace BatchAuction

namespace Move

/-- The moves that stay in force, of some moves with the success of their inverses. -/
def kept (undone : List (Move × Bool)) : List Move :=
  (undone.filter fun u => !u.2).map Prod.fst

variable {m : Move} {undone : List (Move × Bool)}

@[simp] theorem kept_cons_true : kept ((m, true) :: undone) = kept undone := rfl

@[simp] theorem kept_cons_false : kept ((m, false) :: undone) = m :: kept undone := rfl

/-- No move stays in force if every inverse was performed, and only then. -/
theorem kept_eq_nil_iff : kept undone = [] ↔ ∀ u ∈ undone, u.2 = true := by
  simp [kept, List.filter_eq_nil_iff]

end Move

namespace AssetLedger

variable {L : Type} [AssetLedger L] {l l' : L} {e : LedgerError}

/-- A batch fails at one move: those before it are performed, it is refused, and they are undone. -/
theorem performFrom_error {moves : List Move} :
    ∀ {l : L} {applied : List Move}, performFrom l applied moves = (.error e, l') →
      ∃ before m after l₁ l₂, moves = before ++ m :: after ∧
        performFrom l applied before = (.ok (), l₁) ∧ perform l₁ m = (.error e, l₂) ∧
        l' = undo l₂ (before.reverse ++ applied) := by
  induction moves with
  | nil =>
    intro l applied h
    cases h
  | cons m moves ih =>
    intro l applied h
    unfold performFrom at h
    split at h
    · rename_i l₀ hm
      obtain ⟨before, m', after, l₁, l₂, rfl, hbefore, hm', rfl⟩ := ih h
      refine ⟨m :: before, m', after, l₁, l₂, rfl, ?_, hm', ?_⟩
      · simp only [performFrom, hm]
        exact hbefore
      · rw [List.reverse_cons, List.append_assoc]
        rfl
    · rename_i l₀ hm
      cases h
      exact ⟨[], m, moves, l, l₀, rfl, rfl, hm, rfl⟩

end AssetLedger

namespace GuardedLedger

open AssetLedger (performFrom performAll undo)

variable {σ : Type} [RefusalPolicy σ] {l l' : GuardedLedger σ} {m : Move}
  {moves before : List Move} {undone : List (Move × Bool)} {e : LedgerError}

/-! ## One move -/

/-- A move that is performed passes the policy and is performed on the balances. -/
theorem perform_ok (h : AssetLedger.perform l m = (.ok (), l')) :
    AssetLedger.perform l.inner m = (.ok (), l'.inner) ∧
      l'.journal = l.journal ++ [(m, true)] := by
  change l.perform m = _ at h
  unfold GuardedLedger.perform at h
  split at h
  · cases h
  · split at h
    · cases h
    · rename_i inner hm
      cases h
      refine ⟨?_, rfl⟩
      simp only [AssetLedger.perform, hm]

/-- A move that is refused changes no balance, whoever refuses it. -/
theorem perform_error (h : AssetLedger.perform l m = (.error e, l')) :
    l'.inner = l.inner ∧ l'.journal = l.journal ++ [(m, false)] := by
  change l.perform m = _ at h
  unfold GuardedLedger.perform at h
  split at h
  · cases h
    exact ⟨rfl, rfl⟩
  · split at h
    · cases h
      exact ⟨rfl, rfl⟩
    · cases h

/-! ## Moves in a row -/

/-- Moves that are all performed change a balance by their credits and debits. -/
theorem performFrom_ok :
    ∀ {l : GuardedLedger σ} {applied : List Move}, performFrom l applied moves = (.ok (), l') →
      l'.journal = l.journal ++ moves.map (·, true) ∧
      ∀ x s, (l'.inner.balance x s).toNat + Move.debited moves x s =
        (l.inner.balance x s).toNat + Move.credited moves x s := by
  induction moves with
  | nil =>
    intro l applied h
    cases h
    exact ⟨(List.append_nil _).symm, fun _ _ => rfl⟩
  | cons m moves ih =>
    intro l applied h
    unfold performFrom at h
    split at h
    · rename_i l₁ hm
      obtain ⟨hinner, hjournal⟩ := perform_ok hm
      obtain ⟨hrest, hbalance⟩ := ih h
      refine ⟨?_, fun x s => ?_⟩
      · rw [hrest, hjournal, List.append_assoc]
        rfl
      · have hhead := MemoryLedger.perform_ok hinner x s
        have htail := hbalance x s
        rw [Move.debited_cons, Move.credited_cons]
        omega
    · cases h

/-- Undoing asks for every inverse once. It takes back the moves whose inverse is performed,
whatever happens to the others. -/
theorem exists_undo (applied : List Move) :
    ∀ l : GuardedLedger σ, ∃ undone : List (Move × Bool), undone.map Prod.fst = applied ∧
      (undo l applied).journal = l.journal ++ undone.map (fun u => (u.1.inverse, u.2)) ∧
      ∀ x s, ((undo l applied).inner.balance x s).toNat + Move.credited applied x s +
          Move.debited (Move.kept undone) x s =
        (l.inner.balance x s).toNat + Move.debited applied x s +
          Move.credited (Move.kept undone) x s := by
  induction applied with
  | nil => exact fun l => ⟨[], rfl, (List.append_nil _).symm, fun _ _ => rfl⟩
  | cons m applied ih =>
    intro l
    have hstep : undo l (m :: applied) = undo (AssetLedger.perform l m.inverse).2 applied := rfl
    rw [hstep]
    rcases hm : AssetLedger.perform l m.inverse with ⟨_ | _, l₁⟩
    · obtain ⟨hinner, hjournal⟩ := perform_error hm
      obtain ⟨undone, hmap, hrest, hbalance⟩ := ih l₁
      refine ⟨(m, false) :: undone, by rw [List.map_cons, hmap], ?_, fun x s => ?_⟩
      · rw [hrest, hjournal, List.append_assoc]
        rfl
      · have htail := hbalance x s
        rw [hinner] at htail
        simp only [Move.kept_cons_false, Move.credited_cons, Move.debited_cons]
        omega
    · obtain ⟨hinner, hjournal⟩ := perform_ok hm
      obtain ⟨undone, hmap, hrest, hbalance⟩ := ih l₁
      refine ⟨(m, true) :: undone, by rw [List.map_cons, hmap], ?_, fun x s => ?_⟩
      · rw [hrest, hjournal, List.append_assoc]
        rfl
      · have hhead := MemoryLedger.perform_ok hinner x s
        have htail := hbalance x s
        rw [Move.credits_inverse, Move.debits_inverse] at hhead
        simp only [Move.kept_cons_true, Move.credited_cons, Move.debited_cons]
        omega

/-! ## Batches that fail -/

/-- How a batch has failed: the moves `before` were performed, the next one `m` was refused with the
answer `e`, and then all inverses were asked for, last first; `undone` has their success. -/
structure RolledBack (l : GuardedLedger σ) (moves : List Move) (e : LedgerError)
    (before : List Move) (m : Move) (undone : List (Move × Bool)) (l' : GuardedLedger σ) :
    Prop where
  position : before ++ [m] <+: moves
  refusal : ∃ l₁ l₂, performAll l before = (.ok (), l₁) ∧
    AssetLedger.perform l₁ m = (.error e, l₂)
  order : undone.map Prod.fst = before.reverse
  journal : l'.journal = l.journal ++
    (before.map (·, true) ++ (m, false) :: undone.map fun u => (u.1.inverse, u.2))
  balance : ∀ x s,
    (l'.inner.balance x s).toNat + Move.debited (Move.kept undone) x s =
      (l.inner.balance x s).toNat + Move.credited (Move.kept undone) x s

/-- Every failure of a batch is of this kind. -/
theorem performAll_rolledBack (h : performAll l moves = (.error e, l')) :
    ∃ before m undone, RolledBack l moves e before m undone l' := by
  obtain ⟨before, m, after, l₁, l₂, rfl, hbefore, hm, rfl⟩ := AssetLedger.performFrom_error h
  obtain ⟨hjournal₁, hbalance₁⟩ := performFrom_ok hbefore
  obtain ⟨hinner₂, hjournal₂⟩ := perform_error hm
  rw [List.append_nil]
  obtain ⟨undone, hmap, hjournal, hbalance⟩ := exists_undo before.reverse l₂
  refine ⟨before, m, undone, ⟨⟨after, by simp⟩, ⟨l₁, l₂, hbefore, hm⟩, hmap, ?_, fun x s => ?_⟩⟩
  · rw [hjournal, hjournal₂, hjournal₁]
    simp
  · have hforth := hbalance₁ x s
    have hback := hbalance x s
    rw [hinner₂] at hback
    have hcredited : Move.credited before.reverse x s = Move.credited before x s :=
      ((List.reverse_perm before).map _).sum_eq
    have hdebited : Move.debited before.reverse x s = Move.debited before x s :=
      ((List.reverse_perm before).map _).sum_eq
    omega

/-- If every inverse was performed, all balances are restored. -/
theorem RolledBack.same (h : RolledBack l moves e before m undone l')
    (hall : ∀ u ∈ undone, u.2 = true) : MemoryLedger.Same l'.inner l.inner := by
  intro x s
  have hbalance := h.balance x s
  rw [Move.kept_eq_nil_iff.2 hall] at hbalance
  exact Amount.eq_iff.2 hbalance

/-- How many moves of the journal were refused. -/
def refusals (l : GuardedLedger σ) : Nat := l.journal.countP fun entry => !entry.2

/-- The refused moves of a failed batch are the one that stopped it and the refused inverses. -/
theorem RolledBack.refusals_eq (h : RolledBack l moves e before m undone l') :
    l'.refusals = l.refusals + (1 + (Move.kept undone).length) := by
  have hbefore : (before.map (·, true)).countP (fun entry => !entry.2) = 0 := by
    simp [List.countP_eq_zero]
  have hundone : (undone.map fun u => (u.1.inverse, u.2)).countP (fun entry => !entry.2) =
      (Move.kept undone).length := by
    rw [Move.kept, List.length_map, ← List.countP_eq_length_filter, List.countP_map]
    rfl
  rw [refusals, h.journal, List.countP_append, List.countP_append, hbefore,
    List.countP_cons_of_pos rfl, hundone]
  unfold refusals
  omega

/-- So if the batch was stopped by the only move that was refused, all balances are restored. -/
theorem RolledBack.same_of_refusals (h : RolledBack l moves e before m undone l')
    (hone : l'.refusals = l.refusals + 1) : MemoryLedger.Same l'.inner l.inner := by
  have hrefusals := h.refusals_eq
  have hnone : (Move.kept undone).length = 0 := by omega
  exact h.same (Move.kept_eq_nil_iff.1 (List.eq_nil_of_length_eq_zero hnone))

end GuardedLedger

end BatchAuction
