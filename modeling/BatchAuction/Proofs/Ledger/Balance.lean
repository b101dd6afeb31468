import BatchAuction.Ledger.Memory
import BatchAuction.Proofs.Amount.Result

/-!
# Balances under moves and batches of moves

On the ledger of balances a batch of moves either changes every balance by exactly its credits and
debits (`MemoryLedger.performAll_ok`) or changes none (`MemoryLedger.performAll_error`): what has
been performed can always be undone, because a credited amount is there to be debited and a debited
amount fits back. A refusal for lack of funds names a balance that the debits of the batch exceed
(`MemoryLedger.performAll_insufficient`). If every balance covers its debits and has room for its
credits, the batch is performed (`MemoryLedger.exists_performAll`).
-/

namespace BatchAuction

namespace Move

/-- What a move adds to a balance. -/
def credits (m : Move) (x : Account) (s : Asset) : Nat :=
  if m.direction = .credit ∧ m.account = x ∧ m.asset = s then m.amount.toNat else 0

/-- What a move takes from a balance. -/
def debits (m : Move) (x : Account) (s : Asset) : Nat :=
  if m.direction = .debit ∧ m.account = x ∧ m.asset = s then m.amount.toNat else 0

/-- What some moves add to a balance. -/
def credited (moves : List Move) (x : Account) (s : Asset) : Nat :=
  (moves.map fun m => m.credits x s).sum

/-- What some moves take from a balance. -/
def debited (moves : List Move) (x : Account) (s : Asset) : Nat :=
  (moves.map fun m => m.debits x s).sum

variable {m : Move} {moves : List Move} {x y : Account} {s s' : Asset} {a : Amount}

@[simp] theorem credited_nil : credited [] x s = 0 := rfl

@[simp] theorem debited_nil : debited [] x s = 0 := rfl

@[simp] theorem credited_cons :
    credited (m :: moves) x s = m.credits x s + credited moves x s := rfl

@[simp] theorem debited_cons : debited (m :: moves) x s = m.debits x s + debited moves x s := rfl

/-- A credit credits its own account in its own asset. -/
@[simp] theorem credits_credit :
    (Move.credit y s' a).credits x s = if y = x ∧ s' = s then a.toNat else 0 := by
  simp [credits, credit]

/-- A debit credits nothing. -/
@[simp] theorem credits_debit : (Move.debit y s' a).credits x s = 0 := by
  simp [credits, debit]

/-- A debit debits its own account in its own asset. -/
@[simp] theorem debits_debit :
    (Move.debit y s' a).debits x s = if y = x ∧ s' = s then a.toNat else 0 := by
  simp [debits, debit]

/-- A credit debits nothing. -/
@[simp] theorem debits_credit : (Move.credit y s' a).debits x s = 0 := by
  simp [debits, credit]

@[simp] theorem inverse_credit : (Move.credit y s' a).inverse = .debit y s' a := rfl

@[simp] theorem inverse_debit : (Move.debit y s' a).inverse = .credit y s' a := rfl

/-- Every move is a credit or a debit. -/
theorem eq_credit_or_debit (m : Move) :
    (∃ x s a, m = .credit x s a) ∨ ∃ x s a, m = .debit x s a := by
  obtain ⟨direction, x, s, a⟩ := m
  cases direction with
  | credit => exact .inl ⟨x, s, a, rfl⟩
  | debit => exact .inr ⟨x, s, a, rfl⟩

/-- The inverse credits what the move debits. -/
@[simp] theorem credits_inverse (m : Move) (x : Account) (s : Asset) :
    m.inverse.credits x s = m.debits x s := by
  rcases m.eq_credit_or_debit with ⟨y, s', a, rfl⟩ | ⟨y, s', a, rfl⟩ <;> simp

/-- And it debits what the move credits. -/
@[simp] theorem debits_inverse (m : Move) (x : Account) (s : Asset) :
    m.inverse.debits x s = m.credits x s := by
  rcases m.eq_credit_or_debit with ⟨y, s', a, rfl⟩ | ⟨y, s', a, rfl⟩ <;> simp

/-- The credits of two lists of moves add up. -/
theorem credited_append (l k : List Move) :
    credited (l ++ k) x s = credited l x s + credited k x s := by
  rw [credited, List.map_append, List.sum_append]
  rfl

/-- And so do the debits. -/
theorem debited_append (l k : List Move) :
    debited (l ++ k) x s = debited l x s + debited k x s := by
  rw [debited, List.map_append, List.sum_append]
  rfl

end Move

namespace MemoryLedger

open AssetLedger (perform undo performFrom performAll transfer transferBy)

variable {l l' l₁ : MemoryLedger} {m : Move} {moves : List Move} {x : Account} {s : Asset}
  {e : LedgerError}

/-- Two ledgers hold the same. -/
def Same (l l' : MemoryLedger) : Prop := ∀ x s, l.balance x s = l'.balance x s

/-- A ledger has the balances that it has. -/
theorem Same.refl (l : MemoryLedger) : Same l l := fun _ _ => rfl

/-! ## One move -/

section
variable {a : Amount}

/-- A credit that is performed sets one balance to the sum. -/
theorem credit_ok (h : l.move (.credit x s a) = .ok l') :
    ∃ b : Amount, b.toNat = (l.balance x s).toNat + a.toNat ∧
      ∀ y s', l'.balance y s' = if x = y ∧ s = s' then b else l.balance y s' := by
  change l.credit x s a = .ok l' at h
  unfold credit at h
  split at h
  · cases h
  · rename_i b hb
    cases h
    exact ⟨b, Amount.add_eq_ok_iff.1 hb, fun y s' => balance_withBalance ..⟩

/-- A debit that is performed sets one balance to the difference. -/
theorem debit_ok (h : l.move (.debit x s a) = .ok l') :
    ∃ b : Amount, b.toNat + a.toNat = (l.balance x s).toNat ∧
      ∀ y s', l'.balance y s' = if x = y ∧ s = s' then b else l.balance y s' := by
  change l.debit x s a = .ok l' at h
  unfold debit at h
  simp only at h
  split at h
  · cases h
  · rename_i hb
    cases h
    rw [Amount.lt_iff, Nat.not_lt] at hb
    exact ⟨l.balance x s - a, Nat.sub_add_cancel hb, fun y s' => balance_withBalance ..⟩

/-- A credit is performed where the new balance fits. -/
theorem credit_fits (h : (l.balance x s).toNat + a.toNat < Amount.modulus) :
    ∃ l', l.move (.credit x s a) = .ok l' := by
  obtain ⟨b, hb⟩ : ∃ b : Amount, b.toNat = (l.balance x s).toNat + a.toNat := ⟨⟨_, h⟩, rfl⟩
  have hadd : (l.balance x s).add a = .ok b := Amount.add_eq_ok_iff.2 hb
  show ∃ l', l.credit x s a = .ok l'
  unfold credit
  rw [hadd]
  exact ⟨_, rfl⟩

/-- A debit is performed where the balance covers it. -/
theorem debit_fits (h : a ≤ l.balance x s) : ∃ l', l.move (.debit x s a) = .ok l' := by
  have hnot : ¬ l.balance x s < a := Nat.not_lt.2 h
  show ∃ l', l.debit x s a = .ok l'
  unfold debit
  simp only
  rw [if_neg hnot]
  exact ⟨_, rfl⟩

/-- A credit is never refused for lack of funds, and a debit only if there are less. -/
theorem move_insufficient {requested available : Amount}
    (h : l.move m = .error (.insufficientBalance x s requested available)) :
    (l.balance x s).toNat < m.debits x s := by
  rcases m.eq_credit_or_debit with ⟨y, s', a, rfl⟩ | ⟨y, s', a, rfl⟩
  · change l.credit y s' a = _ at h
    unfold credit at h
    split at h <;> cases h
  · change l.debit y s' a = _ at h
    unfold debit at h
    simp only at h
    split at h
    · rename_i hlt
      cases h
      rwa [Move.debits_debit, if_pos ⟨rfl, rfl⟩]
    · cases h

end

/-- A move that is performed is one that can be made. -/
theorem perform_eq_ok (h : perform l m = (.ok (), l')) : l.move m = .ok l' := by
  simp only [perform] at h
  split at h
  · rename_i hm
    cases h
    exact hm
  · cases h

/-- A move that is refused leaves the ledger as it was. -/
theorem perform_eq_error (h : perform l m = (.error e, l')) : l.move m = .error e ∧ l' = l := by
  simp only [perform] at h
  split at h
  · cases h
  · rename_i hm
    cases h
    exact ⟨hm, rfl⟩

/-- A performed move changes a balance by its credit and its debit. -/
theorem perform_ok (h : perform l m = (.ok (), l')) (x : Account) (s : Asset) :
    (l'.balance x s).toNat + m.debits x s = (l.balance x s).toNat + m.credits x s := by
  rcases m.eq_credit_or_debit with ⟨y, s', a, rfl⟩ | ⟨y, s', a, rfl⟩
  · obtain ⟨b, hb, hbal⟩ := credit_ok (perform_eq_ok h)
    rw [hbal, Move.debits_credit, Move.credits_credit]
    split
    · rename_i hx
      rw [hb, ← hx.1, ← hx.2]
      rfl
    · rfl
  · obtain ⟨b, hb, hbal⟩ := debit_ok (perform_eq_ok h)
    rw [hbal, Move.debits_debit, Move.credits_debit]
    split
    · rename_i hx
      rw [hb, ← hx.1, ← hx.2]
      rfl
    · rfl

/-- A move is performed if every balance covers its debit and has room for its credit. -/
theorem exists_perform (hd : ∀ x s, m.debits x s ≤ (l.balance x s).toNat)
    (hc : ∀ x s, (l.balance x s).toNat + m.credits x s < Amount.modulus) :
    ∃ l', perform l m = (.ok (), l') := by
  obtain ⟨l', hl'⟩ : ∃ l', l.move m = .ok l' := by
    rcases m.eq_credit_or_debit with ⟨y, s', a, rfl⟩ | ⟨y, s', a, rfl⟩
    · have hroom := hc y s'
      rw [Move.credits_credit, if_pos ⟨rfl, rfl⟩] at hroom
      exact credit_fits hroom
    · have hcovered := hd y s'
      rw [Move.debits_debit, if_pos ⟨rfl, rfl⟩] at hcovered
      exact debit_fits hcovered
  exact ⟨l', by simp only [perform, hl']⟩

/-- The inverse of a performed move brings the balances back. -/
theorem same_inverse (h : perform l m = (.ok (), l')) (hs : Same l₁ l') :
    Same (perform l₁ m.inverse).2 l := by
  have restored {x : Account} {s : Asset} {b b' : Amount} {l₂ : MemoryLedger}
      (hb : b'.toNat = (l.balance x s).toNat)
      (hbal : ∀ y s', l'.balance y s' = if x = y ∧ s = s' then b else l.balance y s')
      (hbal₂ : ∀ y s', l₂.balance y s' = if x = y ∧ s = s' then b' else l₁.balance y s') :
      Same l₂ l := by
    intro y s'
    rw [hbal₂, hs, hbal]
    split
    · rename_i hx
      rw [← hx.1, ← hx.2]
      exact Amount.eq_iff.2 hb
    · rfl
  rcases m.eq_credit_or_debit with ⟨x, s, a, rfl⟩ | ⟨x, s, a, rfl⟩
  · obtain ⟨b, hb, hbal⟩ := credit_ok (perform_eq_ok h)
    have hhere : l₁.balance x s = b := by rw [hs, hbal, if_pos ⟨rfl, rfl⟩]
    obtain ⟨l₂, hl₂⟩ : ∃ l₂, l₁.move (.debit x s a) = .ok l₂ :=
      debit_fits (by rw [hhere, Amount.le_iff]; omega)
    obtain ⟨b', hb', hbal₂⟩ := debit_ok hl₂
    have hperform : (perform l₁ (Move.credit x s a).inverse).2 = l₂ := by
      simp only [perform, Move.inverse_credit, hl₂]
    rw [hperform]
    rw [hhere] at hb'
    exact restored (by omega) hbal hbal₂
  · obtain ⟨b, hb, hbal⟩ := debit_ok (perform_eq_ok h)
    have hhere : l₁.balance x s = b := by rw [hs, hbal, if_pos ⟨rfl, rfl⟩]
    obtain ⟨l₂, hl₂⟩ : ∃ l₂, l₁.move (.credit x s a) = .ok l₂ :=
      credit_fits (by rw [hhere, hb]; exact (l.balance x s).isLt)
    obtain ⟨b', hb', hbal₂⟩ := credit_ok hl₂
    have hperform : (perform l₁ (Move.debit x s a).inverse).2 = l₂ := by
      simp only [perform, Move.inverse_debit, hl₂]
    rw [hperform]
    rw [hhere] at hb'
    exact restored (by omega) hbal hbal₂

/-! ## Batches -/

/-- A batch that is performed changes a balance by its credits and its debits. -/
theorem performFrom_ok :
    ∀ {l : MemoryLedger} {applied : List Move}, performFrom l applied moves = (.ok (), l') →
      ∀ x s, (l'.balance x s).toNat + Move.debited moves x s =
        (l.balance x s).toNat + Move.credited moves x s := by
  induction moves with
  | nil =>
    intro l applied h x s
    cases h
    rfl
  | cons m moves ih =>
    intro l applied h x s
    unfold performFrom at h
    split at h
    · rename_i l₁ hm
      have hhead := perform_ok hm x s
      have hrest := ih h x s
      rw [Move.debited_cons, Move.credited_cons]
      omega
    · cases h

/-- A batch that is refused part way changes no balance. The induction carries what undoing the
moves performed so far brings back. -/
theorem performFrom_error {l₀ : MemoryLedger} :
    ∀ {l : MemoryLedger} {applied : List Move},
      (∀ l₁, Same l₁ l → Same (undo l₁ applied) l₀) →
      performFrom l applied moves = (.error e, l') → Same l' l₀ := by
  induction moves with
  | nil =>
    intro l applied _ h
    cases h
  | cons m moves ih =>
    intro l applied hundo h
    unfold performFrom at h
    split at h
    · rename_i l₂ hm
      have hundo' : ∀ l₁, Same l₁ l₂ → Same (undo l₁ (m :: applied)) l₀ := by
        intro l₁ hl₁
        exact hundo (perform l₁ m.inverse).2 (same_inverse hm hl₁)
      exact ih hundo' h
    · rename_i hm
      obtain ⟨-, rfl⟩ := perform_eq_error hm
      cases h
      exact hundo _ (.refl _)

/-- A refusal for lack of funds names a balance that the debits exceed. -/
theorem performFrom_insufficient {requested available : Amount} :
    ∀ {l : MemoryLedger} {applied : List Move},
      performFrom l applied moves = (.error (.insufficientBalance x s requested available), l') →
      (l.balance x s).toNat < Move.debited moves x s := by
  induction moves with
  | nil =>
    intro l applied h
    cases h
  | cons m moves ih =>
    intro l applied h
    unfold performFrom at h
    rw [Move.debited_cons]
    split at h
    · rename_i l₂ hm
      have hhead := perform_ok hm x s
      have hrest := ih h
      omega
    · rename_i hm
      obtain ⟨hmove, -⟩ := perform_eq_error hm
      cases h
      have hlt := move_insufficient hmove
      omega

/-- Moves that are covered and have room are performed, whatever was applied before. -/
theorem exists_performFrom :
    ∀ {l : MemoryLedger} {applied : List Move},
      (∀ x s, Move.debited moves x s ≤ (l.balance x s).toNat) →
      (∀ x s, (l.balance x s).toNat + Move.credited moves x s < Amount.modulus) →
      ∃ l', performFrom l applied moves = (.ok (), l') := by
  induction moves with
  | nil => exact fun _ _ => ⟨_, rfl⟩
  | cons m moves ih =>
    intro l applied hd hc
    simp only [Move.debited_cons] at hd
    simp only [Move.credited_cons] at hc
    obtain ⟨l₁, hl₁⟩ : ∃ l₁, perform l m = (.ok (), l₁) :=
      exists_perform (fun x s => Nat.le_trans (Nat.le_add_right _ _) (hd x s)) fun x s =>
        Nat.lt_of_le_of_lt (Nat.add_le_add_left (Nat.le_add_right _ _) _) (hc x s)
    -- the rest of the batch meets the balances that the first move leaves
    have hrest : ∃ l', performFrom l₁ (m :: applied) moves = (.ok (), l') := by
      refine ih (fun x s => ?_) fun x s => ?_
      · have hhead := perform_ok hl₁ x s
        have hall := hd x s
        omega
      · have hhead := perform_ok hl₁ x s
        have hall := hc x s
        omega
    unfold performFrom
    rw [hl₁]
    exact hrest

/-- A batch that is performed moves the sum of its moves. -/
theorem performAll_ok (h : performAll l moves = (.ok (), l')) (x : Account) (s : Asset) :
    (l'.balance x s).toNat + Move.debited moves x s =
      (l.balance x s).toNat + Move.credited moves x s :=
  performFrom_ok h x s

/-- A batch that is refused leaves all balances as they were. -/
theorem performAll_error (h : performAll l moves = (.error e, l')) : Same l' l := by
  have hnone : ∀ l₁, Same l₁ l → Same (undo l₁ []) l := fun _ hl₁ => hl₁
  exact performFrom_error hnone h

/-- A batch that lacks funds debits more than there is. -/
theorem performAll_insufficient {requested available : Amount}
    (h : performAll l moves = (.error (.insufficientBalance x s requested available), l')) :
    (l.balance x s).toNat < Move.debited moves x s :=
  performFrom_insufficient h

/-- A batch is performed if every balance covers its debits and has room for its credits. -/
theorem exists_performAll (hd : ∀ x s, Move.debited moves x s ≤ (l.balance x s).toNat)
    (hc : ∀ x s, (l.balance x s).toNat + Move.credited moves x s < Amount.modulus) :
    ∃ l', performAll l moves = (.ok (), l') :=
  exists_performFrom hd hc

/-! ## Transfers -/

section
variable {source target : Account} {a : Amount}

/-- The ledger of balances has no transfer of its own. -/
theorem transfer_eq (l : MemoryLedger) (source target : Account) (s : Asset) (a : Amount) :
    transfer l source target s a = transferBy perform l source target s a := rfl

/-- A transfer that is performed takes from one balance and adds to the other. -/
theorem transfer_ok (h : transfer l source target s a = (.ok (), l')) (x : Account) (s' : Asset) :
    (l'.balance x s').toNat + (Move.debit source s a).debits x s' =
      (l.balance x s').toNat + (Move.credit target s a).credits x s' := by
  rw [transfer_eq, transferBy] at h
  split at h
  · cases h
  · rename_i l₁ hdebit
    split at h
    · rename_i l₂ hcredit
      cases h
      have h1 := perform_ok hdebit x s'
      have h2 := perform_ok hcredit x s'
      rw [Move.credits_debit] at h1
      rw [Move.debits_credit] at h2
      omega
    · split at h <;> cases h

/-- A transfer that is refused changes no balance. -/
theorem transfer_error (h : transfer l source target s a = (.error e, l')) : Same l' l := by
  rw [transfer_eq, transferBy] at h
  split at h
  · rename_i hdebit
    cases h
    obtain ⟨-, rfl⟩ := perform_eq_error hdebit
    exact .refl _
  · rename_i l₁ hdebit
    split at h
    · cases h
    · rename_i l₂ hcredit
      obtain ⟨-, rfl⟩ := perform_eq_error hcredit
      have hback := same_inverse hdebit (.refl l₂)
      rw [Move.inverse_debit] at hback
      split at h
      · rename_i hperform
        rw [hperform] at hback
        cases h
        exact hback
      · rename_i hperform
        rw [hperform] at hback
        cases h
        exact hback

end

end MemoryLedger

end BatchAuction
