import BatchAuction.Proofs.Ledger.Total

/-!
# The ledger of balances keeps double-entry books

A holder of the ledger credits, debits and transfers (`Transaction`). What the ledger answers can be
told from the balances alone: a debit and the debit side of a transfer need the funds, a credit and
the credit side need room below `2 ^ 256`, and a transfer from an account to itself needs no room,
because it only puts back what it took (`MemoryLedger.Faithful`). A call that is refused changes no
balance, though a transfer that fails on its credit side has performed a debit and a credit by then.

The two running sums count such a pair as well, and the books close all the same: what all accounts
hold, with all that was ever debited, is what they held at the beginning with all that was ever
credited. A sum that has stopped at the largest amount no longer counts, so the equation is about
sums below it, and it is carried from call to call by `MemoryLedger.Carried`, which says that they
were below it before the call too.
-/

namespace BatchAuction

/-- A sum that has not stopped at the largest amount is exact, and no part of it has stopped. -/
theorem Amount.addCapped_ne_max {a b : Amount} (h : a.addCapped b ≠ .max) :
    (a.addCapped b).toNat = a.toNat + b.toNat ∧ a ≠ .max := by
  unfold addCapped at h ⊢
  split at h
  · rename_i hfits
    rw [dif_pos hfits]
    refine ⟨rfl, ?_⟩
    rintro rfl
    -- the largest amount has room for zero only, and then the sum is the largest amount
    have hzero : b.toNat = 0 := by
      change modulus - 1 + b.toNat < modulus at hfits
      omega
    refine h (Amount.ext ?_)
    show Amount.max.toNat + b.toNat = Amount.max.toNat
    rw [hzero, Nat.add_zero]
  · exact absurd rfl h

/-- A call by a holder of the ledger. -/
inductive Transaction
  /-- Add to a balance. -/
  | credit (account : Account) (asset : Asset) (amount : Amount)
  /-- Take from a balance. -/
  | debit (account : Account) (asset : Asset) (amount : Amount)
  /-- Take from one balance and add to another. -/
  | transfer (source target : Account) (asset : Asset) (amount : Amount)
deriving DecidableEq, Repr

/-- The moves that a call asks for. -/
def Transaction.moves : Transaction → List Move
  | .credit x s a => [.credit x s a]
  | .debit x s a => [.debit x s a]
  | .transfer x y s a => [.debit x s a, .credit y s a]

namespace MemoryLedger

open AssetLedger (perform transfer transferBy)

/-- Performs a call or refuses it. -/
def transact (l : MemoryLedger) : Transaction → Except LedgerError Unit × MemoryLedger
  | .credit x s a => perform l (.credit x s a)
  | .debit x s a => perform l (.debit x s a)
  | .transfer x y s a => transfer l x y s a

/-- The ledger after some calls, whatever it answers to them. -/
def transactAll (l : MemoryLedger) (transactions : List Transaction) : MemoryLedger :=
  transactions.foldl (fun l t => (l.transact t).2) l

/-- The ledger that begins with some balances, set one after the other. -/
def seeded (seeds : List (Account × Asset × Amount)) : MemoryLedger :=
  seeds.foldl (fun l seed => l.withBalance seed.1 seed.2.1 seed.2.2) empty

variable {l l' l₁ : MemoryLedger} {m : Move} {x y : Account} {s s' : Asset} {a : Amount}

/-! ## Answers -/

/-- A credit is refused exactly if the new balance has no room. -/
theorem perform_credit (l : MemoryLedger) (x : Account) (s : Asset) (a : Amount) :
    (perform l (.credit x s a)).1 =
      if (l.balance x s).toNat + a.toNat < Amount.modulus then .ok ()
      else .error (.balanceOverflow x s) := by
  split
  · rename_i hfits
    obtain ⟨l', hl'⟩ := credit_fits hfits
    simp only [perform, hl']
  · rename_i hfull
    have hadd : (l.balance x s).add a = .error .overflow :=
      Amount.exactly_eq_error_iff.2 ⟨Nat.not_lt.1 hfull, rfl⟩
    have hmove : l.move (.credit x s a) = .error (.balanceOverflow x s) := by
      show l.credit x s a = _
      rw [credit, hadd]
    simp only [perform, hmove]

/-- A debit is refused exactly if the balance does not cover it. -/
theorem perform_debit (l : MemoryLedger) (x : Account) (s : Asset) (a : Amount) :
    (perform l (.debit x s a)).1 =
      if a ≤ l.balance x s then .ok ()
      else .error (.insufficientBalance x s a (l.balance x s)) := by
  split
  · rename_i hcovered
    obtain ⟨l', hl'⟩ := debit_fits hcovered
    simp only [perform, hl']
  · rename_i hshort
    have hless : l.balance x s < a := Nat.not_le.1 hshort
    have hmove : l.move (.debit x s a) = .error (.insufficientBalance x s a (l.balance x s)) := by
      show l.debit x s a = _
      rw [debit, if_pos hless]
    simp only [perform, hmove]

/-- A debit takes from its own account only. -/
theorem balance_of_debit (h : perform l (.debit x s a) = (.ok (), l₁)) (y : Account) :
    ((l₁.balance y s).toNat + if x = y then a.toNat else 0) = (l.balance y s).toNat := by
  have hperform := perform_ok h y s
  rw [Move.debits_debit, Move.credits_debit, Nat.add_zero] at hperform
  rw [← hperform]
  simp only [and_true]

/-- A transfer whose debit is performed answers what its credit answers: if that is refused, the
source has room for what was just taken from it. -/
theorem transfer_of_debit (h : perform l (.debit x s a) = (.ok (), l₁)) (y : Account) :
    (transfer l x y s a).1 = (perform l₁ (.credit y s a)).1 := by
  have hsource := balance_of_debit h x
  rw [if_pos rfl] at hsource
  have hroom : (l₁.balance x s).toNat + a.toNat < Amount.modulus :=
    hsource ▸ (l.balance x s).isLt
  rw [transfer_eq, transferBy]
  rw [h]
  simp only
  split
  · rename_i l₂ hcredit
    rw [hcredit]
  · rename_i e l₂ hcredit
    obtain ⟨-, rfl⟩ := perform_eq_error hcredit
    have hback := perform_credit l₂ x s a
    rw [if_pos hroom] at hback
    split
    · rw [hcredit]
    · rename_i hrefused
      rw [hrefused] at hback
      cases hback

/-- What a transfer answers depends on what the source has and, for another account, on the room of
the target. -/
theorem transfer_answer (l : MemoryLedger) (x y : Account) (s : Asset) (a : Amount) :
    (transfer l x y s a).1 =
      if ¬ a ≤ l.balance x s then .error (.insufficientBalance x s a (l.balance x s))
      else if x ≠ y ∧ Amount.modulus ≤ (l.balance y s).toNat + a.toNat then
        .error (.balanceOverflow y s)
      else .ok () := by
  obtain ⟨r, l₁, hdebit⟩ : ∃ r l₁, perform l (.debit x s a) = (r, l₁) := ⟨_, _, rfl⟩
  have hanswer := perform_debit l x s a
  rw [hdebit] at hanswer
  by_cases hcovered : a ≤ l.balance x s
  · obtain rfl : r = .ok () := hanswer.trans (if_pos hcovered)
    have hbalance := balance_of_debit hdebit y
    rw [if_neg (not_not.2 hcovered), transfer_of_debit hdebit, perform_credit]
    by_cases hxy : x = y
    · rw [if_pos hxy] at hbalance
      rw [if_pos (hbalance ▸ (l.balance y s).isLt), if_neg fun h => h.1 hxy]
    · rw [if_neg hxy, Nat.add_zero] at hbalance
      rw [hbalance]
      by_cases hfits : (l.balance y s).toNat + a.toNat < Amount.modulus
      · rw [if_pos hfits, if_neg fun h => Nat.not_le.2 hfits h.2]
      · rw [if_neg hfits, if_pos ⟨hxy, Nat.not_lt.1 hfits⟩]
  · obtain rfl : r = _ := hanswer.trans (if_neg hcovered)
    rw [if_pos hcovered]
    rw [transfer_eq, transferBy]
    rw [hdebit]

/-- What a ledger owes its holder, by its balances. -/
structure Faithful (l : MemoryLedger) : Prop where
  /-- A credit is refused exactly if the balance would leave the 256 bits. -/
  credit : ∀ x s a, (l.transact (.credit x s a)).1 =
    if (l.balance x s).toNat + a.toNat < Amount.modulus then .ok ()
    else .error (.balanceOverflow x s)
  /-- A debit is refused exactly if the account holds less. -/
  debit : ∀ x s a, (l.transact (.debit x s a)).1 =
    if a ≤ l.balance x s then .ok ()
    else .error (.insufficientBalance x s a (l.balance x s))
  /-- A transfer is refused exactly if the source holds less or another account has no room. -/
  transfer : ∀ x y s a, (l.transact (.transfer x y s a)).1 =
    if ¬ a ≤ l.balance x s then .error (.insufficientBalance x s a (l.balance x s))
    else if x ≠ y ∧ Amount.modulus ≤ (l.balance y s).toNat + a.toNat then
      .error (.balanceOverflow y s)
    else .ok ()
  /-- A call that is performed changes each balance by its moves. -/
  performed : ∀ t, (l.transact t).1 = .ok () → ∀ x s,
    ((l.transact t).2.balance x s).toNat + Move.debited t.moves x s =
      (l.balance x s).toNat + Move.credited t.moves x s
  /-- A call that is refused changes no balance. -/
  refused : ∀ t e, (l.transact t).1 = .error e → Same (l.transact t).2 l

/-- A transaction that is performed moves what its moves say. -/
theorem transact_performed {t : Transaction} (h : (l.transact t).1 = .ok ()) (x : Account)
    (s : Asset) :
    ((l.transact t).2.balance x s).toNat + Move.debited t.moves x s =
      (l.balance x s).toNat + Move.credited t.moves x s := by
  have heq : l.transact t = (.ok (), (l.transact t).2) := Prod.ext h rfl
  cases t with
  | credit y s' a => exact perform_ok heq x s
  | debit y s' a => exact perform_ok heq x s
  | transfer y z s' a =>
    have hmoved := transfer_ok heq x s
    simp only [Transaction.moves, Move.debited_cons, Move.debited_nil, Move.credited_cons,
      Move.credited_nil, Move.credits_debit, Move.debits_credit]
    omega

/-- One that is refused moves nothing. -/
theorem transact_refused {t : Transaction} {e : LedgerError} (h : (l.transact t).1 = .error e) :
    Same (l.transact t).2 l := by
  have heq : l.transact t = (.error e, (l.transact t).2) := Prod.ext h rfl
  cases t with
  | credit y s' a =>
    rw [(perform_eq_error heq).2]
    exact .refl l
  | debit y s' a =>
    rw [(perform_eq_error heq).2]
    exact .refl l
  | transfer y z s' a => exact transfer_error heq

/-- The ledger of balances is faithful. -/
theorem faithful (l : MemoryLedger) : l.Faithful where
  credit := perform_credit l
  debit := perform_debit l
  transfer := transfer_answer l
  performed _ h := transact_performed h
  refused _ _ h := transact_refused h

/-! ## Running sums -/

/-- As long as the running sums of an asset have not stopped, what is held and what was debited grow
by as much as what was credited. -/
def Carried (s : Asset) (l l' : MemoryLedger) : Prop :=
  l'.totalCredited.get s ≠ .max → l'.totalDebited.get s ≠ .max →
    l.totalCredited.get s ≠ .max ∧ l.totalDebited.get s ≠ .max ∧
      l'.total s + (l'.totalDebited.get s).toNat + (l.totalCredited.get s).toNat =
        l.total s + (l.totalDebited.get s).toNat + (l'.totalCredited.get s).toNat

/-- No transactions carry nothing. -/
theorem Carried.refl (s : Asset) (l : MemoryLedger) : Carried s l l :=
  fun hcredited hdebited => ⟨hcredited, hdebited, rfl⟩

/-- What two runs carry is what the one and then the other carries. -/
theorem Carried.trans (h : Carried s l l₁) (h' : Carried s l₁ l') : Carried s l l' := by
  intro hcredited hdebited
  obtain ⟨hcredited₁, hdebited₁, hsecond⟩ := h' hcredited hdebited
  obtain ⟨hcredited₀, hdebited₀, hfirst⟩ := h hcredited₁ hdebited₁
  exact ⟨hcredited₀, hdebited₀, by omega⟩

/-- A credit that is performed adds its amount to the total of its asset. -/
theorem total_credit (h : perform l (.credit x s' a) = (.ok (), l')) (s : Asset) :
    l'.total s = l.total s + if s' = s then a.toNat else 0 := by
  have hsum := total_of_balances fun y => perform_ok h y s
  simpa only [sum_credits_credit, Move.debits_credit, Finset.sum_const_zero, Nat.add_zero]
    using hsum

/-- A debit that is performed takes its amount from the total of its asset. -/
theorem total_debit (h : perform l (.debit x s' a) = (.ok (), l')) (s : Asset) :
    (l'.total s + if s' = s then a.toNat else 0) = l.total s := by
  have hsum := total_of_balances fun y => perform_ok h y s
  simpa only [sum_debits_debit, Move.credits_debit, Finset.sum_const_zero, Nat.add_zero] using hsum

/-- A credit that is performed counts as credited and as nothing else. -/
theorem sums_credit (h : perform l (.credit x s a) = (.ok (), l')) :
    l'.totalCredited = l.totalCredited.set s ((l.totalCredited.get s).addCapped a) ∧
      l'.totalDebited = l.totalDebited := by
  have hmove : l.credit x s a = .ok l' := perform_eq_ok h
  unfold credit at hmove
  split at hmove
  · cases hmove
  · cases hmove
    exact ⟨rfl, rfl⟩

/-- A debit that is performed counts as debited and as nothing else. -/
theorem sums_debit (h : perform l (.debit x s a) = (.ok (), l')) :
    l'.totalDebited = l.totalDebited.set s ((l.totalDebited.get s).addCapped a) ∧
      l'.totalCredited = l.totalCredited := by
  have hmove : l.debit x s a = .ok l' := perform_eq_ok h
  unfold debit at hmove
  simp only at hmove
  split at hmove
  · cases hmove
  · cases hmove
    exact ⟨rfl, rfl⟩

/-- A credit adds to the total what it counts as credited. -/
theorem carried_credit (h : perform l (.credit x s' a) = (.ok (), l')) (s : Asset) :
    Carried s l l' := by
  intro hcredited hdebited
  have htotal := total_credit h s
  obtain ⟨hc, hd⟩ := sums_credit h
  rw [hd] at hdebited ⊢
  rw [hc, Holdings.get_set] at hcredited ⊢
  by_cases hs : s' = s
  · subst hs
    rw [if_pos rfl] at hcredited htotal ⊢
    obtain ⟨hsum, hbelow⟩ := Amount.addCapped_ne_max hcredited
    exact ⟨hbelow, hdebited, by omega⟩
  · rw [if_neg hs] at hcredited htotal ⊢
    exact ⟨hcredited, hdebited, by omega⟩

/-- A debit takes from the total what it counts as debited. -/
theorem carried_debit (h : perform l (.debit x s' a) = (.ok (), l')) (s : Asset) :
    Carried s l l' := by
  intro hcredited hdebited
  have htotal := total_debit h s
  obtain ⟨hd, hc⟩ := sums_debit h
  rw [hc] at hcredited ⊢
  rw [hd, Holdings.get_set] at hdebited ⊢
  by_cases hs : s' = s
  · subst hs
    rw [if_pos rfl] at hdebited htotal ⊢
    obtain ⟨hsum, hbelow⟩ := Amount.addCapped_ne_max hdebited
    exact ⟨hcredited, hbelow, by omega⟩
  · rw [if_neg hs] at hdebited htotal ⊢
    exact ⟨hcredited, hdebited, by omega⟩

/-- A move carries the books on, performed or not. -/
theorem carried_perform {r : Except LedgerError Unit} (h : perform l m = (r, l')) (s : Asset) :
    Carried s l l' := by
  cases r with
  | error e =>
    obtain ⟨-, rfl⟩ := perform_eq_error h
    exact .refl s l'
  | ok u =>
    rcases m.eq_credit_or_debit with ⟨x, s', a, rfl⟩ | ⟨x, s', a, rfl⟩
    · exact carried_credit h s
    · exact carried_debit h s

/-- A transfer is two moves or three, each of which carries the books on. -/
theorem carried_transfer (l : MemoryLedger) (x y : Account) (s' : Asset) (a : Amount) (s : Asset) :
    Carried s l (transfer l x y s' a).2 := by
  rw [transfer_eq, transferBy]
  split
  · rename_i e l₁ hdebit
    exact carried_perform hdebit s
  · rename_i l₁ hdebit
    have htaken := carried_perform hdebit s
    split
    · rename_i l₂ hcredit
      exact htaken.trans (carried_perform hcredit s)
    · rename_i e l₂ hcredit
      have hput := htaken.trans (carried_perform hcredit s)
      split
      · rename_i l₃ hback
        exact hput.trans (carried_perform hback s)
      · rename_i e' l₃ hback
        exact hput.trans (carried_perform hback s)

/-- Every transaction carries what it adds to the counters. -/
theorem carried_transact (l : MemoryLedger) (t : Transaction) (s : Asset) :
    Carried s l (l.transact t).2 := by
  cases t with
  | credit x s' a => exact carried_perform rfl s
  | debit x s' a => exact carried_perform rfl s
  | transfer x y s' a => exact carried_transfer l x y s' a s

/-- And so do all transactions one after the other. -/
theorem carried_transactAll (transactions : List Transaction) (s : Asset) :
    ∀ l : MemoryLedger, Carried s l (l.transactAll transactions) := by
  induction transactions with
  | nil => exact fun l => .refl s l
  | cons t transactions ih =>
    intro l
    exact (carried_transact l t s).trans (ih (l.transact t).2)

/-- Seeding leaves the running sums alone. -/
theorem sums_seeded (seeds : List (Account × Asset × Amount)) :
    (seeded seeds).totalCredited = .empty ∧ (seeded seeds).totalDebited = .empty := by
  have hkept : ∀ l : MemoryLedger, l.totalCredited = .empty ∧ l.totalDebited = .empty →
      let l' := seeds.foldl (fun l seed => l.withBalance seed.1 seed.2.1 seed.2.2) l
      l'.totalCredited = .empty ∧ l'.totalDebited = .empty := by
    induction seeds with
    | nil => exact fun _ h => h
    | cons seed seeds ih => exact fun l h => ih (l.withBalance seed.1 seed.2.1 seed.2.2) h
  exact hkept empty ⟨rfl, rfl⟩

/-! ## The result -/

/-- After any calls on a ledger with any balances set at the beginning, what the ledger answers to
the next call is what its balances say, the call changes each balance by its moves or changes none,
and for each asset whose running sums have not stopped at the largest amount, what all accounts hold
and what was debited make up what they held at the beginning and what was credited. -/
theorem double_entry (seeds : List (Account × Asset × Amount)) (transactions : List Transaction) :
    ((seeded seeds).transactAll transactions).Faithful ∧
      ∀ s, ((seeded seeds).transactAll transactions).totalCredited.get s ≠ .max →
        ((seeded seeds).transactAll transactions).totalDebited.get s ≠ .max →
        ((seeded seeds).transactAll transactions).total s +
            (((seeded seeds).transactAll transactions).totalDebited.get s).toNat =
          (seeded seeds).total s +
            (((seeded seeds).transactAll transactions).totalCredited.get s).toNat := by
  refine ⟨faithful _, fun s hcredited hdebited => ?_⟩
  obtain ⟨-, -, hbooks⟩ := carried_transactAll transactions s (seeded seeds) hcredited hdebited
  obtain ⟨hc, hd⟩ := sums_seeded seeds
  have hnothing : (Holdings.empty.get s).toNat = 0 := by cases s <;> rfl
  rw [hc, hd, hnothing] at hbooks
  exact hbooks

/-- The account that pays in the example. -/
def payer : Account := ⟨11, by decide⟩

/-- The account that is paid. -/
def payee : Account := ⟨12, by decide⟩

/-- The payer has five units, and the payee has no room for more. -/
def brimful : List (Account × Asset × Amount) := [(payer, .base, 5), (payee, .base, .max)]

/-- A transfer that bounces, and a debit that makes room. -/
def bounced : List Transaction := [.transfer payer payee .base 1, .debit payee .base 3]

/-- The bounced unit counts as debited and as credited, so four units are debited and one is
credited. Another transfer needs room for its amount. -/
theorem bounced_double_entry :
    ((seeded brimful).transactAll bounced).balance payer .base = 5 ∧
      ((seeded brimful).transactAll bounced).total .base + 4 = (seeded brimful).total .base + 1 ∧
      (((seeded brimful).transactAll bounced).transact (.transfer payer payee .base 4)).1 =
        .error (.balanceOverflow payee .base) := by
  obtain ⟨hfaithful, hbooks⟩ := double_entry brimful bounced
  have hcredited : ((seeded brimful).transactAll bounced).totalCredited.get .base = 1 := by
    decide +kernel
  have hdebited : ((seeded brimful).transactAll bounced).totalDebited.get .base = 4 := by
    decide +kernel
  have hclosed := hbooks .base (by rw [hcredited]; decide) (by rw [hdebited]; decide)
  rw [hcredited, hdebited] at hclosed
  exact ⟨by decide +kernel, hclosed,
    (hfaithful.transfer payer payee .base 4).trans (by decide +kernel)⟩

end MemoryLedger

end BatchAuction
