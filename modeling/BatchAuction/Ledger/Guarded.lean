import BatchAuction.Ledger.Memory

/-!
# Ledgers that refuse moves for reasons of their own

`GuardedLedger σ` is a ledger of balances behind a policy with a state of type `σ`. The policy
judges each move before the balances see it, and its state may remember every move it has judged; a
move that it refuses changes no balance. The journal lists all moves asked for, with their success.
`RefusalRule`s are a policy: a list of patterns, each of which refuses some of the moves that match
it.
-/

namespace BatchAuction

/-- States that decide which moves to refuse. -/
class RefusalPolicy (σ : Type) where
  /-- The refusal of a move, if it is refused, and the next state. -/
  judge : σ → Move → Option LedgerError × σ

/-- A ledger of balances behind a policy. -/
structure GuardedLedger (σ : Type) where
  /-- The balances. -/
  inner : MemoryLedger
  /-- The state of the policy. -/
  policy : σ
  /-- The moves asked for since the journal was last cleared, oldest first, and their success. -/
  journal : List (Move × Bool)

namespace GuardedLedger

variable {σ : Type}

/-- Forgets the journal. -/
def clearJournal (l : GuardedLedger σ) : GuardedLedger σ := { l with journal := [] }

/-- Replaces the state of the policy. -/
def withPolicy (l : GuardedLedger σ) (policy : σ) : GuardedLedger σ := { l with policy }

/-- Performs a move unless the policy refuses it. -/
def perform [RefusalPolicy σ] (l : GuardedLedger σ) (m : Move) :
    Except LedgerError Unit × GuardedLedger σ :=
  match RefusalPolicy.judge l.policy m with
  | (some e, policy) => (.error e, ⟨l.inner, policy, l.journal ++ [(m, false)]⟩)
  | (none, policy) =>
    match l.inner.move m with
    | .error e => (.error e, ⟨l.inner, policy, l.journal ++ [(m, false)]⟩)
    | .ok inner => (.ok (), ⟨inner, policy, l.journal ++ [(m, true)]⟩)

instance [RefusalPolicy σ] : AssetLedger (GuardedLedger σ) where
  perform := perform
  balance l := l.inner.balance

end GuardedLedger

/-- A pattern of moves, some of which are refused. -/
structure RefusalRule where
  /-- The kind of move. -/
  direction : Direction
  /-- The account, if only one is meant. -/
  account : Option Account
  /-- The asset, if only one is meant. -/
  asset : Option Asset
  /-- How many matching moves pass before the first refusal. -/
  skip : Nat
  /-- How many matching moves are refused then; all if there is no limit. -/
  times : Option Nat
  /-- The reason given. -/
  reason : String
  /-- How many matching moves have been seen. -/
  seen : Nat
deriving DecidableEq, Repr

namespace RefusalRule

/-- The rule speaks about a move. -/
def Matches (r : RefusalRule) (m : Move) : Prop :=
  r.direction = m.direction ∧ (∀ account ∈ r.account, account = m.account) ∧
    ∀ asset ∈ r.asset, asset = m.asset

instance (r : RefusalRule) (m : Move) : Decidable (r.Matches m) :=
  inferInstanceAs (Decidable (_ ∧ _ ∧ _))

/-- The rule refuses the matching move of this number, counted from one. -/
def Refuses (r : RefusalRule) (count : Nat) : Prop :=
  r.skip < count ∧ ∀ times ∈ r.times, count ≤ r.skip + times

instance (r : RefusalRule) (count : Nat) : Decidable (r.Refuses count) :=
  inferInstanceAs (Decidable (_ ∧ _))

/-- The rule's own answer to a move, and the rule after it. -/
def judgeOne (r : RefusalRule) (m : Move) : Option String × RefusalRule :=
  if r.Matches m then
    (if r.Refuses (r.seen + 1) then some r.reason else none, { r with seen := r.seen + 1 })
  else (none, r)

/-- Asks the rules in order until one refuses; only those asked count the move. -/
def judge : List RefusalRule → Move → Option String × List RefusalRule
  | [], _ => (none, [])
  | r :: rules, m =>
    match r.judgeOne m with
    | (some reason, r) => (some reason, r :: rules)
    | (none, r) =>
      let rest := judge rules m
      (rest.1, r :: rest.2)

end RefusalRule

/-- The first rule that refuses gives the reason. -/
instance : RefusalPolicy (List RefusalRule) where
  judge rules m := ((RefusalRule.judge rules m).1.map .rejected, (RefusalRule.judge rules m).2)

end BatchAuction
