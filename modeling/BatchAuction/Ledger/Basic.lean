import BatchAuction.Account
import BatchAuction.Amount.Basic

/-!
# Asset ledgers

An auction holds no funds itself. It asks a ledger to perform moves, each a credit or a debit of one
account, and the ledger may refuse any of them. `AssetLedger` is that capability; a ledger is a
state, and a refused move may leave a trace in it. A ledger also transfers from one account to
another, by a debit and a credit unless it has a way of its own. `performAll` performs moves in
order and, when one is refused, undoes those before it by their inverses, last first, whatever the
ledger answers to the inverses.
-/

namespace BatchAuction

/-- Why a ledger refuses a move. -/
inductive LedgerError
  /-- The account holds less than the debit. -/
  | insufficientBalance (account : Account) (asset : Asset) (requested available : Amount)
  /-- The credit would take the balance past the largest amount. -/
  | balanceOverflow (account : Account) (asset : Asset)
  /-- The ledger has reasons of its own. -/
  | rejected (reason : String)
deriving DecidableEq, Repr

/-- The wording of a ledger error. -/
def LedgerError.message : LedgerError → String
  | .insufficientBalance account asset requested available =>
    s!"insufficient {asset.name} balance for {account}: " ++
      s!"requested {requested}, available {available}"
  | .balanceOverflow account asset => s!"{asset.name} balance overflow for {account}"
  | .rejected reason => s!"ledger rejected transfer: {reason}"

/-- The two kinds of move. -/
inductive Direction
  /-- A balance grows. -/
  | credit
  /-- A balance shrinks. -/
  | debit
deriving DecidableEq, Repr

/-- The opposite kind. -/
def Direction.opposite : Direction → Direction
  | .credit => .debit
  | .debit => .credit

/-- A change of one balance. -/
@[ext]
structure Move where
  /-- Whether the balance grows or shrinks. -/
  direction : Direction
  /-- The account. -/
  account : Account
  /-- The asset. -/
  asset : Asset
  /-- By how much. -/
  amount : Amount
deriving DecidableEq, Repr

namespace Move

/-- A growing balance. -/
def credit (account : Account) (asset : Asset) (amount : Amount) : Move :=
  ⟨.credit, account, asset, amount⟩

/-- A shrinking balance. -/
def debit (account : Account) (asset : Asset) (amount : Amount) : Move :=
  ⟨.debit, account, asset, amount⟩

/-- The move that undoes a move. -/
def inverse (m : Move) : Move := { m with direction := m.direction.opposite }

end Move

/-- A transfer made of moves: debits `source` and credits `target`. If the credit is refused,
`source` is credited again; that refusal, if any, is the one reported. -/
def AssetLedger.transferBy {L : Type} (perform : L → Move → Except LedgerError Unit × L)
    (ledger : L) (source target : Account) (asset : Asset) (amount : Amount) :
    Except LedgerError Unit × L :=
  match perform ledger (.debit source asset amount) with
  | (.error e, ledger) => (.error e, ledger)
  | (.ok (), ledger) =>
    match perform ledger (.credit target asset amount) with
    | (.ok (), ledger) => (.ok (), ledger)
    | (.error e, ledger) =>
      match perform ledger (.credit source asset amount) with
      | (.ok (), ledger) => (.error e, ledger)
      | (.error e', ledger) => (.error e', ledger)

/-- States that perform moves and know balances. -/
class AssetLedger (L : Type) where
  /-- Performs a move or refuses it. -/
  perform : L → Move → Except LedgerError Unit × L
  /-- What an account holds. -/
  balance : L → Account → Asset → Amount
  /-- Moves an amount from the first account to the second. A ledger that has no transfer of its own
  makes it of moves. -/
  transfer : L → Account → Account → Asset → Amount → Except LedgerError Unit × L :=
    AssetLedger.transferBy perform

namespace AssetLedger

variable {L : Type} [AssetLedger L]

/-- Performs the inverses of some moves in order and ignores refusals. -/
def undo (ledger : L) : List Move → L
  | [] => ledger
  | m :: moves => undo (perform ledger m.inverse).2 moves

/-- Performs moves in order; `applied` are the moves performed so far, last first. -/
def performFrom (ledger : L) (applied : List Move) : List Move → Except LedgerError Unit × L
  | [] => (.ok (), ledger)
  | m :: moves =>
    match perform ledger m with
    | (.ok (), ledger) => performFrom ledger (m :: applied) moves
    | (.error e, ledger) => (.error e, undo ledger applied)

/-- Performs moves in order. When one is refused, the moves before it are undone, last first, and
its refusal is the answer. -/
def performAll (ledger : L) (moves : List Move) : Except LedgerError Unit × L :=
  performFrom ledger [] moves

end AssetLedger

end BatchAuction
