import BatchAuction.Audit.Log
import BatchAuction.Auction.Config
import BatchAuction.Auction.Error
import BatchAuction.Ledger.Basic
import BatchAuction.Payout.Report

/-!
# Auctions

`Auction L` is one auction over a ledger of type `L`. Its `stage` holds the phase and three records
that the phases fix one after the other: the caps, the commitment and the payout totals. They are
fields of their own, and nothing in the type says which of them a phase has. An operation asks for
the phase it belongs to and for the records it needs, and refuses if one is missing. A stage is
coherent if it has one of the three forms that agree with themselves (`Stage.Coherent`): nothing
before the start, the caps and empty totals while bids are accepted, and all three records after the
clearing point is committed. Every state that a run reaches is coherent.
-/

namespace BatchAuction

/-- The phase, and the records that are fixed by now. -/
@[ext]
structure Stage where
  /-- The phase. -/
  phase : Phase
  /-- The caps, once they are fixed. -/
  caps? : Option Caps
  /-- The commitment, once there is one. -/
  commitment? : Option Commitment
  /-- The payout totals, once there are any. -/
  totals? : Option PayoutTotals
deriving DecidableEq, Repr

namespace Stage

/-- Nothing is fixed. -/
def notStarted : Stage := ⟨.notStarted, none, none, none⟩

/-- Bids are accepted under some caps, and nothing has been paid. -/
def bidding (caps : Caps) : Stage := ⟨.bidding, some caps, none, some .zero⟩

/-- The clearing point is committed, and some payouts have been made. -/
def finalized (caps : Caps) (commitment : Commitment) (paid : PayoutTotals) : Stage :=
  ⟨.finalized, some caps, some commitment, some paid⟩

/-- Opens bidding under some caps, with nothing paid. -/
def start (s : Stage) (caps : Caps) : Stage :=
  { s with phase := .bidding, caps? := some caps, totals? := some .zero }

/-- Ends bidding with a commitment. -/
def commit (s : Stage) (commitment : Commitment) : Stage :=
  { s with phase := .finalized, commitment? := some commitment }

/-- Replaces the payout totals. -/
def pay (s : Stage) (paid : PayoutTotals) : Stage := { s with totals? := some paid }

/-- The payout totals, which are zero while there are none. -/
def paid (s : Stage) : PayoutTotals := s.totals?.getD .zero

@[simp] theorem start_notStarted (caps : Caps) : notStarted.start caps = bidding caps := rfl

@[simp] theorem commit_bidding (caps : Caps) (c : Commitment) :
    (bidding caps).commit c = finalized caps c .zero := rfl

@[simp] theorem pay_finalized (caps : Caps) (c : Commitment) (paid paid' : PayoutTotals) :
    (finalized caps c paid).pay paid' = finalized caps c paid' := rfl

@[simp] theorem paid_notStarted : notStarted.paid = .zero := rfl

@[simp] theorem paid_bidding (caps : Caps) : (bidding caps).paid = .zero := rfl

@[simp] theorem paid_finalized (caps : Caps) (c : Commitment) (paid : PayoutTotals) :
    (finalized caps c paid).paid = paid := rfl

/-- The phase and the records agree. -/
inductive Coherent : Stage → Prop
  /-- Before the start there is none of them. -/
  | notStarted : Coherent .notStarted
  /-- While bids are accepted there are the caps, and totals of zero. -/
  | bidding (caps : Caps) : Coherent (.bidding caps)
  /-- In the end there are all of them. -/
  | finalized (caps : Caps) (c : Commitment) (paid : PayoutTotals) :
      Coherent (.finalized caps c paid)

namespace Coherent

variable {s : Stage} {caps : Caps} {c : Commitment}

/-- The caps are there exactly after the start. -/
theorem caps?_isSome_iff (h : s.Coherent) : s.caps?.isSome ↔ s.phase ≠ .notStarted := by
  cases h <;> simp [Stage.notStarted, Stage.bidding, Stage.finalized]

/-- The payout totals are there exactly after the start. -/
theorem totals?_isSome_iff (h : s.Coherent) : s.totals?.isSome ↔ s.phase ≠ .notStarted := by
  cases h <;> simp [Stage.notStarted, Stage.bidding, Stage.finalized]

/-- The commitment is there exactly after the end of bidding. -/
theorem commitment?_isSome_iff (h : s.Coherent) :
    s.commitment?.isSome ↔ s.phase = .finalized := by
  cases h <;> simp [Stage.notStarted, Stage.bidding, Stage.finalized]

/-- Nothing is paid before the end of bidding. -/
theorem paid_of_none (h : s.Coherent) (hc : s.commitment? = none) : s.paid = .zero := by
  cases h with
  | finalized => cases hc
  | _ => rfl

/-- Before the start the stage has the first form. -/
theorem phase_eq_notStarted_iff (h : s.Coherent) : s.phase = .notStarted ↔ s = .notStarted := by
  cases h <;> simp [Stage.notStarted, Stage.bidding, Stage.finalized]

/-- While bids are accepted the stage has the second form. -/
theorem phase_eq_bidding_iff (h : s.Coherent) :
    s.phase = .bidding ↔ ∃ caps, s = .bidding caps := by
  cases h <;> simp [Stage.notStarted, Stage.bidding, Stage.finalized]

/-- After the end of bidding the stage has the third form. -/
theorem phase_eq_finalized_iff (h : s.Coherent) :
    s.phase = .finalized ↔ ∃ caps c paid, s = .finalized caps c paid := by
  cases h <;> simp [Stage.notStarted, Stage.bidding, Stage.finalized]

/-- Caps belong to one of the last two forms. -/
theorem caps?_eq_some_iff (h : s.Coherent) :
    s.caps? = some caps ↔ s = .bidding caps ∨ ∃ c paid, s = .finalized caps c paid := by
  cases h <;> simp [Stage.notStarted, Stage.bidding, Stage.finalized]

/-- A commitment belongs to the last form. -/
theorem commitment?_eq_some_iff (h : s.Coherent) :
    s.commitment? = some c ↔ ∃ caps paid, s = .finalized caps c paid := by
  cases h <;> simp [Stage.notStarted, Stage.bidding, Stage.finalized]

end Coherent

end Stage

/-- An auction over a ledger. -/
@[ext]
structure Auction (L : Type) where
  /-- The settings. -/
  config : Config
  /-- The phase and what is fixed by now. -/
  stage : Stage
  /-- All bids. -/
  book : Book
  /-- The ledger that holds the funds. -/
  ledger : L
  /-- The audit log. -/
  log : AuditLog
  /-- The time, as set by the caller. -/
  now : Timestamp
  /-- The base offered and the scarce demanded by all bids ever placed, refunded or not. -/
  intake : Totals

/-- What can be seen of the lifecycle at one moment. -/
@[ext]
structure Snapshot where
  /-- The phase. -/
  phase : Phase
  /-- The caps, once they are fixed. -/
  caps : Option Caps
  /-- The committed tick. -/
  clearingTick : Option Tick
  /-- Whether a cap binds at the committed tick. -/
  priceFound : Bool
deriving DecidableEq, Repr

namespace Auction

variable {L : Type}

/-- The auction that has not started, with the time at zero. -/
def create (config : Config) (ledger : L) : Auction L where
  config := config
  stage := .notStarted
  book := .empty
  ledger := ledger
  log := .empty
  now := .zero
  intake := .zero

/-- A new auction, if its configuration is valid. -/
def new (config : Config) (ledger : L) : Except ConfigError (Auction L) :=
  config.validate.map fun _ => create config ledger

/-- A new auction with the standard configuration. -/
def withLedger (ledger : L) : Auction L := create .standard ledger

/-- The phase. -/
def phase (a : Auction L) : Phase := a.stage.phase

/-- The caps, once they are fixed. -/
def caps? (a : Auction L) : Option Caps := a.stage.caps?

/-- The commitment, once there is one. -/
def commitment? (a : Auction L) : Option Commitment := a.stage.commitment?

/-- The payout totals, once there are any. -/
def totals? (a : Auction L) : Option PayoutTotals := a.stage.totals?

/-- The committed tick. -/
def clearingTick? (a : Auction L) : Option Tick := a.commitment?.map Commitment.tick

/-- The clearing point is committed. -/
def isFinalized (a : Auction L) : Bool := a.phase = .finalized

/-- The scarce handed out so far. -/
def scarceDistributed (a : Auction L) : Amount := a.stage.paid.scarceDistributed

/-- The base kept so far. -/
def baseRetained (a : Auction L) : Amount := a.stage.paid.baseRetained

/-- The lifecycle as seen from outside. -/
def snapshot (a : Auction L) : Snapshot :=
  ⟨a.phase, a.caps?, a.clearingTick?, (a.commitment?.map Commitment.priceFound).getD false⟩

/-- The base that the ledger holds in escrow. -/
def escrowBalance [AssetLedger L] (a : Auction L) : Amount :=
  AssetLedger.balance a.ledger a.config.escrow .base

/-- Sets the time. -/
def setTime (a : Auction L) (now : Timestamp) : Auction L := { a with now }

/-- Moves the time forward, or backward by a negative number; none if it leaves its range. -/
def advanceTime? (a : Auction L) (millis : Int) : Option (Auction L) :=
  (a.now.advance? millis).map a.setTime

/-- Adds an event to the audit log. -/
def emit (a : Auction L) (payload : EventPayload) : Auction L :=
  { a with log := a.log.emit a.config.maxEvents a.now payload }

/-- The refusal of an operation in the present phase. -/
def refuse (a : Auction L) (operation : Operation) (obstacle : Obstacle) : AuctionError :=
  .invalidState operation a.phase obstacle

/-- Refuses an operation in any phase but one. -/
def requirePhase (a : Auction L) (operation : Operation) (expected : Phase) (obstacle : Obstacle) :
    Except AuctionError Unit :=
  if a.phase = expected then .ok () else .error (a.refuse operation obstacle)

/-- A record that an operation needs; the operation is refused while there is none. -/
def require {α : Type} (a : Auction L) (record : Option α) (operation : Operation)
    (obstacle : Obstacle) : Except AuctionError α :=
  match record with
  | some x => .ok x
  | none => .error (a.refuse operation obstacle)

/-- The caps, for an operation that needs them. -/
def requireCaps (a : Auction L) (operation : Operation) : Except AuctionError Caps :=
  a.require a.caps? operation .notStarted

/-- The commitment, for an operation that needs it. -/
def requireCommitment (a : Auction L) (operation : Operation) : Except AuctionError Commitment :=
  a.require a.commitment? operation .notFinalized

/-- The payout totals, for an operation that needs them. -/
def requireTotals (a : Auction L) (operation : Operation) : Except AuctionError PayoutTotals :=
  a.require a.totals? operation .totalsMissing

section
variable {a : Auction L} {operation : Operation} {expected : Phase} {obstacle : Obstacle}
  {e : AuctionError}

/-- The phase is accepted exactly if it is the expected one. -/
theorem requirePhase_eq_ok_iff :
    a.requirePhase operation expected obstacle = .ok () ↔ a.phase = expected := by
  unfold requirePhase
  split <;> simp_all

/-- Any other phase is refused by its name. -/
theorem requirePhase_eq_error_iff :
    a.requirePhase operation expected obstacle = .error e ↔
      a.phase ≠ expected ∧ e = a.refuse operation obstacle := by
  unfold requirePhase
  split <;> simp_all [eq_comm]

variable {α : Type} {record : Option α}

/-- A record is accepted exactly if it is there. -/
theorem require_eq_ok_iff {x : α} :
    a.require record operation obstacle = .ok x ↔ record = some x := by
  cases record <;> simp [require]

/-- And its lack is refused. -/
theorem require_eq_error_iff :
    a.require record operation obstacle = .error e ↔
      record = none ∧ e = a.refuse operation obstacle := by
  cases record <;> simp [require, eq_comm]

end

end Auction

end BatchAuction
