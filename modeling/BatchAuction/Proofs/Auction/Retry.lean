import BatchAuction.Proofs.Auction.LedgerFree
import BatchAuction.Proofs.Auction.Outcome
import BatchAuction.Proofs.Ledger.Rollback

/-!
# Batches that the ledger stops, and later attempts

A refund or a settlement that the ledger refuses changes nothing but the ledger
(`Auction.step_ledger_error`), whatever the ledger does when the moves are undone. Behind a refusing
policy the ledger is then rolled back (`GuardedLedger.RolledBack`). If all inverses were performed,
nothing is left of the attempt but the memory of the ledger, and this does not matter as soon as the
policy accepts moves: an auction with any number of such attempts behind it gives the same responses
from then on, and pays the same, as one without (`Auction.stopped_batches_undone`).
-/

namespace BatchAuction

namespace Auction

open AssetLedger (performAll)
open GuardedLedger (RolledBack)
open RefusalPolicy (Accepts)

/-! ## Calls that the ledger refuses -/

section
variable {L : Type} {a a' : Auction L} {e : LedgerError}

/-- The moves that a call asks for, if it gets that far. -/
def plannedMoves? (a : Auction L) : Command → Option (List Move)
  | .refundLosingBids refs =>
    (a.planRefunds refs).toOption.map fun plan => plan.2.flatMap (refundMoves a.config)
  | .settle owner refs =>
    (a.planSettlement owner refs).toOption.map fun plan =>
      plan.1.payouts.flatMap (settlementMoves a.config owner)
  | _ => none

variable {note : PayoutReport → Payout → Except AuctionError PayoutReport}
  {event : Payout → EventPayload}

/-- Closing bids is never refused by the ledger. -/
theorem closeBids_own (hnote : ∀ report p e, note report p = .error e → e.Own)
    {payouts : List Payout} {e : AuctionError} :
    ∀ {a : Auction L} {report : PayoutReport},
      closeBids note event a report payouts = (.error e, a') → e.Own := by
  induction payouts with
  | nil =>
    intro a report h
    cases h
  | cons p payouts ih =>
    intro a report h
    unfold closeBids at h
    split at h
    · cases h
      exact (AuctionError.plain_ofBook _).own
    · split at h
      · rename_i hp
        cases h
        exact hnote _ _ _ hp
      · exact ih h

variable [AssetLedger L]

/-- If the ledger refuses a batch, nothing but the ledger has changed. -/
theorem execute_ledger_error (hnote : ∀ report p e, note report p = .error e → e.Own)
    {moves : List Move} {report : PayoutReport} {payouts : List Payout}
    (h : a.execute moves note event report payouts = (.error (.ledger e), a')) :
    ∃ ledger, performAll a.ledger moves = (.error e, ledger) ∧ a' = { a with ledger } := by
  unfold execute at h
  split at h
  · rename_i ledger hperform
    cases h
    exact ⟨ledger, hperform, rfl⟩
  · have hown : (AuctionError.ledger e).Own := closeBids_own hnote h
    cases hown

/-- A refund that the ledger refuses has come as far as its planned moves. -/
theorem refundLosingBids_ledger_error {refs : List BidRef}
    (h : a.refundLosingBids refs = (.error (.ledger e), a')) :
    ∃ moves ledger, a.plannedMoves? (.refundLosingBids refs) = some moves ∧
      performAll a.ledger moves = (.error e, ledger) ∧ a' = { a with ledger } := by
  unfold refundLosingBids at h
  split at h
  · rename_i hplan
    cases h
    cases planRefunds_error hplan
  · rename_i hplan
    obtain ⟨ledger, hperform, rfl⟩ :=
      execute_ledger_error (fun _ _ _ hnote => (addPayout_error hnote).own) h
    exact ⟨_, ledger, by rw [plannedMoves?, hplan]; rfl, hperform, rfl⟩

/-- And so has a settlement. -/
theorem settle_ledger_error {owner : Account} {refs : List BidRef}
    (h : a.settle owner refs = (.error (.ledger e), a')) :
    ∃ moves ledger, a.plannedMoves? (.settle owner refs) = some moves ∧
      performAll a.ledger moves = (.error e, ledger) ∧ a' = { a with ledger } := by
  unfold settle at h
  split at h
  · rename_i hplan
    cases h
    cases planSettlement_error hplan
  · rename_i hplan
    split at h
    · rename_i hexecute
      cases h
      obtain ⟨ledger, hperform, rfl⟩ :=
        execute_ledger_error (by intro _ _ _ hnote; cases hnote) hexecute
      exact ⟨_, ledger, by rw [plannedMoves?, hplan]; rfl, hperform, rfl⟩
    · cases h

/-- A refund or a settlement that the ledger refuses changes nothing but the ledger. -/
theorem step_ledger_error {command : Command} (hc : command.ClosesBids)
    (h : (a.step command).1 = .refused (.ledger e)) :
    ∃ moves ledger, a.plannedMoves? command = some moves ∧
      performAll a.ledger moves = (.error e, ledger) ∧ (a.step command).2 = { a with ledger } := by
  cases command with
  | refundLosingBids refs =>
    have herror := Response.error_of_refused h fun _ heq => nomatch heq
    exact refundLosingBids_ledger_error (Prod.ext herror rfl)
  | settle owner refs =>
    have herror := Response.error_of_refused h fun _ heq => nomatch heq
    exact settle_ledger_error (Prod.ext herror rfl)
  | _ => cases hc

end

/-! ## Attempts behind a refusing policy -/

variable {σ : Type} {a b : Auction (GuardedLedger σ)}

/-- The same auction with another state of the policy. -/
def withPolicy (a : Auction (GuardedLedger σ)) (policy : σ) : Auction (GuardedLedger σ) :=
  { a with ledger := a.ledger.withPolicy policy }

/-- Two auctions are the same but for what their ledgers remember: they hold the same, too. -/
structure SameFunds (a b : Auction (GuardedLedger σ)) : Prop where
  state : b = a.onLedger b.ledger
  balances : MemoryLedger.Same a.ledger.inner b.ledger.inner

/-- An auction has the funds that it has. -/
theorem SameFunds.refl (a : Auction (GuardedLedger σ)) : a.SameFunds a := ⟨rfl, .refl _⟩

/-- The funds do not depend on the policies. -/
theorem SameFunds.withPolicy (h : a.SameFunds b) (p q : σ) :
    (a.withPolicy p).SameFunds (b.withPolicy q) := by
  obtain ⟨hstate, hbalances⟩ := h
  refine ⟨?_, hbalances⟩
  rw [hstate]
  rfl

variable [RefusalPolicy σ]

/-- `b` has gone through the same as `a` and, in between, through attempts that the ledger stopped:
in each of them the only move that was refused is the one that stopped it. Policies may be replaced
at any time, and other calls are made while they accept. -/
inductive Interrupted : Auction (GuardedLedger σ) → Auction (GuardedLedger σ) → Prop
  | refl (a : Auction (GuardedLedger σ)) : Interrupted a a
  | stopped {a b : Auction (GuardedLedger σ)} {command : Command} {e : LedgerError} :
      Interrupted a b → command.ClosesBids → (b.step command).1 = .refused (.ledger e) →
      (b.step command).2.ledger.refusals = b.ledger.refusals + 1 →
      Interrupted a (b.step command).2
  | withPolicy {a b : Auction (GuardedLedger σ)} (p q : σ) :
      Interrupted a b → Interrupted (a.withPolicy p) (b.withPolicy q)
  | step {a b : Auction (GuardedLedger σ)} (command : Command) :
      Interrupted a b → Accepts a.ledger.policy → Accepts b.ledger.policy →
      Interrupted (a.step command).2 (b.step command).2

/-- A stopped attempt leaves the funds alone if the move that stopped it is the only one that was
refused. -/
theorem SameFunds.stopped {command : Command} {e : LedgerError} (h : a.SameFunds b)
    (hc : command.ClosesBids) (hr : (b.step command).1 = .refused (.ledger e))
    (hone : (b.step command).2.ledger.refusals = b.ledger.refusals + 1) :
    a.SameFunds (b.step command).2 := by
  obtain ⟨moves, ledger, -, hperform, hstep⟩ := step_ledger_error hc hr
  rw [hstep] at hone ⊢
  obtain ⟨before, m, undone, hrolled⟩ := GuardedLedger.performAll_rolledBack hperform
  have hsame := hrolled.same_of_refusals hone
  refine ⟨?_, fun x s => (h.balances x s).trans (hsame x s).symm⟩
  rw [h.state]
  rfl

/-- Behind accepting policies the same run gives the same responses and ends with the same funds. -/
theorem SameFunds.run (h : a.SameFunds b) (ha : Accepts a.ledger.policy)
    (hb : Accepts b.ledger.policy) (commands : List Command) :
    (b.run commands).1 = (a.run commands).1 ∧ (a.after commands).SameFunds (b.after commands) := by
  obtain ⟨responses, a', ledger, hrun, hrun', -, -, hsame⟩ :=
    run_alike GuardedLedger.bisimulation_accepts commands ⟨ha, hb, h.balances⟩
  rw [← h.state] at hrun'
  unfold after
  rw [hrun, hrun']
  exact ⟨rfl, rfl, hsame⟩

/-- Interruptions leave the funds as they are without them. -/
theorem Interrupted.sameFunds (h : Interrupted a b) : a.SameFunds b := by
  induction h with
  | refl a => exact .refl a
  | stopped _ hc hr hone ih => exact ih.stopped hc hr hone
  | withPolicy p q _ ih => exact ih.withPolicy p q
  | step command _ ha hb ih => exact (ih.run ha hb [command]).2

/-- Behind any refusing policy, a batch that is stopped is rolled back: its answer is the refusal of
the move that stopped it, every inverse is asked for once, last first, and every balance is off by
exactly the moves whose inverse was refused. A refund or a settlement that is stopped in this way
leaves everything but the ledger as it was. However many such attempts an auction has gone through,
if every inverse was performed, then from the moment that the policy accepts moves it gives the same
responses, and ends with the same books and balances, as without them. -/
theorem stopped_batches_undone (σ : Type) [RefusalPolicy σ] :
    (∀ (l l' : GuardedLedger σ) (moves : List Move) (e : LedgerError),
      performAll l moves = (.error e, l') →
      ∃ before m undone, RolledBack l moves e before m undone l' ∧
        ((∀ u ∈ undone, u.2 = true) → ∀ x s, l'.inner.balance x s = l.inner.balance x s)) ∧
    (∀ (a : Auction (GuardedLedger σ)) (command : Command) (e : LedgerError),
      command.ClosesBids → (a.step command).1 = .refused (.ledger e) →
      ∃ moves before m undone, a.plannedMoves? command = some moves ∧
        RolledBack a.ledger moves e before m undone (a.step command).2.ledger ∧
        { (a.step command).2 with ledger := a.ledger } = a) ∧
    ∀ (a b : Auction (GuardedLedger σ)), Interrupted a b →
      ∀ (p q : σ), Accepts p → Accepts q → ∀ commands,
        ((b.withPolicy q).run commands).1 = ((a.withPolicy p).run commands).1 ∧
          ((a.withPolicy p).after commands).SameFunds ((b.withPolicy q).after commands) := by
  refine ⟨fun l l' moves e h => ?_, fun a command e hc h => ?_, fun a b h p q hp hq commands => ?_⟩
  · obtain ⟨before, m, undone, hrolled⟩ := GuardedLedger.performAll_rolledBack h
    exact ⟨before, m, undone, hrolled, hrolled.same⟩
  · obtain ⟨moves, ledger, hmoves, hperform, hstep⟩ := step_ledger_error hc h
    obtain ⟨before, m, undone, hrolled⟩ := GuardedLedger.performAll_rolledBack hperform
    rw [hstep]
    exact ⟨moves, before, m, undone, hmoves, hrolled, rfl⟩
  · exact (h.sameFunds.withPolicy p q).run hp hq commands

/-! ## The small auction with a pause -/

/-- The first scarce to be handed out is refused. -/
def issuancePaused : RefusalRule :=
  ⟨.credit, none, some .scarce, 0, some 1, "scarce issuance paused", 0⟩

/-- No base is taken back from the proceeds. -/
def proceedsFrozen : RefusalRule :=
  ⟨.debit, some Config.standard.proceeds, some .base, 0, none, "account frozen", 0⟩

/-- Without rules every move is accepted. -/
theorem accepts_nil : Accepts ([] : List RefusalRule) := by
  intro moves m
  have hnil : RefusalPolicy.after ([] : List RefusalRule) moves = [] := by
    induction moves with
    | nil => rfl
    | cons m moves ih => exact ih
  rw [hnil]
  rfl

/-- The small auction after the commitment, over a ledger with some rules. -/
def smallRuled (rules : List RefusalRule) : Auction (GuardedLedger (List RefusalRule)) :=
  (create .standard ⟨smallLedger, rules, []⟩).after smallBidding

/-- The payment of the winner. -/
def smallPayment : Command := .settle smallWinner [⟨smallHigh, 0⟩]

/-- Its moves. -/
def smallPaymentMoves : List Move :=
  [.debit Config.standard.escrow .base 70, .credit Config.standard.proceeds .base 70,
    .credit smallWinner .scarce 70]

/-- The pause stops the payment of the winner at its last move. If the proceeds are frozen as well,
one of the inverses is refused, and the base stays there; otherwise the payment can be made again,
and it is as if it were made for the first time. -/
theorem small_stopped_batches_undone :
    (∃ before m undone l', RolledBack (smallRuled [issuancePaused, proceedsFrozen]).ledger
        smallPaymentMoves (.rejected "scarce issuance paused") before m undone l' ∧
        (Move.kept undone).length = 1) ∧
      { ((smallRuled [issuancePaused, proceedsFrozen]).step smallPayment).2 with
          ledger := (smallRuled [issuancePaused, proceedsFrozen]).ledger } =
        smallRuled [issuancePaused, proceedsFrozen] ∧
      ((((smallRuled [issuancePaused]).step smallPayment).2.withPolicy []).run [smallPayment]).1 =
        (((smallRuled [issuancePaused]).withPolicy []).run [smallPayment]).1 ∧
      ((((smallRuled [issuancePaused]).withPolicy []).run [smallPayment]).1.flatMap
        Response.payouts).map Payout.bid = [⟨smallHigh, 0⟩] := by
  obtain ⟨hbatch, hcall, hretry⟩ := stopped_batches_undone (List RefusalRule)
  have hstopped : (performAll (smallRuled [issuancePaused, proceedsFrozen]).ledger
      smallPaymentMoves).1 = .error (.rejected "scarce issuance paused") := by decide +kernel
  have hrefusals : (performAll (smallRuled [issuancePaused, proceedsFrozen]).ledger
      smallPaymentMoves).2.refusals = 2 := by decide +kernel
  obtain ⟨l', hperform, hrefused⟩ : ∃ l', performAll
      (smallRuled [issuancePaused, proceedsFrozen]).ledger smallPaymentMoves =
        (.error (.rejected "scarce issuance paused"), l') ∧ l'.refusals = 2 :=
    ⟨_, Prod.ext hstopped rfl, hrefusals⟩
  have hbefore : (smallRuled [issuancePaused, proceedsFrozen]).ledger.refusals = 0 := by
    decide +kernel
  obtain ⟨before, m, undone, hrolled, -⟩ := hbatch _ _ _ _ hperform
  have hkept := hrolled.refusals_eq
  rw [hrefused, hbefore] at hkept
  obtain ⟨-, -, -, -, -, -, hsame⟩ := hcall (smallRuled [issuancePaused, proceedsFrozen])
    smallPayment (.rejected "scarce issuance paused") trivial (by decide +kernel)
  have hinterrupted : Interrupted (smallRuled [issuancePaused])
      ((smallRuled [issuancePaused]).step smallPayment).2 :=
    .stopped (.refl _) trivial
      (show _ = Response.refused (.ledger (.rejected "scarce issuance paused")) by decide +kernel)
      (by decide +kernel)
  refine ⟨⟨before, m, undone, l', hrolled, by omega⟩, hsame, ?_, by decide +kernel⟩
  exact (hretry _ _ hinterrupted [] [] accepts_nil accepts_nil [smallPayment]).1

end Auction

end BatchAuction
