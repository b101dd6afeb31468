import BatchAuction.Proofs.Auction.Sound

/-!
# The history of an auction

A log shows the end of a history of events, as far back as its limit allows (`AuditLog.Shows`), and
as long as the history fits, it shows all of it. The history of an auction is put together from the
events that its commands announce: a command that is done announces what it has done, one event for
each bid that it refunds or pays, and a command that is refused announces nothing. In a run, the log
gets exactly these (`Auction.Sound.log_step`), stamped with the time of the command.
-/

namespace BatchAuction

/-! ## Logs and histories -/

/-- Some payloads as events of one moment, with numbers that follow on each other. -/
def Event.stamped (first : Nat) (now : Timestamp) : List EventPayload → List Event
  | [] => []
  | payload :: payloads => ⟨first, now, payload⟩ :: stamped (first + 1) now payloads

/-- There is one event for each payload. -/
theorem Event.length_stamped (now : Timestamp) (payloads : List EventPayload) :
    ∀ first, (Event.stamped first now payloads).length = payloads.length := by
  induction payloads with
  | nil => exact fun _ => rfl
  | cons payload payloads ih => exact fun first => congrArg (· + 1) (ih (first + 1))

/-- Dropping the oldest entries at once or little by little comes to the same. -/
theorem takeLast_append_takeLast {α : Type} (n : Nat) (l r : List α) :
    takeLast n (takeLast n l ++ r) = takeLast n (l ++ r) := by
  unfold takeLast
  by_cases h : l.length ≤ n
  · rw [Nat.sub_eq_zero_of_le h, List.drop_zero]
  · have hshort : (l.drop (l.length - n) ++ r).length - n = r.length := by
      rw [List.length_append, List.length_drop]
      omega
    have hlong : (l ++ r).length - n = (l.length - n) + r.length := by
      rw [List.length_append]
      omega
    rw [hshort, hlong, ← List.drop_drop,
      List.drop_append_of_le_length (Nat.sub_le l.length n)]

/-- A list that is short enough is kept as a whole. -/
theorem takeLast_eq_self {α : Type} {n : Nat} {l : List α} (h : l.length ≤ n) :
    takeLast n l = l := by
  rw [takeLast, Nat.sub_eq_zero_of_le h, List.drop_zero]

namespace AuditLog

variable {log : AuditLog} {limit : Nat} {history : List Event}

/-- Adds some events of one moment. -/
def emitAll (log : AuditLog) (limit : Nat) (now : Timestamp) (payloads : List EventPayload) :
    AuditLog :=
  payloads.foldl (fun log payload => log.emit limit now payload) log

/-- The log shows the end of a history, and its next number follows on that history. -/
structure Shows (log : AuditLog) (limit : Nat) (history : List Event) : Prop where
  events : log.events = takeLast limit history
  nextId : log.nextId = history.length + 1

/-- An empty log shows an empty history. -/
theorem shows_empty (limit : Nat) : empty.Shows limit [] :=
  ⟨(takeLast_eq_self (Nat.zero_le limit)).symm, rfl⟩

/-- An event that is added comes last in the history. -/
theorem Shows.emit (h : log.Shows limit history) (now : Timestamp) (payload : EventPayload) :
    (log.emit limit now payload).Shows limit (history ++ [⟨log.nextId, now, payload⟩]) := by
  constructor
  · rw [AuditLog.emit, h.events, takeLast_append_takeLast]
  · rw [AuditLog.emit, h.nextId, List.length_append]
    rfl

/-- Events that are added come last in the history. -/
theorem Shows.emitAll {now : Timestamp} {payloads : List EventPayload} :
    ∀ {log : AuditLog} {history : List Event}, log.Shows limit history →
      (log.emitAll limit now payloads).Shows limit
        (history ++ Event.stamped log.nextId now payloads) := by
  induction payloads with
  | nil =>
    intro log history h
    rw [Event.stamped, List.append_nil]
    exact h
  | cons payload payloads ih =>
    intro log history h
    have hrest := ih (h.emit now payload)
    rwa [List.append_assoc] at hrest

/-- What the log shows after that depends on what it showed before only. -/
theorem Shows.emitAll_eq (h : log.Shows limit history) (now : Timestamp)
    (payloads : List EventPayload) :
    log.emitAll limit now payloads =
      ⟨takeLast limit (log.events ++ Event.stamped log.nextId now payloads),
        log.nextId + payloads.length⟩ := by
  obtain ⟨hevents, hnext⟩ : (log.emitAll limit now payloads).Shows limit
    (history ++ Event.stamped log.nextId now payloads) := h.emitAll
  apply AuditLog.ext
  · rw [hevents, h.events, takeLast_append_takeLast]
  · show _ = log.nextId + payloads.length
    rw [hnext, h.nextId, List.length_append, Event.length_stamped]
    exact Nat.add_right_comm _ _ _

/-- A history that fits is shown as a whole. -/
theorem Shows.events_eq (h : log.Shows limit history) (hfits : log.nextId ≤ limit + 1) :
    log.events = history := by
  rw [h.nextId] at hfits
  rw [h.events, takeLast_eq_self (Nat.le_of_succ_le_succ hfits)]

end AuditLog

namespace Auction

open AssetLedger (performAll)

variable {L : Type} {a : Auction L}

/-! ## What a command announces -/

/-- The clearing tick that a refund announces. -/
def bindingTick (a : Auction L) : Tick :=
  match a.clearing with
  | .ok clearing => clearing.clearingTick.getD .zero
  | .error _ => .zero

/-- The event of a refund. -/
def refundEvent (tick : Tick) (p : Payout) : EventPayload :=
  .losingBidRefunded p.bid p.depositor p.amounts.baseRefund tick

/-- The event of a payment. -/
def settledEvent (owner : Account) (p : Payout) : EventPayload := .bidSettled p.bid owner p.amounts

/-- The events of a command with a response. -/
def announced (a : Auction L) : Command → Response → List EventPayload
  | .start base scarce, .done => [.auctionStarted ⟨base, scarce⟩]
  | .submitBid depositor _ amount, .recorded ref => [.bidSubmitted ref depositor amount]
  | .refundLosingBids _, .reported report => report.payouts.map (refundEvent a.bindingTick)
  | .finalize, .committed c => [finalizedEvent c]
  | .settle owner _, .reported report => report.payouts.map (settledEvent owner)
  | _, _ => []

/-- A refused command announces nothing. -/
theorem announced_refused (a : Auction L) (command : Command) (e : AuctionError) :
    a.announced command (.refused e) = [] := by
  cases command <;> rfl

/-- Closing bids changes the book and the log only, and leaves one event for each payout. -/
theorem closing_eq (event : Payout → EventPayload) (payouts : List Payout) :
    ∀ a : Auction L, a.closing event payouts =
      { a with
        book := a.book.closeAll (payouts.map Payout.bid)
        log := a.log.emitAll a.config.maxEvents a.now (payouts.map event) } := by
  induction payouts with
  | nil => exact fun _ => rfl
  | cons p payouts ih => exact fun _ => ih _

@[simp] theorem log_withPaid (a : Auction L) (paid : PayoutTotals) :
    (a.withPaid paid).log = a.log := rfl

/-- Accepted caps are the ones that were asked for. -/
theorem checkCaps_eq {base scarce : Amount} {caps : Caps} (h : checkCaps base scarce = .ok caps) :
    caps = ⟨base, scarce⟩ := by
  unfold checkCaps at h
  split at h
  · cases h
  · split at h
    · cases h
    · split at h
      · cases h
      · cases h
        rfl

variable [AssetLedger L]

/-- A refund that is planned depends on the ledger only. -/
theorem Sound.refund_planned {refs : List BidRef} {clearing : ClearingResult}
    {payouts : List Payout} (h : a.Sound) (hplan : a.planRefunds refs = .ok (clearing, payouts)) :
    (∃ report ledger, performAll a.ledger (payouts.flatMap a.payoutMoves) = (.ok (), ledger) ∧
        a.refundLosingBids refs = (.ok report,
          { a with ledger }.closing (refundEvent a.bindingTick) report.payouts)) ∨
      ∃ e ledger, performAll a.ledger (payouts.flatMap a.payoutMoves) = (.error e, ledger) ∧
        a.refundLosingBids refs = (.error (.ledger e), { a with ledger }) := by
  obtain ⟨caps, hstage, hclearing, hrefunds⟩ := planRefunds_ok h.coherent hplan
  have htick : a.bindingTick = clearing.clearingTick.getD .zero := by
    rw [bindingTick, clearing_eq_ok_iff.2 ⟨caps, caps?_of_bidding hstage, hclearing⟩]
  have hmoves : payouts.flatMap (refundMoves a.config) = payouts.flatMap a.payoutMoves := by
    congr 1
    funext p
    rw [payoutMoves, commitment?_of_bidding hstage]
  unfold refundLosingBids
  rw [hplan]
  simp only
  rcases execute_cases hmoves with ⟨ledger, hperform, hexec⟩ | ⟨e, ledger, hperform, hexec⟩
  · have hopens : { a with ledger }.book.Open Payout.bid payouts := hrefunds.draft.opens
    cases hcount : payouts.foldlM addPayout .empty with
    | ok report =>
      obtain rfl : report.payouts = payouts := foldlM_addPayout_ok hcount
      refine .inl ⟨report, ledger, hperform, ?_⟩
      rw [hexec, closeBids_ok _ hopens hcount, htick]
      rfl
    | error e => exact absurd hcount (h.not_uncounted hrefunds.draft)
  · rw [hexec]
    exact .inr ⟨e, ledger, hperform, rfl⟩

/-- A refund either leaves everything but the ledger as it was, or it closes the bids of its
payouts. -/
theorem Sound.refund_cases (h : a.Sound) (refs : List BidRef) :
    (∃ e ledger, a.refundLosingBids refs = (.error e, { a with ledger })) ∨
      ∃ report ledger, a.refundLosingBids refs = (.ok report,
        { a with ledger }.closing (refundEvent a.bindingTick) report.payouts) := by
  cases hplan : a.planRefunds refs with
  | error e => exact .inl ⟨e, a.ledger, refund_of_plan_error hplan⟩
  | ok plan =>
    rcases h.refund_planned hplan with ⟨report, ledger, -, hdone⟩ | ⟨e, ledger, -, hrefused⟩
    · exact .inr ⟨report, ledger, hdone⟩
    · exact .inl ⟨.ledger e, ledger, hrefused⟩

/-- A command adds to the log what it announces. -/
theorem Sound.log_step (h : a.Sound) (command : Command) :
    (a.step command).2.log =
      a.log.emitAll a.config.maxEvents a.now (a.announced command (a.step command).1) := by
  cases command with
  | start base scarce =>
    simp only [step, start]
    split
    · rw [Response.ofResult, announced_refused]
      rfl
    · rename_i caps hplan
      rw [checkCaps_eq (planStart_ok h.coherent hplan).2]
      rfl
  | submitBid depositor tick amount =>
    simp only [step, submitBid]
    split
    · rfl
    · split <;> rfl
  | refundLosingBids refs =>
    simp only [step]
    rcases h.refund_cases refs with ⟨e, ledger, heq⟩ | ⟨report, ledger, heq⟩
    · rw [heq]
      rfl
    · rw [heq, closing_eq]
      rfl
  | finalize =>
    simp only [step, finalize]
    split <;> rfl
  | settle owner refs =>
    simp only [step]
    cases hplan : a.planSettlement owner refs with
    | error e =>
      rw [settle_of_plan_error hplan]
      rfl
    | ok plan =>
      obtain ⟨report, paid'⟩ := plan
      rcases settle_cases h.coherent hplan with ⟨ledger, -, heq⟩ | ⟨e, ledger, -, heq⟩
      · rw [heq, log_withPaid, closing_eq]
        rfl
      · rw [heq]
        rfl
  | setTime now => rfl
  | advanceTime millis =>
    simp only [step]
    split
    · rename_i a' ha
      obtain ⟨now, -, rfl⟩ := Option.map_eq_some_iff.1 ha
      rfl
    · rfl

/-! ## What a run announces -/

/-- The events that commands announce one after the other, each at the time of its command. -/
def history (a : Auction L) : List Command → List Event
  | [] => []
  | command :: commands =>
    Event.stamped a.log.nextId a.now (a.announced command (a.step command).1) ++
      (a.step command).2.history commands

/-- The log shows the end of what has been announced. -/
theorem Sound.log_shows {commands : List Command} {before : List Event} (h : a.Sound)
    (hlog : a.log.Shows a.config.maxEvents before) :
    (a.after commands).log.Shows a.config.maxEvents (before ++ a.history commands) := by
  induction commands generalizing a before with
  | nil =>
    rw [history, List.append_nil]
    exact hlog
  | cons command commands ih =>
    have hstep : (a.log.emitAll a.config.maxEvents a.now
        (a.announced command (a.step command).1)).Shows a.config.maxEvents _ := hlog.emitAll
    have ho := step_outcome h.coherent command
    rw [← h.log_step, ← ho.config_eq] at hstep
    have hrest := ih (h.outcome ho) hstep
    rwa [List.append_assoc, ho.config_eq] at hrest

/-- In every state that is attained, the log shows the end of some history. -/
theorem Attained.exists_shows (h : a.Attained) :
    ∃ before, a.log.Shows a.config.maxEvents before := by
  induction h with
  | create ledger _ => exact ⟨[], AuditLog.shows_empty _⟩
  | @step a command h ih =>
    obtain ⟨before, hlog⟩ := ih
    refine ⟨before ++ Event.stamped a.log.nextId a.now
      (a.announced command (a.step command).1), ?_⟩
    rw [(step_outcome h.coherent command).config_eq, h.sound.log_step]
    exact hlog.emitAll
  | withLedger ledger _ ih => exact ih

end Auction

end BatchAuction
