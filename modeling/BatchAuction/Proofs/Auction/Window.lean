import BatchAuction.Proofs.Auction.History

/-!
# The log as a window on the history

The log retains as many events as its limit allows, and a history may be longer. `History` says what
is emitted; here we say what of it can be seen. A command that succeeds counts for one event, or for
one event per bid if it refunds or pays bids (`Command.eventCount`), and a command that is refused
counts for none. The numbers of a history follow on each other from one, over all commands, so the
number of the last event is the number of all. What the log retains, and what it answers when asked
for recent events, are ends of that history without a gap (`Auction.log_window`), whether the limit
is passed between two commands or in the middle of one.
-/

namespace BatchAuction

/-! ## The end of a list -/

section
variable {α : Type}

/-- The last entries are a suffix. -/
theorem takeLast_suffix (n : Nat) (l : List α) : takeLast n l <:+ l := List.drop_suffix _ l

/-- There are as many as are asked for, or all. -/
theorem length_takeLast (n : Nat) (l : List α) : (takeLast n l).length = min n l.length := by
  rw [takeLast, List.length_drop]
  omega

end

/-- The end of consecutive numbers is consecutive. -/
theorem takeLast_range' (n first count : Nat) :
    takeLast n (List.range' first count) =
      List.range' (first + (count - min n count)) (min n count) := by
  rw [takeLast, List.length_range', List.drop_range', Nat.mul_one]
  congr 1 <;> omega

/-- Taking the last entries and changing each of them can be done in either order. -/
theorem map_takeLast {α β : Type} (f : α → β) (n : Nat) (l : List α) :
    (takeLast n l).map f = takeLast n (l.map f) := by
  rw [takeLast, takeLast, List.map_drop, List.length_map]

/-! ## Numbers -/

/-- The numbers of the events of one moment follow on each other. -/
theorem Event.map_id_stamped (now : Timestamp) (payloads : List EventPayload) :
    ∀ first, (Event.stamped first now payloads).map Event.id =
      List.range' first payloads.length := by
  induction payloads with
  | nil => exact fun _ => rfl
  | cons payload payloads ih => exact fun first => congrArg (first :: ·) (ih (first + 1))

/-- The next number goes up by one for each event. -/
theorem AuditLog.nextId_emitAll (limit : Nat) (now : Timestamp) (payloads : List EventPayload) :
    ∀ log : AuditLog, (log.emitAll limit now payloads).nextId = log.nextId + payloads.length := by
  induction payloads with
  | nil => exact fun _ => rfl
  | cons payload payloads ih =>
    intro log
    refine (ih (log.emit limit now payload)).trans ?_
    show log.nextId + 1 + payloads.length = log.nextId + (payloads.length + 1)
    omega

/-! ## What commands count for -/

/-- How many events a command leaves, by its response: one if it opens the auction, places a bid or
commits the clearing point, one for each bid that it refunds or pays, and none otherwise. -/
def Command.eventCount : Command → Response → Nat
  | .start .., .done => 1
  | .submitBid .., .recorded _ => 1
  | .refundLosingBids _, .reported report => report.payouts.length
  | .finalize, .committed _ => 1
  | .settle .., .reported report => report.payouts.length
  | _, _ => 0

namespace Auction

variable {L : Type} {a : Auction L}

/-- A command announces as many events as its response says. -/
theorem length_announced (a : Auction L) (command : Command) (response : Response) :
    (a.announced command response).length = command.eventCount response := by
  cases command <;> cases response <;> simp [announced, Command.eventCount]

variable [AssetLedger L]

/-- How many events commands leave one after the other. -/
def eventCount (a : Auction L) (commands : List Command) : Nat :=
  ((commands.zip (a.run commands).1).map fun answered => answered.1.eventCount answered.2).sum

/-- The events of a run are those of its first command and those of the rest. -/
theorem eventCount_cons (a : Auction L) (command : Command) (commands : List Command) :
    a.eventCount (command :: commands) =
      command.eventCount (a.step command).1 + (a.step command).2.eventCount commands := rfl

/-- A history has the events that its commands count for. -/
theorem length_history (commands : List Command) :
    ∀ a : Auction L, (a.history commands).length = a.eventCount commands := by
  induction commands with
  | nil => exact fun _ => rfl
  | cons command commands ih =>
    intro a
    rw [history, List.length_append, Event.length_stamped, length_announced, ih, eventCount_cons]

/-- The history of two parts is the history of the one and then that of the other. -/
theorem history_append (commands more : List Command) :
    ∀ a : Auction L,
      a.history (commands ++ more) = a.history commands ++ (a.after commands).history more := by
  induction commands with
  | nil => exact fun _ => rfl
  | cons command commands ih =>
    intro a
    rw [List.cons_append, history, history, ih, List.append_assoc]
    rfl

/-- The next number goes up by the events of a command. -/
theorem Sound.nextId_step (h : a.Sound) (command : Command) :
    (a.step command).2.log.nextId =
      a.log.nextId + command.eventCount (a.step command).1 := by
  rw [h.log_step, AuditLog.nextId_emitAll, length_announced]

/-- The numbers of a history follow on each other, from the next one of the log. -/
theorem Sound.map_id_history {commands : List Command} (h : a.Sound) :
    (a.history commands).map Event.id =
      List.range' a.log.nextId (a.eventCount commands) := by
  induction commands generalizing a with
  | nil => rfl
  | cons command commands ih =>
    have hrest := ih (h.outcome (step_outcome h.coherent command))
    rw [h.nextId_step] at hrest
    rw [history, List.map_append, Event.map_id_stamped, length_announced, hrest,
      List.range'_append_1, eventCount_cons]

/-! ## The result -/

/-- The events that a run emits are numbered from one without a gap, and there is one for each
successful start, accepted bid and commitment and for each bid refunded or paid. A command stamps
its events with the time at which it finds the auction. The log is the end of all these events, as
many as its limit allows, and the recent events are the end of the log, as many as are asked for. -/
theorem log_window {config : Config} (hvalid : config.validate = .ok ()) (ledger : L)
    (commands : List Command) :
    let a := create config ledger
    let log := (a.after commands).log
    let n := a.eventCount commands
    (a.history commands).map Event.id = List.range' 1 n ∧
      (∀ before command more, commands = before ++ command :: more →
        a.history commands = a.history before ++
          Event.stamped (a.eventCount before + 1) (a.after before).now
            ((a.after before).announced command ((a.after before).step command).1) ++
          (a.after (before ++ [command])).history more) ∧
      log.events <:+ a.history commands ∧
      log.events.length = min n config.maxEvents ∧
      log.events.map Event.id =
        List.range' (n + 1 - log.events.length) log.events.length ∧
      ∀ k, log.recent k <:+ log.events ∧ (log.recent k).length = min k log.events.length := by
  intro a log n
  have hsound : a.Sound := sound_create hvalid ledger
  have hshows (before : List Command) : (a.after before).log.Shows config.maxEvents
      ([] ++ a.history before) := hsound.log_shows (AuditLog.shows_empty config.maxEvents)
  have hids : (a.history commands).map Event.id = List.range' 1 n := hsound.map_id_history
  have hevents : log.events = takeLast config.maxEvents (a.history commands) :=
    (hshows commands).events
  have hlength : log.events.length = min n config.maxEvents := by
    rw [hevents, length_takeLast, length_history, Nat.min_comm]
  refine ⟨hids, ?_, ?_, hlength, ?_, ?_⟩
  · intro before command more hsplit
    have hnext : (a.after before).log.nextId = a.eventCount before + 1 := by
      rw [(hshows before).nextId, List.nil_append, length_history]
    rw [hsplit, history_append, history, hnext, ← List.append_assoc, after_append]
    rfl
  · rw [hevents]
    exact takeLast_suffix _ _
  · rw [hlength, hevents, map_takeLast, hids, takeLast_range', Nat.min_comm]
    congr 1
    omega
  · intro k
    exact ⟨takeLast_suffix k _, length_takeLast k _⟩

/-- An account places three bids, a bid and a second commitment are refused, and the three bids are
paid by one command. -/
def burst : List Command :=
  [.start 100 100, .submitBid smallWinner smallHigh 20, .submitBid smallWinner smallHigh 30,
   .submitBid smallWinner .zero 40, .submitBid smallLoser .zero 0, .setTime { millis := 5 },
   .finalize, .finalize, .settle smallWinner [⟨smallHigh, 0⟩, ⟨smallHigh, 1⟩, ⟨.zero, 0⟩]]

/-- Settings with room for two events. -/
def twoShown : Config := { Config.standard with maxEvents := 2 }

/-- The three payments alone pass the limit. The log shows the last two of eight events, and asking
for five of them answers both. -/
theorem burst_log_window :
    (create twoShown smallLedger).eventCount burst = 8 ∧
      ((create twoShown smallLedger).history burst).map Event.id = [1, 2, 3, 4, 5, 6, 7, 8] ∧
      ((create twoShown smallLedger).after burst).log.events <:+
        (create twoShown smallLedger).history burst ∧
      ((create twoShown smallLedger).after burst).log.events.map Event.id = [7, 8] ∧
      (((create twoShown smallLedger).after burst).log.recent 5).length = 2 := by
  have hcount : (create twoShown smallLedger).eventCount burst = 8 := by decide +kernel
  have hvalid : twoShown.validate = .ok () := by decide
  obtain ⟨hids, -, hend, hlength, hlast, hrecent⟩ := log_window hvalid smallLedger burst
  have hfive := (hrecent 5).2
  rw [hcount] at hids hlength hlast
  rw [hlength] at hlast hfive
  exact ⟨hcount, hids, hend, hlast, hfive⟩

end Auction

end BatchAuction
