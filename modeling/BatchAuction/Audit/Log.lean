import BatchAuction.Audit.Event

/-!
# The audit log

`AuditLog` numbers events and retains the most recent ones. The limit is given with each event, and
older events are dropped as soon as more are retained than it allows.
-/

namespace BatchAuction

/-- The last `count` entries of a list. -/
def takeLast {α : Type} (count : Nat) (l : List α) : List α := l.drop (l.length - count)

/-- A window on the sequence of events. -/
@[ext]
structure AuditLog where
  /-- The retained events, oldest first. -/
  events : List Event
  /-- The number of the next event. -/
  nextId : Nat
deriving DecidableEq, Repr

namespace AuditLog

/-- No event has happened. -/
def empty : AuditLog := ⟨[], 1⟩

/-- Adds an event and drops the oldest ones beyond the limit. -/
def emit (log : AuditLog) (limit : Nat) (now : Timestamp) (payload : EventPayload) : AuditLog :=
  ⟨takeLast limit (log.events ++ [⟨log.nextId, now, payload⟩]), log.nextId + 1⟩

/-- The last events that are retained, `count` of them or all. -/
def recent (log : AuditLog) (count : Nat) : List Event := takeLast count log.events

end AuditLog

end BatchAuction
