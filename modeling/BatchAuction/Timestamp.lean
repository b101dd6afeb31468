/-!
# Timestamps

A `Timestamp` is a signed 64-bit number of milliseconds. Time is set or advanced by the caller; an
advance that leaves the 64-bit range has no result.
-/

namespace BatchAuction

/-- A point in time in milliseconds. -/
@[ext]
structure Timestamp where
  /-- The milliseconds. -/
  millis : Int
  /-- They are not below the 64-bit range. -/
  le_millis : -0x8000000000000000 ≤ millis := by decide
  /-- They are not above the 64-bit range. -/
  millis_lt : millis < 0x8000000000000000 := by decide
deriving DecidableEq, Repr

namespace Timestamp

instance : ToString Timestamp := ⟨fun t => toString t.millis⟩

/-- The start of time. -/
def zero : Timestamp := ⟨0, by decide, by decide⟩

/-- The timestamp of a number of milliseconds, if it has 64 bits. -/
def ofInt? (i : Int) : Option Timestamp :=
  if h : -0x8000000000000000 ≤ i ∧ i < 0x8000000000000000 then some ⟨i, h.1, h.2⟩ else none

/-- The time some milliseconds later. -/
def advance? (t : Timestamp) (millis : Int) : Option Timestamp := ofInt? (t.millis + millis)

/-- Every timestamp is read back from its milliseconds. -/
@[simp] theorem ofInt?_millis (t : Timestamp) : ofInt? t.millis = some t := by
  unfold ofInt?
  rw [dif_pos ⟨t.le_millis, t.millis_lt⟩]

end Timestamp

end BatchAuction
