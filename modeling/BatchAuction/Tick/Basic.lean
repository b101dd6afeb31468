/-!
# Ticks

A tick is a position on the price ladder: the price of tick `t` is `1.0001 ^ t`. Any signed 32-bit
index is a tick, and a book accepts all of them; the *legal* ones, from `Tick.lowest` to
`Tick.highest`, are those that have a price.
-/

namespace BatchAuction

/-- A signed 32-bit index into the price ladder. -/
@[ext]
structure Tick where
  /-- The index. -/
  index : Int
  /-- It is not below the 32-bit range. -/
  le_index : -0x80000000 ≤ index := by decide
  /-- It is not above the 32-bit range. -/
  index_lt : index < 0x80000000 := by decide
deriving DecidableEq, Repr

/-- Why a tick has no price or a price no tick. -/
inductive TickError
  /-- The tick is not a legal one. -/
  | outOfRange (tick : Tick)
  /-- The price is zero. -/
  | nonPositivePrice
deriving DecidableEq, Repr

namespace Tick

instance : LE Tick := ⟨fun s t => s.index ≤ t.index⟩

instance : LT Tick := ⟨fun s t => s.index < t.index⟩

instance (s t : Tick) : Decidable (s ≤ t) := inferInstanceAs (Decidable (s.index ≤ t.index))

instance (s t : Tick) : Decidable (s < t) := inferInstanceAs (Decidable (s.index < t.index))

/-- Ticks are written as their index. -/
instance : ToString Tick := ⟨fun t => toString t.index⟩

/-- The tick of an index, if it has 32 bits. -/
def ofInt? (i : Int) : Option Tick :=
  if h : -0x80000000 ≤ i ∧ i < 0x80000000 then some ⟨i, h.1, h.2⟩ else none

/-- The tick whose index is nearest to a number. -/
def clamp (i : Int) : Tick :=
  if low : i < -0x80000000 then ⟨-0x80000000, by decide, by decide⟩
  else if high : 0x80000000 ≤ i then ⟨0x7fffffff, by decide, by decide⟩
  else ⟨i, Int.not_lt.mp low, Int.not_le.mp high⟩

/-- The tick of price one. -/
def zero : Tick := ⟨0, by decide, by decide⟩

/-- The highest legal tick, `2 ^ 19`. -/
def highest : Tick := ⟨524288, by decide, by decide⟩

/-- The lowest legal tick: below it two neighbours may round to one price. -/
def lowest : Tick := ⟨-322517, by decide, by decide⟩

/-- A tick that has a price. -/
def Legal (t : Tick) : Prop := lowest ≤ t ∧ t ≤ highest

instance (t : Tick) : Decidable t.Legal := inferInstanceAs (Decidable (_ ∧ _))

/-- Refuses a tick that is not legal. -/
def check (t : Tick) : Except TickError Unit :=
  if t.Legal then .ok () else .error (.outOfRange t)

/-! ## Lemmas -/

/-- Ticks are compared by their indices. -/
theorem le_iff {s t : Tick} : s ≤ t ↔ s.index ≤ t.index := Iff.rfl

/-- And so are they strictly. -/
theorem lt_iff {s t : Tick} : s < t ↔ s.index < t.index := Iff.rfl

/-- No tick is below itself. -/
theorem lt_irrefl (t : Tick) : ¬ t < t := Int.lt_irrefl t.index

/-- Of two ticks at most one is below the other. -/
theorem not_lt_of_lt {s t : Tick} (h : s < t) : ¬ t < s := Int.not_lt.2 (Int.le_of_lt h)

/-- Every tick is read back from its index. -/
@[simp] theorem ofInt?_index (t : Tick) : ofInt? t.index = some t := by
  unfold ofInt?
  rw [dif_pos ⟨t.le_index, t.index_lt⟩]

/-- Clamping leaves the index of a tick alone. -/
@[simp] theorem clamp_index (t : Tick) : clamp t.index = t := by
  unfold clamp
  rw [dif_neg (Int.not_lt.mpr t.le_index), dif_neg (Int.not_le.mpr t.index_lt)]

/-- A tick passes the check exactly if it is legal. -/
theorem check_eq_ok_iff {t : Tick} : t.check = .ok () ↔ t.Legal := by
  unfold check
  split <;> simp_all

end Tick

/-- The wording of a tick error. -/
def TickError.message : TickError → String
  | .outOfRange tick => s!"tick {tick} outside [{Tick.lowest}, {Tick.highest}]"
  | .nonPositivePrice => "price must be positive"

end BatchAuction
