import BatchAuction.Book.Bid

/-!
# Buckets

A bucket holds the bids of one tick in the order in which they came. Bids are only added at the end
and never leave; the position of a bid is its index.
-/

namespace BatchAuction

/-- The bids at one tick, oldest first. -/
@[ext]
structure Bucket where
  /-- The bids. -/
  bids : List Bid
deriving DecidableEq, Repr

namespace Bucket

/-- The bucket without bids. -/
def empty : Bucket := ⟨[]⟩

/-- How many bids a bucket holds, closed ones included. -/
def size (b : Bucket) : Nat := b.bids.length

/-- A bucket without any bid. -/
def isEmpty (b : Bucket) : Bool := b.bids.isEmpty

/-- The bids that have not been closed. -/
def active (b : Bucket) : List Bid := b.bids.filter Bid.isActive

/-- Some bid has not been closed. -/
def hasActive (b : Bucket) : Bool := b.bids.any Bid.isActive

/-- The sum of the amounts of the active bids, modulo `2 ^ 256`. -/
def activeTotal (b : Bucket) : Amount := Bid.totalAmount b.active

/-- Adds a bid at the end. -/
def push (b : Bucket) (bid : Bid) : Bucket := ⟨b.bids ++ [bid]⟩

/-- The bid at a position. -/
def get? (b : Bucket) (index : Nat) : Option Bid := b.bids[index]?

/-- Closes the bid at a position. -/
def close (b : Bucket) (index : Nat) : Bucket := ⟨b.bids.modify index Bid.close⟩

/-! ## Lemmas -/

/-- Closing a bid leaves the number of bids as it is. -/
@[simp] theorem size_close (b : Bucket) (index : Nat) : (b.close index).size = b.size := by
  simp [close, size]

/-- Closing a position changes the bid at that position only. -/
theorem get?_close (b : Bucket) (i j : Nat) :
    (b.close i).get? j = if i = j then (b.get? j).map Bid.close else b.get? j := by
  simp only [close, get?, List.getElem?_modify]
  split <;> simp_all

/-- A bucket is live exactly if some bid in it is active. -/
theorem hasActive_iff {b : Bucket} : b.hasActive = true ↔ b.active ≠ [] := by
  simp [hasActive, active, List.filter_eq_nil_iff]

end Bucket

end BatchAuction
