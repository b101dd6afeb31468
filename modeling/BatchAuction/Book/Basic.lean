import BatchAuction.Book.Bucket
import BatchAuction.SortedMap

/-!
# The bid book

`Book` keeps every bid ever recorded, in buckets sorted by tick. A bid changes only once, when it is
closed. The views list bids in the order of tick and position (`Book.bids`), split them at a tick
(`Book.bidsAtOrAbove`, `Book.bidsBelow`), or run through the buckets that still matter from the
highest tick down (`Book.activeDescending`).
-/

namespace BatchAuction

/-- Ticks are ranked by their index. -/
instance : Ranked Tick where
  rank := Tick.index
  eq_of_rank_eq := Tick.ext

/-- All bids of an auction, by tick. -/
@[ext]
structure Book where
  /-- The bids at each tick that has ever had one. -/
  buckets : SortedMap Tick Bucket
  /-- How many bids have been recorded, as far as 64 bits can tell. -/
  size : Nat
deriving DecidableEq

/-- Why a bid cannot be closed. -/
inductive BookError
  /-- There is no such bid. -/
  | notFound (ref : BidRef)
  /-- It is closed already. -/
  | alreadyWithdrawn (ref : BidRef)
deriving DecidableEq, Repr

/-- The wording of a book error. -/
def BookError.message : BookError → String
  | .notFound ref => s!"{ref} not found"
  | .alreadyWithdrawn ref => s!"{ref} already withdrawn"

namespace Book

/-- The book without bids. -/
def empty : Book := ⟨.empty, 0⟩

/-- The bucket of a tick. -/
def bucket? (b : Book) (tick : Tick) : Option Bucket := b.buckets.get? tick

/-- The number of bids recorded at a tick, which is the position of the next one. -/
def nextIndex (b : Book) (tick : Tick) : Nat := ((b.bucket? tick).getD .empty).size

/-- The bid that recording these values at a tick would add. -/
def newBid (b : Book) (tick : Tick) (depositor : Account) (amount : Amount) (time : Timestamp) :
    Bid :=
  ⟨tick, b.nextIndex tick, depositor, amount, false, time⟩

/-- The largest count of bids. -/
def maxSize : Nat := 0xffffffffffffffff

/-- Adds an active bid at the end of the bucket of its tick; answers its handle and the new book.
Any tick and any amount will do. The count of the bids stops at `maxSize`. -/
def record (b : Book) (tick : Tick) (depositor : Account) (amount : Amount) (time : Timestamp) :
    BidRef × Book :=
  let bid := b.newBid tick depositor amount time
  (⟨tick, bid.index⟩,
    ⟨b.buckets.upsert tick fun bucket => (bucket.getD .empty).push bid,
      if b.size < maxSize then b.size + 1 else b.size⟩)

/-- Adds a bid, but answers no handle for one that cannot be counted: the book holds it all the
same. -/
def record? (b : Book) (tick : Tick) (depositor : Account) (amount : Amount) (time : Timestamp) :
    Option BidRef × Book :=
  let recorded := b.record tick depositor amount time
  (if b.size < maxSize then some recorded.1 else none, recorded.2)

/-- The bid of a handle. -/
def get? (b : Book) (ref : BidRef) : Option Bid :=
  (b.bucket? ref.tick).bind fun bucket => bucket.get? ref.index

/-- Closes the bid of a handle, if there is one. -/
def close (b : Book) (ref : BidRef) : Book :=
  match b.bucket? ref.tick with
  | none => b
  | some bucket => { b with buckets := b.buckets.insert ref.tick (bucket.close ref.index) }

/-- Closes an active bid; answers the closed bid and the new book. -/
def withdraw (b : Book) (ref : BidRef) : Except BookError (Bid × Book) :=
  match b.get? ref with
  | none => .error (.notFound ref)
  | some bid =>
    if bid.withdrawn then .error (.alreadyWithdrawn ref) else .ok (bid.close, b.close ref)

/-! ## Views -/

/-- The buckets with an active bid, from the highest tick down. -/
def activeDescending (b : Book) : List (Tick × Bucket) :=
  b.buckets.entries.reverse.filter fun entry => entry.2.hasActive

/-- The ticks with an active bid, from the highest down. -/
def ticksDescending (b : Book) : List Tick := b.activeDescending.map Prod.fst

/-- The lowest tick with an active bid. -/
def lowestActiveTick? (b : Book) : Option Tick :=
  (b.buckets.entries.find? fun entry => entry.2.hasActive).map Prod.fst

/-- The bids of some buckets, bucket by bucket. -/
def bidsOf (entries : List (Tick × Bucket)) : List Bid :=
  entries.flatMap fun entry => entry.2.bids

/-- All bids in the order of tick and position. -/
def bids (b : Book) : List Bid := bidsOf b.buckets.entries

/-- The bids at a tick and above it. -/
def bidsAtOrAbove (b : Book) (tick : Tick) : List Bid :=
  bidsOf (b.buckets.entries.filter fun entry => decide (tick ≤ entry.1))

/-- The bids below a tick. -/
def bidsBelow (b : Book) (tick : Tick) : List Bid :=
  bidsOf (b.buckets.entries.filter fun entry => decide (entry.1 < tick))

/-- The bids that have not been closed, in the order of tick and position. -/
def activeBids (b : Book) : List Bid := b.bids.filter Bid.isActive

/-- The sum of the amounts of the active bids, modulo `2 ^ 256`. -/
def activeEscrow (b : Book) : Amount := Bid.totalAmount b.activeBids

/-- No bid has been recorded. -/
def isEmpty (b : Book) : Bool := b.size == 0

/-- Some bid has not been closed. -/
def hasActive (b : Book) : Bool := b.buckets.values.any Bucket.hasActive

end Book

end BatchAuction
