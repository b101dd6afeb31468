import BatchAuction.Book.Basic
import BatchAuction.Encoding.Scalars

/-!
# JSON forms of bids and books

A book is written with its buckets keyed by tick, in ascending order. A key is read as an integer
literal without escapes; of several buckets for one tick the last one counts.
-/

namespace BatchAuction

open Json (record fields required)

instance : JsonCodec BidRef where
  encode r := record [("tick", encode r.tick), ("bid_index", encode r.index)]
  decode j := do
    match ← fields ["tick", "bid_index"] j with
    | [tick, index] => return ⟨← required tick, ← required index⟩
    | _ => none

instance : JsonCodec Bid where
  encode b :=
    record
      [("tick", encode b.tick), ("index", encode b.index), ("depositor", encode b.depositor),
       ("amount", encode b.amount), ("withdrawn", encode b.withdrawn),
       ("submitted_at", encode b.submittedAt)]
  decode j := do
    match ← fields ["tick", "index", "depositor", "amount", "withdrawn", "submitted_at"] j with
    | [tick, index, depositor, amount, withdrawn, submittedAt] =>
      return ⟨← required tick, ← required index, ← required depositor, ← required amount,
        ← required withdrawn, ← required submittedAt⟩
    | _ => none

instance : JsonCodec Bucket where
  encode b := record [("bids", encode b.bids)]
  decode j := do
    match ← fields ["bids"] j with
    | [bids] => return ⟨← required bids⟩
    | _ => none

/-- One bucket with its tick as the key. -/
def Book.decodeBucket (member : List Char × Json) : Option (Tick × Bucket) := do
  let tick ← Tick.ofInt? (← Json.integer? member.1)
  let bucket ← decode member.2
  return (tick, bucket)

instance : JsonCodec (SortedMap Tick Bucket) where
  encode m :=
    .object (m.entries.map fun entry => (Json.integerLiteral entry.1.index, encode entry.2))
  decode
    | .object members => (members.mapM Book.decodeBucket).map SortedMap.ofList
    | _ => none

instance : JsonCodec Book where
  encode b := record [("buckets", encode b.buckets), ("bid_count", encode b.size)]
  decode j := do
    match ← fields ["buckets", "bid_count"] j with
    | [buckets, size] => return ⟨← required buckets, ← required size⟩
    | _ => none

end BatchAuction
