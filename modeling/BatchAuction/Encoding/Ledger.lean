import BatchAuction.Encoding.Scalars
import BatchAuction.Ledger.Memory

/-!
# The JSON form of a ledger

Holdings list the assets that are known. Balances are keyed by account number, and their keys are
written in the order of their texts, so that `10` comes before `2`. Where a key is
repeated, the last one counts.
-/

namespace BatchAuction

open Json (record fields required)

namespace Holdings

/-- The holdings after one member of their JSON form. -/
def decodeMember (h : Holdings) (member : List Char × Json) : Option Holdings := do
  let asset ← (Json.unescape member.1).bind Asset.ofKey?
  let amount ← decode member.2
  return h.set asset amount

end Holdings

instance : JsonCodec Holdings where
  encode h :=
    record
      (((h.base.map fun amount => (Asset.base.key, encode amount)).toList) ++
        (h.scarce.map fun amount => (Asset.scarce.key, encode amount)).toList)
  decode
    | .object members => members.foldlM Holdings.decodeMember .empty
    | _ => none

namespace MemoryLedger

/-- The order of members by the text of their keys. -/
def keyLe (a b : List Char × Json) : Bool := !decide (b.1 < a.1)

/-- One account with its holdings. -/
def decodeAccount (member : List Char × Json) : Option (Account × Holdings) := do
  match ← Json.integer? member.1 with
  | .ofNat n => return (← Account.ofNat? n, ← decode member.2)
  | .negSucc _ => none

end MemoryLedger

instance : JsonCodec (SortedMap Account Holdings) where
  encode m :=
    .object
      ((m.entries.map fun entry =>
        (Json.naturalLiteral entry.1.number, encode entry.2)).mergeSort MemoryLedger.keyLe)
  decode
    | .object members => (members.mapM MemoryLedger.decodeAccount).map SortedMap.ofList
    | _ => none

instance : JsonCodec MemoryLedger where
  encode l :=
    record
      [("balances", encode l.balances), ("total_credited", encode l.totalCredited),
       ("total_debited", encode l.totalDebited)]
  decode j := do
    match ← fields ["balances", "total_credited", "total_debited"] j with
    | [balances, totalCredited, totalDebited] =>
      return ⟨← required balances, ← required totalCredited, ← required totalDebited⟩
    | _ => none

end BatchAuction
