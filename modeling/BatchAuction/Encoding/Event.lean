import BatchAuction.Audit.Event
import BatchAuction.Encoding.Clearing
import BatchAuction.Encoding.Payout
import BatchAuction.Json.DoubleRange

/-!
# The JSON form of events

The payload of an event is an object whose field `type` names the kind of event, or an array that
begins with that name. As the kind decides about the other fields and may come last, a payload
is read as a whole first. So, unlike elsewhere, also the parts of a payload that do not matter have
to make sense (`Json.isMeaningful`): no half of a surrogate pair stands alone, every number has a
finite double (`Json.literalInRange`), and no more than 127 containers are nested, counted from the
outermost one of the text.
-/

namespace BatchAuction

open Json (record fields required)

namespace Json

/-- Every string and number of a value has a meaning, and its containers are nested at most to the
given depth. -/
def isMeaningful : Nat → Json → Bool
  | _, .null => true
  | _, .bool _ => true
  | _, .number literal => literalInRange literal
  | _, .string raw => (unescape raw).isSome
  | 0, .array _ => false
  | 0, .object _ => false
  | depth + 1, .array items => items.all (isMeaningful depth)
  | depth + 1, .object members =>
    members.all fun member => (unescape member.1).isSome && isMeaningful depth member.2

/-- How deep the containers of a text may be nested where it is read as a whole. -/
def depthLimit : Nat := 127

end Json

namespace EventPayload

/-- The name of the kind. -/
def kind : EventPayload → String
  | .auctionStarted .. => "auction_started"
  | .bidSubmitted .. => "bid_submitted"
  | .losingBidRefunded .. => "losing_bid_refunded"
  | .auctionFinalized .. => "auction_finalized"
  | .bidSettled .. => "bid_settled"

/-- The fields without the kind. -/
def encodeFields : EventPayload → List (String × Json)
  | .auctionStarted caps => [("caps", encode caps)]
  | .bidSubmitted bid depositor amount =>
    [("bid", encode bid), ("depositor", encode depositor), ("amount", encode amount)]
  | .losingBidRefunded bid depositor amount clearingTick =>
    [("bid", encode bid), ("depositor", encode depositor), ("amount", encode amount),
     ("clearing_tick", encode clearingTick)]
  | .auctionFinalized clearingTick clearingPrice priceFound baseAbove scarceAbove =>
    [("clearing_tick", encode clearingTick), ("clearing_price", encode clearingPrice),
     ("price_found", encode priceFound), ("base_above", encode baseAbove),
     ("scarce_above", encode scarceAbove)]
  | .bidSettled bid withdrawFor amounts =>
    [("bid", encode bid), ("withdraw_for", encode withdrawFor), ("amounts", encode amounts)]

/-- Reads the fields of a kind from an object or array that holds them. -/
def decodeFields (kind : String) (j : Json) : Option EventPayload :=
  match kind with
  | "auction_started" => do
    match ← fields ["caps"] j with
    | [caps] => return .auctionStarted (← required caps)
    | _ => none
  | "bid_submitted" => do
    match ← fields ["bid", "depositor", "amount"] j with
    | [bid, depositor, amount] =>
      return .bidSubmitted (← required bid) (← required depositor) (← required amount)
    | _ => none
  | "losing_bid_refunded" => do
    match ← fields ["bid", "depositor", "amount", "clearing_tick"] j with
    | [bid, depositor, amount, clearingTick] =>
      return .losingBidRefunded (← required bid) (← required depositor) (← required amount)
        (← required clearingTick)
    | _ => none
  | "auction_finalized" => do
    match ← fields ["clearing_tick", "clearing_price", "price_found", "base_above",
        "scarce_above"] j with
    | [clearingTick, clearingPrice, priceFound, baseAbove, scarceAbove] =>
      return .auctionFinalized (← required clearingTick) (← required clearingPrice)
        (← required priceFound) (← required baseAbove) (← required scarceAbove)
    | _ => none
  | "bid_settled" => do
    match ← fields ["bid", "withdraw_for", "amounts"] j with
    | [bid, withdrawFor, amounts] =>
      return .bidSettled (← required bid) (← required withdrawFor) (← required amounts)
    | _ => none
  | _ => none

/-- The kind that a payload names, which has to be there once, and the value that holds the
fields. -/
def splitKind : Json → Option (String × Json)
  | .object members => do
    match ← Json.field? (← Json.namedMembers members) "type" with
    | some (.string raw) => return (← Json.unescape raw, .object members)
    | _ => none
  | .array (.string raw :: items) => do return (← Json.unescape raw, .array items)
  | _ => none

/-- Reads a payload whose containers may be nested to some depth. -/
def decodeWithin (depth : Nat) (j : Json) : Option EventPayload :=
  if j.isMeaningful depth then do
    let (kind, j) ← splitKind j
    decodeFields kind j
  else none

end EventPayload

instance : JsonCodec EventPayload where
  encode p := record (("type", Json.plain p.kind) :: p.encodeFields)
  decode := EventPayload.decodeWithin Json.depthLimit

instance : JsonCodec Event where
  encode e :=
    record
      [("id", encode e.id), ("timestamp", encode e.timestamp), ("payload", encode e.payload)]
  decode j := do
    match ← fields ["id", "timestamp", "payload"] j with
    | [id, timestamp, payload] =>
      return ⟨← required id, ← required timestamp,
        ← EventPayload.decodeWithin (Json.depthLimit - 1) (← payload)⟩
    | _ => none

end BatchAuction
