import BatchAuction.Encoding.Event
import BatchAuction.Proofs.Encoding.Maps

/-!
# Everything public is read back

The payload of an event is read in two steps. As a whole it has to make sense: its numbers have
doubles, and with the handle of a bid in it, it is nested two containers deep. Then its fields are
looked up next to the name of its kind (`EventPayload.decodeWithin_encode`). With events, every
public type is read back from its text (`public_types_read_back`).
-/

namespace BatchAuction

open JsonCodec (encode decode)
open Json (Lossless ReadBack FieldNames Plain record isMeaningful)

/-! ## Values that make sense -/

section
variable {depth : Nat}

namespace Json

/-- A number that a double can hold is meaningful at any depth. -/
theorem isMeaningful_number {literal : List Char} (h : literalInRange literal = true) :
    isMeaningful depth (.number literal) = true := by
  cases depth <;> exact h

/-- And so is a plain string. -/
theorem isMeaningful_string {raw : List Char} (h : Plain raw) :
    isMeaningful depth (.string raw) = true := by
  have hsome : (unescape raw).isSome = true := by rw [h.unescape]; rfl
  cases depth <;> exact hsome

/-- A record takes one more container than its fields. -/
theorem isMeaningful_record {members : List (String × Json)} (names : List String)
    (hnames : FieldNames names) (hm : members.map Prod.fst = names)
    (h : ∀ m ∈ members, isMeaningful depth m.2 = true) :
    isMeaningful (depth + 1) (record members) = true := by
  subst hm
  refine List.all_eq_true.2 fun n hn => ?_
  obtain ⟨m, hm, rfl⟩ := List.mem_map.1 hn
  rw [(hnames.2 m.1 (List.mem_map_of_mem hm)).unescape, h m hm]
  rfl

end Json

/-- And a natural number of 64 bits. -/
@[simp] theorem isMeaningful_nat {n : Nat} (h : n < 0x10000000000000000) :
    isMeaningful depth (encode n) = true :=
  Json.isMeaningful_number (Json.literalInRange_naturalLiteral h)

/-- And a truth value. -/
@[simp] theorem isMeaningful_bool (b : Bool) : isMeaningful depth (encode b) = true := by
  cases depth <;> rfl

/-- An account is meaningful at any depth. -/
@[simp] theorem Account.isMeaningful (a : Account) : isMeaningful depth (encode a) = true :=
  isMeaningful_nat a.number_lt

/-- And so is a tick. -/
@[simp] theorem Tick.isMeaningful (t : Tick) : isMeaningful depth (encode t) = true := by
  refine Json.isMeaningful_number (Json.literalInRange_integerLiteral ?_)
  have := t.le_index
  have := t.index_lt
  omega

/-- And an amount. -/
@[simp] theorem Amount.isMeaningful (a : Amount) : isMeaningful depth (encode a) = true :=
  Json.isMeaningful_string a.plain_hex

/-- And a price. -/
@[simp] theorem Price.isMeaningful (p : Price) : isMeaningful depth (encode p) = true :=
  p.raw.isMeaningful

/-- A handle is meaningful wherever one more level may be entered. -/
@[simp] theorem BidRef.isMeaningful {r : BidRef} (h : r.index < 0x10000000000000000) :
    isMeaningful (depth + 1) (encode r) = true := by
  refine Json.isMeaningful_record ["tick", "bid_index"] (by decide) rfl ?_
  simp [h]

/-- And so are the caps. -/
@[simp] theorem Caps.isMeaningful (c : Caps) : isMeaningful (depth + 1) (encode c) = true := by
  refine Json.isMeaningful_record ["base_cap", "scarce_cap"] (by decide) rfl ?_
  simp

/-- And the amounts of a payout. -/
@[simp] theorem BidAmounts.isMeaningful (x : BidAmounts) :
    isMeaningful (depth + 1) (encode x) = true := by
  refine Json.isMeaningful_record ["filled_scarce", "base_refund", "base_cost"] (by decide) rfl ?_
  simp

end

/-! ## Events -/

namespace EventPayload

/-- The bid that the event is about. -/
def bid? : EventPayload → Option BidRef
  | .auctionStarted _ => none
  | .bidSubmitted bid _ _ => some bid
  | .losingBidRefunded bid _ _ _ => some bid
  | .auctionFinalized _ _ _ _ _ => none
  | .bidSettled bid _ _ => some bid

/-- The names of the fields, with the kind. -/
def names : EventPayload → List String
  | .auctionStarted .. => ["type", "caps"]
  | .bidSubmitted .. => ["type", "bid", "depositor", "amount"]
  | .losingBidRefunded .. => ["type", "bid", "depositor", "amount", "clearing_tick"]
  | .auctionFinalized .. =>
    ["type", "clearing_tick", "clearing_price", "price_found", "base_above", "scarce_above"]
  | .bidSettled .. => ["type", "bid", "withdraw_for", "amounts"]

variable {p : EventPayload} {depth : Nat}

/-- The field names of an event are plain and differ. -/
theorem fieldNames (p : EventPayload) : FieldNames p.names := by
  cases p <;> dsimp only [names] <;> decide

/-- They are the names that are written. -/
theorem map_fst_fields (p : EventPayload) :
    (("type", Json.plain p.kind) :: p.encodeFields).map Prod.fst = p.names := by
  cases p <;> rfl

/-- The kind of an event is plain. -/
theorem plain_kind (p : EventPayload) : Plain p.kind.toList := by
  cases p <;> dsimp only [kind] <;> decide

/-- What is written for an event can be spelled. -/
theorem spelled_encode (h : ∀ bid ∈ p.bid?, bid.index < 0x10000000000000000) :
    (encode p).Spelled := by
  have hkind : (Json.plain p.kind).Spelled := Json.spelled_of_token rfl p.plain_kind.spelled
  have hfields : ∀ m ∈ p.encodeFields, m.2.Spelled := by
    cases p <;> simp_all [bid?, encodeFields]
  exact Json.spelled_record p.fieldNames p.map_fst_fields (List.forall_mem_cons.2 ⟨hkind, hfields⟩)

/-- A payload makes sense: the handle of its bid is the deepest container. -/
theorem isMeaningful_encode (h : ∀ bid ∈ p.bid?, bid.index < 0x10000000000000000) :
    isMeaningful (depth + 2) (encode p) = true := by
  have hkind : isMeaningful (depth + 1) (Json.plain p.kind) = true :=
    Json.isMeaningful_string p.plain_kind
  have hfields : ∀ m ∈ p.encodeFields, isMeaningful (depth + 1) m.2 = true := by
    cases p <;> simp_all [bid?, encodeFields]
  exact Json.isMeaningful_record _ p.fieldNames p.map_fst_fields
    (List.forall_mem_cons.2 ⟨hkind, hfields⟩)

/-- The name of the kind is found among the fields. -/
theorem splitKind_encode (p : EventPayload) : splitKind (encode p) = some (p.kind, encode p) := by
  have hnames : FieldNames ((("type", Json.plain p.kind) :: p.encodeFields).map Prod.fst) :=
    p.map_fst_fields ▸ p.fieldNames
  have hplain : ∀ m ∈ ("type", Json.plain p.kind) :: p.encodeFields, Plain m.1.toList :=
    fun m hm => hnames.2 m.1 (List.mem_map_of_mem hm)
  show (Json.namedMembers _).bind _ = _
  rw [Json.namedMembers_record hplain]
  show (Json.field? _ "type").bind _ = _
  rw [Json.field?_of_mem hnames.1 List.mem_cons_self]
  show (Json.unescape p.kind.toList).bind _ = _
  rw [Json.unescape_toList p.plain_kind]
  rfl

/-- The other fields are found next to the kind. -/
theorem fields_encode {names : List String} (h : p.encodeFields.map Prod.fst = names) :
    Json.fields names (encode p) = some (p.encodeFields.map fun m => some m.2) :=
  Json.fieldsFrom_record p.fieldNames p.map_fst_fields h (fun _ hm => List.mem_cons_of_mem _ hm) _

/-- The fields of an event are read back by its kind. -/
theorem decodeFields_encode (h : ∀ bid ∈ p.bid?, bid.index < 0x10000000000000000) :
    decodeFields p.kind (encode p) = some p := by
  cases p with
  | auctionStarted caps =>
    simp [decodeFields, kind, fields_encode, encodeFields]
  | bidSubmitted bid depositor amount =>
    have hbid := BidRef.lossless (h bid rfl)
    simp [decodeFields, kind, fields_encode, encodeFields, hbid]
  | losingBidRefunded bid depositor amount clearingTick =>
    have hbid := BidRef.lossless (h bid rfl)
    simp [decodeFields, kind, fields_encode, encodeFields, hbid]
  | auctionFinalized clearingTick clearingPrice priceFound baseAbove scarceAbove =>
    simp [decodeFields, kind, fields_encode, encodeFields]
  | bidSettled bid withdrawFor amounts =>
    have hbid := BidRef.lossless (h bid rfl)
    simp [decodeFields, kind, fields_encode, encodeFields, hbid]

/-- A payload is read wherever two more containers are allowed. -/
theorem decodeWithin_encode (h : ∀ bid ∈ p.bid?, bid.index < 0x10000000000000000) :
    decodeWithin (depth + 2) (encode p) = some p := by
  rw [decodeWithin, if_pos (isMeaningful_encode h), splitKind_encode]
  exact decodeFields_encode h

/-- Nothing of the payload of an event is lost. -/
theorem lossless (h : ∀ bid ∈ p.bid?, bid.index < 0x10000000000000000) : Lossless p :=
  ⟨spelled_encode h, decodeWithin_encode h⟩

end EventPayload

/-- Nothing of an event is lost. -/
theorem Event.lossless {e : Event} (hid : e.id < 0x10000000000000000)
    (hbid : ∀ bid ∈ e.payload.bid?, bid.index < 0x10000000000000000) : Lossless e := by
  have hpayload : EventPayload.decodeWithin (Json.depthLimit - 1) (encode e.payload) =
      some e.payload := EventPayload.decodeWithin_encode hbid
  refine .of_record ["id", "timestamp", "payload"] (by decide) rfl rfl ?_ fun hfields => ?_
  · simp [hid, EventPayload.spelled_encode hbid]
  · simp [decode, hfields, hid, hpayload]

/-! ## Configuration texts -/

/-- The text of a configuration is accepted if the configuration is valid, as that configuration. -/
theorem Config.ofText_textOf {c : Config} (h : c.maxEvents < 0x10000000000000000) :
    Config.ofText (Json.textOf c) = .ok c ↔ c.validate = .ok () := by
  have hread : Json.read (Json.textOf c) = some c := (Config.lossless h).readBack
  simp only [Config.ofText, hread]
  cases c.validate with
  | error e => simp
  | ok _ => simp

/-! ## All types -/

/-- Every value of every public type is read back from its text. Counts are natural numbers of 64
bits. The text of a ledger may list its accounts and assets in any order. -/
structure PublicTypesReadBack : Prop where
  account : ∀ a : Account, ReadBack a
  tick : ∀ t : Tick, ReadBack t
  price : ∀ p : Price, ReadBack p
  amount : ∀ a : Amount, ReadBack a
  timestamp : ∀ t : Timestamp, ReadBack t
  eventId : ∀ id : Nat, id < 0x10000000000000000 → ReadBack id
  asset : ∀ a : Asset, ReadBack a
  phase : ∀ p : Phase, ReadBack p
  bidRef : ∀ r : BidRef, r.index < 0x10000000000000000 → ReadBack r
  bid : ∀ b : Bid, b.index < 0x10000000000000000 → ReadBack b
  bucket : ∀ b : Bucket, (∀ bid ∈ b.bids, bid.index < 0x10000000000000000) → ReadBack b
  book : ∀ b : Book, b.Counted → ReadBack b
  caps : ∀ c : Caps, ReadBack c
  clearingResult : ∀ r : ClearingResult, ReadBack r
  totals : ∀ t : Totals, ReadBack t
  fillRatio : ∀ r : FillRatio, ReadBack r
  surplus : ∀ s : Surplus, ReadBack s
  commitment : ∀ c : Commitment, ReadBack c
  bidAmounts : ∀ x : BidAmounts, ReadBack x
  payoutTotals : ∀ t : PayoutTotals, ReadBack t
  payout : ∀ p : Payout, p.bid.index < 0x10000000000000000 → ReadBack p
  payoutReport : ∀ r : PayoutReport,
    (∀ p ∈ r.payouts, p.bid.index < 0x10000000000000000) → ReadBack r
  snapshot : ∀ s : Snapshot, ReadBack s
  config : ∀ c : Config, c.maxEvents < 0x10000000000000000 → ReadBack c
  configText : ∀ c : Config, c.maxEvents < 0x10000000000000000 →
    (Config.ofText (Json.textOf c) = .ok c ↔ c.validate = .ok ())
  ledger : ∀ l : MemoryLedger, ReadBack l
  ledgerInAnyOrder : ∀ (l : MemoryLedger) (j : Json), l.Writes j → Json.read j.render = some l
  payload : ∀ p : EventPayload, (∀ bid ∈ p.bid?, bid.index < 0x10000000000000000) → ReadBack p
  event : ∀ e : Event, e.id < 0x10000000000000000 →
    (∀ bid ∈ e.payload.bid?, bid.index < 0x10000000000000000) → ReadBack e

/-- Every value of every public type is read back, and a configuration exactly if it is valid. -/
theorem public_types_read_back : PublicTypesReadBack where
  account a := a.lossless.readBack
  tick t := t.lossless.readBack
  price p := p.lossless.readBack
  amount a := a.lossless.readBack
  timestamp t := t.lossless.readBack
  eventId _ h := (lossless_nat h).readBack
  asset a := a.lossless.readBack
  phase p := p.lossless.readBack
  bidRef _ h := (BidRef.lossless h).readBack
  bid _ h := (Bid.lossless h).readBack
  bucket _ h := (Bucket.lossless h).readBack
  book _ h := (Book.lossless h).readBack
  caps c := c.lossless.readBack
  clearingResult r := r.lossless.readBack
  totals t := t.lossless.readBack
  fillRatio r := r.lossless.readBack
  surplus s := s.lossless.readBack
  commitment c := c.lossless.readBack
  bidAmounts x := x.lossless.readBack
  payoutTotals t := t.lossless.readBack
  payout _ h := (Payout.lossless h).readBack
  payoutReport _ h := (PayoutReport.lossless h).readBack
  snapshot s := s.lossless.readBack
  config _ h := (Config.lossless h).readBack
  configText _ h := Config.ofText_textOf h
  ledger l := l.lossless.readBack
  ledgerInAnyOrder l j h := by
    rw [Json.read, Json.parse_render h.spelled]
    exact h.decoded
  payload _ h := (EventPayload.lossless h).readBack
  event _ hid hbid := (Event.lossless hid hbid).readBack

/-- The extreme numbers are read back: in the handle of a bid, in a book with one bid, in a refund
event, and in a configuration. -/
theorem extreme_values_read_back :
    ReadBack (⟨⟨-0x80000000, by decide, by decide⟩, 0xFFFFFFFFFFFFFFFF⟩ : BidRef) ∧
    ReadBack (Book.empty.record ⟨0x7FFFFFFF, by decide, by decide⟩
      ⟨0xFFFFFFFFFFFFFFFF, by decide⟩ Amount.max ⟨-0x8000000000000000, by decide, by decide⟩).2 ∧
    ReadBack (⟨0xFFFFFFFFFFFFFFFF, ⟨0x7FFFFFFFFFFFFFFF, by decide, by decide⟩,
      .losingBidRefunded ⟨⟨-0x80000000, by decide, by decide⟩, 0xFFFFFFFFFFFFFFFF⟩
        ⟨0, by decide⟩ Amount.max ⟨0x7FFFFFFF, by decide, by decide⟩⟩ : Event) ∧
    Config.ofText (Json.textOf { Config.standard with maxEvents := 0xFFFFFFFFFFFFFFFF }) =
      .ok { Config.standard with maxEvents := 0xFFFFFFFFFFFFFFFF } := by
  refine ⟨public_types_read_back.bidRef _ (by decide), public_types_read_back.book _ ?_,
    public_types_read_back.event _ (by decide) ?_,
    (public_types_read_back.configText _ (by decide)).2 (by decide)⟩
  · exact ⟨by decide, by decide⟩
  · intro bid hbid
    cases hbid
    decide

end BatchAuction
