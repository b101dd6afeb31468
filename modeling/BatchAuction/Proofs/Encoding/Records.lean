import BatchAuction.Encoding.Auction
import BatchAuction.Encoding.Payout
import BatchAuction.Proofs.Json.Literals

/-!
# Records are read back

A value survives writing and reading (`Json.Lossless`) if its JSON form is spelled and is decoded to
the value. For numbers and names this is a fact about literals. A record is looked up field by field
(`Json.fields_record`): its names are plain and differ from each other (`Json.FieldNames`), so each
name finds the value that was written for it, and a record survives if its fields do. Natural
numbers are read up to 64 bits, so this is asked of every count in a value.
-/

namespace BatchAuction

open JsonCodec (encode decode)

/-- A reader that gives every member back gives the list back. -/
theorem mapM_eq_some {α β : Type} {f : α → Option β} {g : α → β} {l : List α}
    (h : ∀ a ∈ l, f a = some (g a)) : l.mapM f = some (l.map g) := by
  induction l with
  | nil => rfl
  | cons a l ih =>
    rw [List.mapM_cons, h a List.mem_cons_self, ih fun b hb => h b (List.mem_cons_of_mem _ hb)]
    rfl

namespace Json

/-- A value is decoded from its JSON form, and the text of that form can be read. -/
structure Lossless {α : Type} [JsonCodec α] (a : α) : Prop where
  spelled : (encode a).Spelled
  decoded : decode (encode a) = some a

section
variable {α : Type} [JsonCodec α] {a : α}

/-- A value is read back from its text. -/
def ReadBack (a : α) : Prop := read (textOf a) = some a

/-- What is lossless is read back. -/
theorem Lossless.readBack (h : Lossless a) : ReadBack a := by
  rw [ReadBack, read, textOf, parse_render h.spelled]
  exact h.decoded

/-- What is lossless can be spelled. -/
@[simp] theorem spelled_encode (h : Lossless a) : (encode a).Spelled := h.spelled

/-- A lossless field that is required is read back. -/
@[simp] theorem required_encode (h : Lossless a) : required (some (encode a)) = some a := h.decoded

/-- And so is one that has a default. -/
@[simp] theorem withDefault_encode (h : Lossless a) (default : α) :
    withDefault default (some (encode a)) = some a := h.decoded

/-- An option survives if its value does, and that is not null. -/
structure LosslessOption (o : Option α) : Prop where
  value : ∀ a ∈ o, Lossless a
  ne_null : ∀ a ∈ o, encode a ≠ .null

/-- An optional value can be spelled. -/
@[simp] theorem spelled_ofOption {o : Option α} (h : LosslessOption o) : (ofOption o).Spelled := by
  cases o with
  | none => exact spelled_of_token rfl trivial
  | some a => exact (h.value a rfl).spelled

/-- And it is read back. -/
@[simp] theorem nullable_ofOption {o : Option α} (h : LosslessOption o) :
    nullable (some (ofOption o)) = some o := by
  cases o with
  | none => rfl
  | some a =>
    rw [ofOption, nullable]
    · rw [(h.value a rfl).decoded]
      rfl
    · exact h.ne_null a rfl

/-- A list survives if its items do. -/
@[simp] theorem lossless_list {l : List α} (h : ∀ a ∈ l, Lossless a) : Lossless l where
  spelled := spelled_array fun j hj => by
    obtain ⟨a, ha, rfl⟩ := List.mem_map.1 hj
    exact (h a ha).spelled
  decoded := by
    show (l.map encode).mapM decode = some l
    rw [List.mapM_map]
    exact (mapM_eq_some fun a ha => (h a ha).decoded).trans (congrArg some l.map_id)

end

/-! ## Looking up fields -/

/-- Names that can be told apart and need no escape. -/
def FieldNames (names : List String) : Prop :=
  names.Nodup ∧ ∀ name ∈ names, Plain name.toList

instance (names : List String) : Decidable (FieldNames names) :=
  inferInstanceAs (Decidable (_ ∧ _))

section
variable {members : List (String × Json)} {names : List String}

/-- The resolved members of a record are its fields. -/
theorem namedMembers_record (h : ∀ m ∈ members, Plain m.1.toList) :
    namedMembers (members.map fun m => (m.1.toList, m.2)) = some members := by
  rw [namedMembers, List.mapM_map, mapM_eq_some (g := id), List.map_id]
  intro m hm
  show (unescape m.1.toList).map _ = _
  rw [unescape_toList (h m hm)]
  rfl

/-- Among members with different names, each is found by its name. -/
theorem field?_of_mem {m : String × Json} (hnodup : (members.map Prod.fst).Nodup)
    (hm : m ∈ members) : field? members m.1 = some (some m.2) := by
  obtain ⟨l, r, rfl⟩ := List.append_of_mem hm
  rw [List.map_append, List.map_cons, List.nodup_append, List.nodup_cons] at hnodup
  obtain ⟨-, ⟨hr, -⟩, hl⟩ := hnodup
  have hleft : l.filter (fun n => n.1 = m.1) = [] := by
    refine List.filter_eq_nil_iff.2 fun n hn heq => ?_
    exact hl n.1 (List.mem_map_of_mem hn) m.1 List.mem_cons_self (of_decide_eq_true heq)
  have hright : r.filter (fun n => n.1 = m.1) = [] := by
    refine List.filter_eq_nil_iff.2 fun n hn heq => hr ?_
    exact of_decide_eq_true heq ▸ List.mem_map_of_mem hn
  have hfilter : (l ++ m :: r).filter (fun n => n.1 = m.1) = [m] := by
    rw [List.filter_append, List.filter_cons, if_pos (decide_eq_true rfl), hleft, hright,
      List.nil_append]
  rw [field?, hfilter]

/-- Whatever fields are asked for, they are found next to the others. -/
theorem fieldsFrom_record {wanted : List (String × Json)} {asked : List String}
    (hnames : FieldNames names) (hm : members.map Prod.fst = names)
    (hasked : wanted.map Prod.fst = asked) (hwanted : ∀ m ∈ wanted, m ∈ members) (atLeast : Nat) :
    fieldsFrom atLeast asked (record members) = some (wanted.map fun m => some m.2) := by
  subst hm hasked
  have hplain : ∀ m ∈ members, Plain m.1.toList := fun m hm =>
    hnames.2 m.1 (List.mem_map_of_mem hm)
  rw [record, fieldsFrom, namedMembers_record hplain]
  show (wanted.map Prod.fst).mapM (field? members) = _
  rw [List.mapM_map]
  exact mapM_eq_some fun m hm => field?_of_mem hnames.1 (hwanted m hm)

/-- The fields of a record are the values that were written. -/
theorem fields_record (hnames : FieldNames names) (hm : members.map Prod.fst = names) :
    fields names (record members) = some (members.map fun m => some m.2) :=
  fieldsFrom_record hnames hm hm (fun _ h => h) _

/-- A record is spelled if its fields are. -/
theorem spelled_record (hnames : FieldNames names) (hm : members.map Prod.fst = names)
    (h : ∀ m ∈ members, m.2.Spelled) : (record members).Spelled := by
  subst hm
  refine spelled_of_plain (List.forall_mem_map.2 fun m hm => ?_)
  exact ⟨hnames.2 m.1 (List.mem_map_of_mem hm), h m hm⟩

end

/-- A record survives if its fields are spelled, and it is read from the values of its fields. -/
theorem Lossless.of_record {α : Type} [JsonCodec α] {a : α} {members : List (String × Json)}
    (names : List String) (hnames : FieldNames names) (hencode : encode a = record members)
    (hm : members.map Prod.fst = names) (hspelled : ∀ m ∈ members, m.2.Spelled)
    (hdecode : fields names (encode a) = some (members.map fun m => some m.2) →
      decode (encode a) = some a) : Lossless a where
  spelled := hencode ▸ spelled_record hnames hm hspelled
  decoded := hdecode (hencode ▸ fields_record hnames hm)

end Json

open Json (Lossless LosslessOption FieldNames)

/-! ## Numbers and names -/

/-- Numbers of 64 bits are read back. -/
@[simp] theorem lossless_nat {n : Nat} (h : n < 0x10000000000000000) : Lossless n where
  spelled := Json.spelled_of_token rfl (Json.spelled_naturalLiteral n)
  decoded := by
    simp only [decode, encode, Json.literal?, Json.naturalLiteral, Option.bind_eq_bind,
      Option.bind_some, Json.integer?_toDigits]
    exact if_pos h

/-- Nothing of a truth value is lost. -/
@[simp] theorem lossless_bool (b : Bool) : Lossless b :=
  ⟨Json.spelled_of_token rfl trivial, rfl⟩

/-- Nothing of an account is lost. -/
@[simp] theorem Account.lossless (a : Account) : Lossless a where
  spelled := (lossless_nat a.number_lt).spelled
  decoded := by
    show (decode (encode a.number)).bind Account.ofNat? = some a
    rw [(lossless_nat a.number_lt).decoded]
    exact ofNat?_number a

/-- Nothing of a tick is lost. -/
@[simp] theorem Tick.lossless (t : Tick) : Lossless t where
  spelled := Json.spelled_of_token rfl (Json.spelled_integerLiteral t.index)
  decoded := by
    show (Json.integer? (Json.integerLiteral t.index)).bind ofInt? = some t
    rw [Json.integer?_integerLiteral]
    exact ofInt?_index t

/-- Nothing of a moment is lost. -/
@[simp] theorem Timestamp.lossless (t : Timestamp) : Lossless t where
  spelled := Json.spelled_of_token rfl (Json.spelled_integerLiteral t.millis)
  decoded := by
    show (Json.integer? (Json.integerLiteral t.millis)).bind ofInt? = some t
    rw [Json.integer?_integerLiteral]
    exact ofInt?_millis t

/-- Nothing of an amount is lost. -/
@[simp] theorem Amount.lossless (a : Amount) : Lossless a where
  spelled := Json.spelled_of_token rfl a.plain_hex.spelled
  decoded := by
    show (Json.unescape a.hex).bind (fun s => ofText? s.toList) = some a
    rw [a.plain_hex.unescape]
    show ofText? (String.ofList a.hex).toList = some a
    rw [String.toList_ofList, ofText?_hex]

/-- Nothing of a price is lost. -/
@[simp] theorem Price.lossless (p : Price) : Lossless p where
  spelled := p.raw.lossless.spelled
  decoded := by
    show (decode (encode p.raw)).map Price.mk = some p
    rw [p.raw.lossless.decoded]
    rfl

/-- The key of an asset is plain. -/
theorem Asset.plain_key (s : Asset) : Json.Plain s.key.toList := by cases s <;> decide

/-- And it names the asset. -/
theorem Asset.ofKey?_key (s : Asset) : ofKey? s.key = some s := by cases s <;> decide

/-- Nothing of an asset is lost. -/
@[simp] theorem Asset.lossless (s : Asset) : Lossless s where
  spelled := Json.spelled_of_token rfl s.plain_key.spelled
  decoded := by
    show (Json.unescape s.key.toList).bind ofKey? = some s
    rw [Json.unescape_toList s.plain_key]
    exact s.ofKey?_key

/-- The name of a phase is plain. -/
theorem Phase.plain_name (p : Phase) : Json.Plain p.name.toList := by cases p <;> decide

/-- Nothing of a phase is lost. -/
@[simp] theorem Phase.lossless (p : Phase) : Lossless p where
  spelled := Json.spelled_of_token rfl p.plain_name.spelled
  decoded := by
    show (Json.unescape p.name.toList).bind ofName? = some p
    rw [Json.unescape_toList p.plain_name]
    cases p <;> decide

/-! ## Records -/

/-- Nothing of an optional tick is lost. -/
@[simp] theorem Tick.losslessOption (o : Option Tick) : LosslessOption o :=
  ⟨fun t _ => t.lossless, fun _ _ => nofun⟩

/-- Nothing of a handle is lost. -/
@[simp] theorem BidRef.lossless {r : BidRef} (h : r.index < 0x10000000000000000) : Lossless r := by
  refine .of_record ["tick", "bid_index"] (by decide) rfl rfl ?_ fun hfields => ?_
  · simp [h]
  · simp [decode, hfields, h]

/-- Nothing of a bid is lost. -/
@[simp] theorem Bid.lossless {b : Bid} (h : b.index < 0x10000000000000000) : Lossless b := by
  refine .of_record ["tick", "index", "depositor", "amount", "withdrawn", "submitted_at"]
    (by decide) rfl rfl ?_ fun hfields => ?_
  · simp [h]
  · simp [decode, hfields, h]

/-- Nothing of a bucket is lost. -/
@[simp] theorem Bucket.lossless {b : Bucket} (h : ∀ bid ∈ b.bids, bid.index < 0x10000000000000000) :
    Lossless b := by
  have hbids : Lossless b.bids := Json.lossless_list fun bid hb => Bid.lossless (h bid hb)
  refine .of_record ["bids"] (by decide) rfl rfl ?_ fun hfields => ?_
  · simp [hbids]
  · simp [decode, hfields, hbids]

/-- Nothing of the caps is lost. -/
@[simp] theorem Caps.lossless (c : Caps) : Lossless c := by
  refine .of_record ["base_cap", "scarce_cap"] (by decide) rfl rfl ?_ fun hfields => ?_
  · simp
  · simp [decode, hfields]

/-- Nothing of optional caps is lost. -/
@[simp] theorem Caps.losslessOption (o : Option Caps) : LosslessOption o :=
  ⟨fun c _ => c.lossless, fun _ _ => nofun⟩

/-- Nothing of two sums is lost. -/
@[simp] theorem Totals.lossless (t : Totals) : Lossless t := by
  refine .of_record ["base", "scarce"] (by decide) rfl rfl ?_ fun hfields => ?_
  · simp
  · simp [decode, hfields]

/-- Nothing of a clearing result is lost. -/
@[simp] theorem ClearingResult.lossless (r : ClearingResult) : Lossless r := by
  refine .of_record ["price_found", "clearing_tick", "base_above", "scarce_above"] (by decide) rfl
    rfl ?_ fun hfields => ?_
  · simp
  · simp [decode, hfields]

/-- Nothing of a ratio is lost. -/
@[simp] theorem FillRatio.lossless (r : FillRatio) : Lossless r := by
  refine .of_record ["filled_scarce", "bucket_scarce"] (by decide) rfl rfl ?_ fun hfields => ?_
  · simp
  · simp [decode, hfields]

/-- Nothing of a split of the upside is lost. -/
@[simp] theorem Surplus.lossless (s : Surplus) : Lossless s := by
  refine .of_record ["floor", "fill"] (by decide) rfl rfl ?_ fun hfields => ?_
  · simp
  · simp [decode, hfields]

/-- Nothing of a commitment is lost. -/
@[simp] theorem Commitment.lossless (c : Commitment) : Lossless c := by
  refine .of_record ["tick", "price", "price_found", "base_above", "scarce_above", "bucket", "fill",
    "surplus"] (by decide) rfl rfl ?_ fun hfields => ?_
  · simp
  · simp [decode, hfields]

/-- Nothing of the amounts of a payout is lost. -/
@[simp] theorem BidAmounts.lossless (x : BidAmounts) : Lossless x := by
  refine .of_record ["filled_scarce", "base_refund", "base_cost"] (by decide) rfl rfl ?_
    fun hfields => ?_
  · simp
  · simp [decode, hfields]

/-- Nothing of the payout totals is lost. -/
@[simp] theorem PayoutTotals.lossless (t : PayoutTotals) : Lossless t := by
  refine .of_record ["scarce_distributed", "base_retained"] (by decide) rfl rfl ?_
    fun hfields => ?_
  · simp
  · simp [decode, hfields]

/-- Nothing of a payout is lost. -/
@[simp] theorem Payout.lossless {p : Payout} (h : p.bid.index < 0x10000000000000000) :
    Lossless p := by
  refine .of_record ["bid", "depositor", "amounts"] (by decide) rfl rfl ?_ fun hfields => ?_
  · simp [h]
  · simp [decode, hfields, h]

/-- Nothing of a report is lost. -/
@[simp] theorem PayoutReport.lossless {r : PayoutReport}
    (h : ∀ p ∈ r.payouts, p.bid.index < 0x10000000000000000) : Lossless r := by
  have hpayouts : Lossless r.payouts := Json.lossless_list fun p hp => Payout.lossless (h p hp)
  refine .of_record ["total_filled_scarce", "total_base_refund", "total_base_cost", "bids"]
    (by decide) rfl rfl ?_ fun hfields => ?_
  · simp [hpayouts]
  · simp [decode, hfields, hpayouts]

/-- Nothing of a snapshot is lost. -/
@[simp] theorem Snapshot.lossless (s : Snapshot) : Lossless s := by
  refine .of_record ["phase", "caps", "clearing_tick", "price_found"] (by decide) rfl rfl ?_
    fun hfields => ?_
  · simp
  · simp [decode, hfields]

/-- Nothing of a configuration is lost. -/
@[simp] theorem Config.lossless {c : Config} (h : c.maxEvents < 0x10000000000000000) :
    Lossless c := by
  have hnames : FieldNames ["escrow_account", "proceeds_account", "max_events"] := by decide
  refine .of_record _ hnames rfl rfl ?_ fun _ => ?_
  · simp [h]
  · have hfields : Json.fieldsFrom 0 ["escrow_account", "proceeds_account", "max_events"]
        (encode c) = some [some (encode c.escrow), some (encode c.proceeds),
          some (encode c.maxEvents)] :=
      Json.fieldsFrom_record hnames rfl rfl (fun _ h => h) 0
    simp [decode, hfields, h]

end BatchAuction
