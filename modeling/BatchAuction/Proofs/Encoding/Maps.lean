import BatchAuction.Encoding.Ledger
import BatchAuction.Proofs.Encoding.Records
import Mathlib.Data.List.Perm.Basic
import Mathlib.Data.List.Permutation

/-!
# Maps are read back, in any order

A map is written as an object with its keys as names. It is read entry by entry, and as no key
occurs twice, it does not matter in which order (`SortedMap.ofList_of_perm`). A book is always
written with its ticks ascending. For a ledger, whose accounts and assets have no order of their
own, the statement is about every order in which they can be written (`MemoryLedger.Writes`).
-/

namespace BatchAuction

open JsonCodec (encode decode)
open Json (Lossless FieldNames Plain naturalLiteral integerLiteral record)
open Ranked (rank)

/-! ## Maps from entries -/

namespace SortedMap

variable {κ ν : Type} [Ranked κ] {l : List (κ × ν)} {key : κ} {value : ν}

/-- Inserting entries with new and different keys adds these entries. -/
theorem get?_foldl_insert (hnodup : (l.map Prod.fst).Nodup) :
    ∀ {m : SortedMap κ ν}, (∀ e ∈ l, m.get? e.1 = none) →
      ((l.foldl (fun m e => m.insert e.1 e.2) m).get? key = some value ↔
        (key, value) ∈ l ∨ m.get? key = some value) := by
  induction l with
  | nil => exact fun _ => ⟨.inr, fun h => h.resolve_left (nomatch ·)⟩
  | cons e l ih =>
    intro m hnone
    obtain ⟨hnew, hnodup⟩ := List.nodup_cons.1 hnodup
    have hinsert (k : κ) : (m.insert e.1 e.2).get? k =
        if rank e.1 = rank k then some e.2 else m.get? k := m.get?_upsert e.1 k _
    have hrest : ∀ e' ∈ l, (m.insert e.1 e.2).get? e'.1 = none := by
      intro e' he'
      rw [hinsert, if_neg, hnone e' (List.mem_cons_of_mem _ he')]
      intro hrank
      exact hnew (Ranked.eq_of_rank_eq hrank ▸ List.mem_map_of_mem he')
    rw [List.foldl_cons, ih hnodup hrest, hinsert, List.mem_cons, or_assoc, or_left_comm]
    refine or_congr_right ?_
    split
    · rename_i hrank
      obtain rfl : e.1 = key := Ranked.eq_of_rank_eq hrank
      rw [hnone e List.mem_cons_self]
      constructor
      · intro heq
        exact .inl (Prod.ext rfl (Option.some.inj heq).symm)
      · rintro (heq | heq)
        · rw [← heq]
        · cases heq
    · rename_i hrank
      refine ⟨.inr, fun h => h.resolve_left fun heq => hrank ?_⟩
      rw [← heq]

/-- The entries of a map, in any order, make up the map again. -/
theorem ofList_of_perm {m : SortedMap κ ν} (h : l.Perm m.entries) : ofList l = m := by
  have hnodup : (l.map Prod.fst).Nodup := ((h.map Prod.fst).nodup_iff).2 m.nodup_keys
  refine ext_get? fun key => Option.ext fun value => ?_
  rw [ofList, get?_foldl_insert hnodup fun _ _ => rfl, h.mem_iff, mem_entries_iff]
  exact or_iff_left (nomatch ·)

end SortedMap

/-! ## Books -/

/-- All counts in a book have 64 bits. -/
structure Book.Counted (b : Book) : Prop where
  size : b.size < 0x10000000000000000
  index : ∀ e ∈ b.buckets.entries, ∀ bid ∈ e.2.bids, bid.index < 0x10000000000000000

/-- The buckets of a book survive. -/
theorem lossless_buckets {m : SortedMap Tick Bucket}
    (h : ∀ e ∈ m.entries, ∀ bid ∈ e.2.bids, bid.index < 0x10000000000000000) : Lossless m where
  spelled := by
    refine Json.spelled_of_plain (List.forall_mem_map.2 fun e he => ?_)
    exact ⟨Json.plain_integerLiteral _, (Bucket.lossless (h e he)).spelled⟩
  decoded := by
    have hread : ∀ e ∈ m.entries, Book.decodeBucket (integerLiteral e.1.index, encode e.2) =
        some e := by
      intro e he
      simp only [Book.decodeBucket, Json.integer?_integerLiteral, Option.bind_eq_bind,
        Option.bind_some, Tick.ofInt?_index, (Bucket.lossless (h e he)).decoded]
      rfl
    have hentries : (m.entries.map fun e => (integerLiteral e.1.index, encode e.2)).mapM
        Book.decodeBucket = some m.entries := by
      rw [List.mapM_map]
      exact (mapM_eq_some hread).trans (congrArg some m.entries.map_id)
    show ((m.entries.map _).mapM Book.decodeBucket).map SortedMap.ofList = some m
    rw [hentries, Option.map_some, SortedMap.ofList_of_perm (.refl _)]

/-- Nothing of a book is lost. -/
@[simp] theorem Book.lossless {b : Book} (h : b.Counted) : Lossless b := by
  have hbuckets := lossless_buckets h.index
  refine .of_record ["buckets", "bid_count"] (by decide) rfl rfl ?_ fun hfields => ?_
  · simp [hbuckets, h.size]
  · simp [decode, hfields, hbuckets, h.size]

/-! ## Ledgers -/

/-- The known amounts by the names of their assets. -/
def Holdings.known (h : Holdings) : List (String × Json) :=
  (h.base.map fun amount => (Asset.base.key, encode amount)).toList ++
    (h.scarce.map fun amount => (Asset.scarce.key, encode amount)).toList

/-- A JSON form of holdings: the known amounts in some order. -/
def Holdings.Writes (h : Holdings) (j : Json) : Prop :=
  ∃ members : List (String × Json), members.Perm h.known ∧ j = record members

/-- A JSON form of an account and its holdings. -/
def Holdings.WritesFor (e : Account × Holdings) (member : List Char × Json) : Prop :=
  member.1 = naturalLiteral e.1.number ∧ e.2.Writes member.2

/-- A JSON form of balances: the accounts in some order, each with a form of its holdings. -/
def WritesBalances (m : SortedMap Account Holdings) (j : Json) : Prop :=
  ∃ entries members, entries.Perm m.entries ∧ List.Forall₂ Holdings.WritesFor entries members ∧
    j = .object members

/-- A JSON form of a ledger, with accounts and assets in some order. -/
def MemoryLedger.Writes (l : MemoryLedger) (j : Json) : Prop :=
  ∃ balances credited debited, WritesBalances l.balances balances ∧
    l.totalCredited.Writes credited ∧ l.totalDebited.Writes debited ∧
    j = record
      [("balances", balances), ("total_credited", credited), ("total_debited", debited)]

/-- The encoder writes the holdings of an account. -/
theorem Holdings.writes_encode (h : Holdings) : h.Writes (encode h) := ⟨h.known, .refl _, rfl⟩

/-- What is written for an account can be spelled. -/
theorem Holdings.Writes.spelled {h : Holdings} {j : Json} (hj : h.Writes j) : j.Spelled := by
  obtain ⟨members, hperm, rfl⟩ := hj
  have hmem : ∀ n ∈ members, Plain n.1.toList ∧ n.2.Spelled := by
    intro n hn
    have hknown := hperm.mem_iff.1 hn
    rcases List.mem_append.1 hknown with hn | hn
    · obtain ⟨amount, -, rfl⟩ := Option.map_eq_some_iff.1 (Option.mem_toList.1 hn)
      exact ⟨Asset.base.plain_key, amount.lossless.spelled⟩
    · obtain ⟨amount, -, rfl⟩ := Option.map_eq_some_iff.1 (Option.mem_toList.1 hn)
      exact ⟨Asset.scarce.plain_key, amount.lossless.spelled⟩
  exact Json.spelled_of_plain (List.forall_mem_map.2 hmem)

/-- Reading one asset sets its amount. -/
theorem Holdings.decodeMember_key (h : Holdings) (asset : Asset) (amount : Amount) :
    h.decodeMember (asset.key.toList, encode amount) = some (h.set asset amount) := by
  simp only [decodeMember, Json.unescape_toList asset.plain_key, Option.bind_eq_bind,
    Option.bind_some, Asset.ofKey?_key, amount.lossless.decoded]
  rfl

/-- Members with known keys are read one after the other. -/
theorem Holdings.foldlM_decodeMember (l : List (Asset × Amount)) :
    ∀ h : Holdings, (l.map fun e => (e.1.key.toList, encode e.2)).foldlM decodeMember h =
      some (l.foldl (fun h e => h.set e.1 e.2) h) := by
  induction l with
  | nil => exact fun _ => rfl
  | cons e l ih =>
    intro h
    rw [List.map_cons, List.foldlM_cons, decodeMember_key]
    exact ih _

/-- Holdings are read back, in whatever order their assets are written. -/
theorem Holdings.Writes.decoded {h : Holdings} {j : Json} (hj : h.Writes j) :
    decode j = some h := by
  obtain ⟨members, hperm, rfl⟩ := hj
  obtain ⟨base, scarce⟩ := h
  show (members.map _).foldlM decodeMember .empty = _
  cases base with
  | none =>
    cases scarce with
    | none =>
      obtain rfl : members = [] := List.perm_nil.1 hperm
      exact foldlM_decodeMember [] .empty
    | some y =>
      obtain rfl : members = [(Asset.scarce.key, encode y)] := List.perm_singleton.1 hperm
      exact foldlM_decodeMember [(.scarce, y)] .empty
  | some x =>
    cases scarce with
    | none =>
      obtain rfl : members = [(Asset.base.key, encode x)] := List.perm_singleton.1 hperm
      exact foldlM_decodeMember [(.base, x)] .empty
    | some y =>
      rcases List.perm_pair.1 hperm with rfl | rfl
      · exact foldlM_decodeMember [(.base, x), (.scarce, y)] .empty
      · exact foldlM_decodeMember [(.scarce, y), (.base, x)] .empty

/-- An account with its holdings is read back. -/
theorem Holdings.WritesFor.decoded {e : Account × Holdings} {member : List Char × Json}
    (h : WritesFor e member) : MemoryLedger.decodeAccount member = some e := by
  obtain ⟨hkey, hvalue⟩ := h
  simp only [MemoryLedger.decodeAccount, hkey, naturalLiteral, Json.integer?_toDigits,
    Option.bind_eq_bind, Option.bind_some, Account.ofNat?_number, hvalue.decoded]
  rfl

/-- What is written for the balances can be spelled. -/
theorem WritesBalances.spelled {m : SortedMap Account Holdings} {j : Json}
    (hj : WritesBalances m j) : j.Spelled := by
  obtain ⟨entries, members, -, hwrites, rfl⟩ := hj
  have hmem : ∀ n ∈ members, Plain n.1 ∧ n.2.Spelled := by
    induction hwrites with
    | nil => exact fun _ hn => nomatch hn
    | cons hhead _ ih =>
      intro n hn
      rcases List.mem_cons.1 hn with rfl | hn
      · exact ⟨hhead.1 ▸ Json.plain_naturalLiteral _, hhead.2.spelled⟩
      · exact ih n hn
  exact Json.spelled_of_plain hmem

/-- Balances are read back, in whatever order their accounts are written. -/
theorem WritesBalances.decoded {m : SortedMap Account Holdings} {j : Json}
    (hj : WritesBalances m j) : decode j = some m := by
  obtain ⟨entries, members, hperm, hwrites, rfl⟩ := hj
  have hread : members.mapM MemoryLedger.decodeAccount = some entries := by
    clear hperm
    induction hwrites with
    | nil => rfl
    | cons hhead _ ih =>
      rw [List.mapM_cons, hhead.decoded, ih]
      rfl
  show (members.mapM MemoryLedger.decodeAccount).map SortedMap.ofList = some m
  rw [hread, Option.map_some, SortedMap.ofList_of_perm hperm]

/-- Sorting the accounts by the texts of their keys is one order of them. -/
theorem writesBalances_encode (m : SortedMap Account Holdings) : WritesBalances m (encode m) := by
  let write := fun e : Account × Holdings => (naturalLiteral e.1.number, encode e.2)
  have hwrites : List.Forall₂ (flip Holdings.WritesFor) (m.entries.map write) m.entries :=
    List.forall₂_map_left_iff.2 (List.forall₂_same.2 fun e _ => ⟨rfl, e.2.writes_encode⟩)
  have hperm : ((m.entries.map write).mergeSort MemoryLedger.keyLe).Perm (m.entries.map write) :=
    List.mergeSort_perm _ _
  obtain ⟨entries, hsorted, hentries⟩ := List.perm_comp_forall₂ hperm hwrites
  exact ⟨entries, _, hentries, hsorted.flip, rfl⟩

namespace MemoryLedger

/-- The names of the fields. -/
def names : List String := ["balances", "total_credited", "total_debited"]

/-- The field names are plain and differ. -/
theorem fieldNames : FieldNames names := by decide

/-- The encoder writes the ledger. -/
theorem writes_encode (l : MemoryLedger) : l.Writes (encode l) :=
  ⟨_, _, _, writesBalances_encode l.balances, l.totalCredited.writes_encode,
    l.totalDebited.writes_encode, rfl⟩

/-- What is written for a ledger can be spelled. -/
theorem Writes.spelled {l : MemoryLedger} {j : Json} (hj : l.Writes j) : j.Spelled := by
  obtain ⟨balances, credited, debited, hbalances, hcredited, hdebited, rfl⟩ := hj
  refine Json.spelled_record fieldNames rfl ?_
  simp [hbalances.spelled, hcredited.spelled, hdebited.spelled]

/-- A ledger is read back, in whatever order its accounts and assets are written. -/
theorem Writes.decoded {l : MemoryLedger} {j : Json} (hj : l.Writes j) : decode j = some l := by
  obtain ⟨balances, credited, debited, hbalances, hcredited, hdebited, rfl⟩ := hj
  have hfields : Json.fields names (record [("balances", balances), ("total_credited", credited),
      ("total_debited", debited)]) = some [some balances, some credited, some debited] :=
    Json.fields_record fieldNames rfl
  show (Json.fields names (record _)).bind _ = some l
  rw [hfields]
  show (decode balances).bind _ = some l
  rw [hbalances.decoded]
  show (decode credited).bind _ = some l
  rw [hcredited.decoded]
  show (decode debited).bind _ = some l
  rw [hdebited.decoded]
  rfl

/-- Nothing of a ledger is lost. -/
@[simp] theorem lossless (l : MemoryLedger) : Lossless l :=
  ⟨l.writes_encode.spelled, l.writes_encode.decoded⟩

end MemoryLedger

end BatchAuction
