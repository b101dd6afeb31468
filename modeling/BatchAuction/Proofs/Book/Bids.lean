import BatchAuction.Book.Basic
import Mathlib.Data.List.Perm.Basic

/-!
# The bids of a book under its two changes

A book changes in two ways. Recording puts one bid into the list of all bids (`Book.bids_record`),
and closing flips the flag of one bid at its place (`Book.bids_close`). A handle finds the bid that
carries it (`Book.Indexed`), and each change touches one handle (`Book.get?_record`,
`Book.get?_close`). Nothing else is used about the tree of buckets when sums over bids are followed
through a run. Every bid stands in the bucket of its tick (`Book.Placed`).
-/

namespace BatchAuction

open Ranked (rank)

namespace SortedMap

variable {κ ν : Type} [Ranked κ]

/-- The entry that an upsert changes, or the place where it adds one. -/
theorem upsertList_split (key : κ) (f : Option ν → ν) :
    ∀ {entries : List (κ × ν)}, entries.Pairwise (fun a b => rank a.1 < rank b.1) →
      (∃ l v r, entries = l ++ (key, v) :: r ∧ find? key entries = some v ∧
        upsertList key f entries = l ++ (key, f (some v)) :: r) ∨
      (∃ l r, entries = l ++ r ∧ find? key entries = none ∧
        upsertList key f entries = l ++ (key, f none) :: r)
  | [], _ => .inr ⟨[], [], rfl, rfl, rfl⟩
  | (k, v) :: entries, h => by
    have hd := List.pairwise_cons.1 h
    unfold upsertList
    split
    · rename_i hlt
      refine .inr ⟨[], (k, v) :: entries, rfl, find?_eq_none_of_lt fun e he => ?_, rfl⟩
      rcases List.mem_cons.1 he with rfl | he
      · exact hlt
      · exact Int.lt_trans hlt (hd.1 e he)
    · split
      · rename_i heq
        obtain rfl : key = k := Ranked.eq_of_rank_eq heq
        exact .inl ⟨[], v, entries, rfl, by simp [find?], rfl⟩
      · rename_i hne
        have hfind : find? key ((k, v) :: entries) = find? key entries := by
          rw [find?, if_neg (Ne.symm hne)]
        rcases upsertList_split key f hd.2 with ⟨l, w, r, he, hv, hu⟩ | ⟨l, r, he, hv, hu⟩
        · exact .inl ⟨(k, v) :: l, w, r, by rw [he]; rfl, hfind.trans hv, by rw [hu]; rfl⟩
        · exact .inr ⟨(k, v) :: l, r, by rw [he]; rfl, hfind.trans hv, by rw [hu]; rfl⟩

end SortedMap

namespace Bucket

/-- The pushed bid is found at the end, and the others where they were. -/
@[simp] theorem get?_push (b : Bucket) (bid : Bid) (i : Nat) :
    (b.push bid).get? i = if i = b.size then some bid else b.get? i := by
  unfold get? push
  rw [List.getElem?_append]
  split
  · rename_i h
    rw [if_neg (show i ≠ b.size from Nat.ne_of_lt h)]
  · rename_i h
    have hle : b.bids.length ≤ i := Nat.not_lt.1 h
    by_cases hi : i = b.size
    · rw [if_pos hi, hi]
      simp [size]
    · have hlt : b.bids.length < i := Nat.lt_of_le_of_ne hle (Ne.symm hi)
      rw [if_neg hi, List.getElem?_eq_none hle, List.getElem?_eq_none]
      simp only [List.length_cons, List.length_nil]
      omega

/-- Closing a position closes the bid there and leaves the list as it is otherwise. -/
theorem bids_close {b : Bucket} {i : Nat} {bid : Bid} (h : b.get? i = some bid) :
    ∃ l r, b.bids = l ++ bid :: r ∧ (b.close i).bids = l ++ bid.close :: r := by
  obtain ⟨bids⟩ := b
  simp only [get?, close] at h ⊢
  induction bids generalizing i with
  | nil => simp at h
  | cons b' bids ih =>
    cases i with
    | zero =>
      obtain rfl : b' = bid := by simpa using h
      exact ⟨[], bids, rfl, rfl⟩
    | succ i =>
      obtain ⟨l, r, h1, h2⟩ := ih (by simpa using h)
      refine ⟨b' :: l, r, by rw [h1]; rfl, ?_⟩
      rw [List.modify_succ_cons, h2]
      rfl

end Bucket

namespace Book

/-- A handle finds the bid that carries it. -/
def Indexed (b : Book) : Prop := ∀ ref bid, b.get? ref = some bid → bid.ref = ref

variable {b : Book} {ref : BidRef} {bid : Bid}

/-- The bids of a book are those that some handle finds. -/
theorem mem_bids : bid ∈ b.bids ↔ ∃ ref, b.get? ref = some bid := by
  simp only [bids, bidsOf, List.mem_flatMap, get?, bucket?, Option.bind_eq_some_iff]
  constructor
  · rintro ⟨⟨tick, bucket⟩, he, hb⟩
    obtain ⟨i, hi, hget⟩ := List.mem_iff_getElem.1 hb
    exact ⟨⟨tick, i⟩, bucket, SortedMap.mem_entries_iff.1 he,
      List.getElem?_eq_some_iff.2 ⟨hi, hget⟩⟩
  · rintro ⟨ref, bucket, he, hb⟩
    exact ⟨(ref.tick, bucket), SortedMap.mem_entries_iff.2 he, List.mem_of_getElem? hb⟩

/-- The bids of two lists of buckets follow on each other. -/
theorem bidsOf_append (l m : List (Tick × Bucket)) : bidsOf (l ++ m) = bidsOf l ++ bidsOf m :=
  List.flatMap_append

/-! ## Recording -/

/-- Recording puts the new bid somewhere into the list of bids. -/
theorem bids_record (b : Book) (tick : Tick) (depositor : Account) (amount : Amount)
    (time : Timestamp) :
    ∃ l r, b.bids = l ++ r ∧
      (b.record tick depositor amount time).2.bids =
        l ++ b.newBid tick depositor amount time :: r := by
  have h := SortedMap.upsertList_split tick
    (fun bucket => (bucket.getD .empty).push (b.newBid tick depositor amount time))
    b.buckets.ascending
  rcases h with ⟨l, bucket, r, he, -, hu⟩ | ⟨l, r, he, -, hu⟩
  · refine ⟨bidsOf l ++ bucket.bids, bidsOf r, ?_, ?_⟩
    · rw [bids, he, bidsOf_append, List.append_assoc]
      rfl
    · show bidsOf (SortedMap.upsertList ..) = _
      rw [hu, bidsOf_append, List.append_assoc]
      simp [bidsOf, Bucket.push]
  · refine ⟨bidsOf l, bidsOf r, by rw [bids, he, bidsOf_append], ?_⟩
    show bidsOf (SortedMap.upsertList ..) = _
    rw [hu, bidsOf_append]
    simp [bidsOf, Bucket.push, Bucket.empty]

/-- Up to order, recording adds the new bid in front. -/
theorem bids_record_perm (b : Book) (tick : Tick) (depositor : Account) (amount : Amount)
    (time : Timestamp) :
    (b.record tick depositor amount time).2.bids.Perm
      (b.newBid tick depositor amount time :: b.bids) := by
  obtain ⟨l, r, h1, h2⟩ := bids_record b tick depositor amount time
  rw [h1, h2]
  exact List.perm_middle

/-- Recording answers the handle of the new bid and leaves all other handles as they were. -/
theorem get?_record (b : Book) (tick : Tick) (depositor : Account) (amount : Amount)
    (time : Timestamp) (ref : BidRef) :
    (b.record tick depositor amount time).2.get? ref =
      if ref = (b.record tick depositor amount time).1 then
        some (b.newBid tick depositor amount time)
      else b.get? ref := by
  obtain ⟨t, i⟩ := ref
  simp only [get?, bucket?, record, SortedMap.get?_upsert, BidRef.mk.injEq]
  by_cases ht : tick = t
  · subst ht
    by_cases hi : i = b.nextIndex tick
    · subst hi
      simp [newBid, nextIndex, bucket?]
    · have hne : i ≠ (Option.getD (b.buckets.get? tick) .empty).size := hi
      rw [if_pos rfl, if_neg (by simp [newBid, hi])]
      simp only [Option.bind_some, Bucket.get?_push, if_neg hne]
      cases b.buckets.get? tick with
      | none => rfl
      | some bucket => rfl
  · rw [if_neg fun hr => ht (Ranked.eq_of_rank_eq hr), if_neg fun h => ht h.1.symm]

/-- The handle of a new bid found nothing before. -/
theorem get?_record_new (b : Book) (tick : Tick) (depositor : Account) (amount : Amount)
    (time : Timestamp) : b.get? (b.record tick depositor amount time).1 = none := by
  show (b.bucket? tick).bind (fun bucket => bucket.get? (b.nextIndex tick)) = none
  unfold nextIndex
  cases b.bucket? tick with
  | none => rfl
  | some bucket => exact List.getElem?_eq_none (Nat.le_refl _)

/-- Recording a bid keeps every bid under its handle. -/
theorem Indexed.record (h : b.Indexed) (tick : Tick) (depositor : Account) (amount : Amount)
    (time : Timestamp) : (b.record tick depositor amount time).2.Indexed := by
  intro ref bid hget
  rw [get?_record] at hget
  split at hget
  · rename_i href
    cases hget
    exact href.symm
  · exact h ref bid hget

/-! ## Closing -/

/-- Closing a handle changes what that handle finds. -/
theorem get?_close (b : Book) (ref ref' : BidRef) :
    (b.close ref).get? ref' = if ref = ref' then (b.get? ref).map Bid.close else b.get? ref' := by
  obtain ⟨t, i⟩ := ref
  obtain ⟨t', i'⟩ := ref'
  simp only [close, bucket?, get?, BidRef.mk.injEq]
  cases hb : b.buckets.get? t with
  | none =>
    by_cases h : t = t' ∧ i = i'
    · obtain ⟨rfl, rfl⟩ := h
      simp [hb]
    · simp [h]
  | some bucket =>
    simp only [SortedMap.insert, SortedMap.get?_upsert]
    by_cases ht : t = t'
    · subst ht
      simp only [if_true, true_and, hb, Option.bind_some, Bucket.get?_close]
      split
      · rename_i hi
        rw [hi]
      · rfl
    · rw [if_neg fun hr => ht (Ranked.eq_of_rank_eq hr), if_neg fun h => ht h.1]

/-- Closing a handle closes the bid it finds, in its place. -/
theorem bids_close (h : b.get? ref = some bid) :
    ∃ l r, b.bids = l ++ bid :: r ∧ (b.close ref).bids = l ++ bid.close :: r := by
  obtain ⟨bucket, hb, hget⟩ := Option.bind_eq_some_iff.1 h
  obtain ⟨l', r', hl, hc⟩ := Bucket.bids_close hget
  have hs := SortedMap.upsertList_split ref.tick (fun _ => bucket.close ref.index)
    b.buckets.ascending
  rcases hs with ⟨l, v, r, he, hf, hu⟩ | ⟨l, r, -, hf, -⟩
  · obtain rfl : v = bucket := Option.some.inj (hf.symm.trans hb)
    refine ⟨bidsOf l ++ l', r' ++ bidsOf r, ?_, ?_⟩
    · rw [bids, he, bidsOf_append]
      simp [bidsOf, hl]
    · rw [close, hb]
      show bidsOf (SortedMap.upsertList ..) = _
      rw [hu, bidsOf_append]
      simp [bidsOf, hc]
  · exact nomatch hf.symm.trans hb

/-- Closing a bid keeps every bid under its handle. -/
theorem Indexed.close (h : b.Indexed) (ref : BidRef) : (b.close ref).Indexed := by
  intro ref' bid hget
  rw [get?_close] at hget
  split at hget
  · rename_i href
    obtain ⟨bid', hbid', rfl⟩ := Option.map_eq_some_iff.1 hget
    rw [Bid.ref_close, h ref bid' hbid', href]
  · exact h ref' bid hget

/-! ## Places -/

/-- Every bid stands in the bucket of its tick. -/
def Placed (b : Book) : Prop := ∀ e ∈ b.buckets.entries, ∀ bid ∈ e.2.bids, bid.tick = e.1

/-- A bid carries the tick of its bucket and its position in it. -/
theorem Indexed.ref_getElem (h : b.Indexed) {e : Tick × Bucket} (he : e ∈ b.buckets.entries)
    {i : Nat} (hi : i < e.2.bids.length) : e.2.bids[i].ref = ⟨e.1, i⟩ := by
  refine h ⟨e.1, i⟩ _ ?_
  exact Option.bind_eq_some_iff.2 ⟨e.2, SortedMap.mem_entries_iff.1 he,
    List.getElem?_eq_getElem hi⟩

/-- A bid lies in the bucket of its tick. -/
theorem Indexed.tick_of_mem (h : b.Indexed) {e : Tick × Bucket} (he : e ∈ b.buckets.entries)
    {bid : Bid} (hb : bid ∈ e.2.bids) : bid.tick = e.1 := by
  obtain ⟨i, hi, rfl⟩ := List.mem_iff_getElem.1 hb
  exact congrArg BidRef.tick (h.ref_getElem he hi)

/-- A book in which every handle finds the bid that carries it has its bids in place. -/
theorem Indexed.placed (h : b.Indexed) : b.Placed := fun _ he _ hb => h.tick_of_mem he hb

end Book

end BatchAuction
