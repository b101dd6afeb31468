/-!
# Maps sorted by key

`SortedMap κ ν` is a finite map held as a list of entries with strictly ascending keys. The order
comes from an injective integer rank of the keys (`Ranked`). As the list is determined by the
lookups (`SortedMap.ext_get?`), two maps that answer alike are equal. `upsert` is the only
way to change an entry.
-/

namespace BatchAuction

/-- Keys that are ordered by an injective integer rank. -/
class Ranked (κ : Type) where
  /-- The position of a key in the order. -/
  rank : κ → Int
  /-- Keys of one rank are equal. -/
  eq_of_rank_eq : ∀ {a b : κ}, rank a = rank b → a = b

open Ranked (rank)

/-- A finite map as a list of entries with strictly ascending keys. -/
@[ext]
structure SortedMap (κ ν : Type) [Ranked κ] where
  /-- The entries in the order of their keys. -/
  entries : List (κ × ν)
  /-- The keys ascend strictly. -/
  ascending : entries.Pairwise fun a b => rank a.1 < rank b.1
deriving DecidableEq

namespace SortedMap

variable {κ ν : Type} [Ranked κ]

/-- The map without entries. -/
def empty : SortedMap κ ν := ⟨[], .nil⟩

instance : Inhabited (SortedMap κ ν) := ⟨empty⟩

/-- The value of the first entry that has the key. -/
def find? (key : κ) : List (κ × ν) → Option ν
  | [] => none
  | entry :: entries => if rank entry.1 = rank key then some entry.2 else find? key entries

/-- The value at a key. -/
def get? (m : SortedMap κ ν) (key : κ) : Option ν := find? key m.entries

/-- The keys in ascending order. -/
def keys (m : SortedMap κ ν) : List κ := m.entries.map Prod.fst

/-- The values in the order of their keys. -/
def values (m : SortedMap κ ν) : List ν := m.entries.map Prod.snd

/-- Replaces the value at a key by a function of the value that was there. -/
def upsertList (key : κ) (f : Option ν → ν) : List (κ × ν) → List (κ × ν)
  | [] => [(key, f none)]
  | entry :: entries =>
    if rank key < rank entry.1 then (key, f none) :: entry :: entries
    else if rank key = rank entry.1 then (entry.1, f (some entry.2)) :: entries
    else entry :: upsertList key f entries

/-- An entry after an update has the updated key or one that was there before. -/
theorem rank_of_mem_upsertList {key : κ} {f : Option ν → ν} {e : κ × ν} {entries : List (κ × ν)}
    (h : e ∈ upsertList key f entries) :
    rank e.1 = rank key ∨ ∃ e' ∈ entries, rank e.1 = rank e'.1 := by
  induction entries with
  | nil =>
    simp only [upsertList, List.mem_singleton] at h
    exact Or.inl (h ▸ rfl)
  | cons entry entries ih =>
    unfold upsertList at h
    split at h
    · rcases List.mem_cons.mp h with rfl | h
      · exact Or.inl rfl
      · exact Or.inr ⟨e, h, rfl⟩
    · split at h
      · rcases List.mem_cons.mp h with rfl | h
        · exact Or.inr ⟨entry, List.mem_cons_self, rfl⟩
        · exact Or.inr ⟨e, List.mem_cons_of_mem _ h, rfl⟩
      · rcases List.mem_cons.mp h with rfl | h
        · exact Or.inr ⟨e, List.mem_cons_self, rfl⟩
        · rcases ih h with h | ⟨e', he', hr⟩
          · exact Or.inl h
          · exact Or.inr ⟨e', List.mem_cons_of_mem _ he', hr⟩

/-- An update keeps the entries in order. -/
theorem pairwise_upsertList {key : κ} {f : Option ν → ν} {entries : List (κ × ν)}
    (h : entries.Pairwise fun a b => rank a.1 < rank b.1) :
    (upsertList key f entries).Pairwise fun a b => rank a.1 < rank b.1 := by
  induction entries with
  | nil => exact List.pairwise_singleton _ _
  | cons entry entries ih =>
    have hd := List.pairwise_cons.mp h
    unfold upsertList
    split
    · rename_i hlt
      refine List.pairwise_cons.mpr ⟨fun e he => ?_, h⟩
      rcases List.mem_cons.mp he with rfl | he
      · exact hlt
      · exact Int.lt_trans hlt (hd.1 e he)
    · split
      · exact List.pairwise_cons.mpr ⟨hd.1, hd.2⟩
      · rename_i hlt hne
        refine List.pairwise_cons.mpr ⟨fun e he => ?_, ih hd.2⟩
        rcases rank_of_mem_upsertList he with hr | ⟨e', he', hr⟩
        · omega
        · have := hd.1 e' he'
          omega

/-- Replaces the value at a key by a function of the value that was there. -/
def upsert (m : SortedMap κ ν) (key : κ) (f : Option ν → ν) : SortedMap κ ν :=
  ⟨upsertList key f m.entries, pairwise_upsertList m.ascending⟩

/-- Sets the value at a key. -/
def insert (m : SortedMap κ ν) (key : κ) (value : ν) : SortedMap κ ν :=
  m.upsert key fun _ => value

/-- The map of a list of entries; of several entries for one key the last one counts. -/
def ofList (entries : List (κ × ν)) : SortedMap κ ν :=
  entries.foldl (fun m entry => m.insert entry.1 entry.2) empty

/-! ## Lemmas -/

/-- A key below all keys of a list is not found in it. -/
theorem find?_eq_none_of_lt {key : κ} {entries : List (κ × ν)}
    (h : ∀ e ∈ entries, rank key < rank e.1) : find? key entries = none := by
  induction entries with
  | nil => rfl
  | cons e entries ih =>
    have := h e List.mem_cons_self
    unfold find?
    rw [if_neg (by omega)]
    exact ih fun e' he' => h e' (List.mem_cons_of_mem _ he')

/-- After an update the key is found with its new value, and the others are found as before. -/
theorem find?_upsertList (key key' : κ) (f : Option ν → ν) {entries : List (κ × ν)}
    (h : entries.Pairwise fun a b => rank a.1 < rank b.1) :
    find? key' (upsertList key f entries) =
      if rank key = rank key' then some (f (find? key entries)) else find? key' entries := by
  induction entries with
  | nil => simp [upsertList, find?]
  | cons entry entries ih =>
    have hd := List.pairwise_cons.mp h
    unfold upsertList
    split
    · rename_i hlt
      have hnone : find? key (entry :: entries) = none := find?_eq_none_of_lt fun e he => by
        rcases List.mem_cons.mp he with rfl | he
        · exact hlt
        · exact Int.lt_trans hlt (hd.1 e he)
      rw [hnone]
      simp only [find?]
    · split
      · rename_i heq
        by_cases hk : rank entry.1 = rank key' <;> simp [find?, heq, hk]
      · rename_i hlt hne
        simp only [find?, ih hd.2, if_neg (Ne.symm hne)]
        by_cases hk : rank entry.1 = rank key'
        · rw [if_pos hk, if_pos hk, if_neg (by omega)]
        · rw [if_neg hk, if_neg hk]

/-- An update changes the value of one key. -/
theorem get?_upsert (m : SortedMap κ ν) (key key' : κ) (f : Option ν → ν) :
    (m.upsert key f).get? key' =
      if rank key = rank key' then some (f (m.get? key)) else m.get? key' :=
  find?_upsertList key key' f m.ascending

/-- The changed key holds the new value. -/
@[simp] theorem get?_upsert_self (m : SortedMap κ ν) (key : κ) (f : Option ν → ν) :
    (m.upsert key f).get? key = some (f (m.get? key)) := by
  rw [get?_upsert, if_pos rfl]

/-- The other keys keep their values. -/
theorem get?_upsert_of_ne (m : SortedMap κ ν) {key key' : κ} (f : Option ν → ν)
    (h : key ≠ key') : (m.upsert key f).get? key' = m.get? key' := by
  rw [get?_upsert, if_neg fun hr => h (Ranked.eq_of_rank_eq hr)]

/-- The entries are what the lookups find. -/
theorem mem_entries_iff {m : SortedMap κ ν} {key : κ} {value : ν} :
    (key, value) ∈ m.entries ↔ m.get? key = some value := by
  obtain ⟨entries, h⟩ := m
  show _ ↔ find? key entries = some value
  induction entries with
  | nil => simp [find?]
  | cons e entries ih =>
    have hd := List.pairwise_cons.1 h
    rw [find?, List.mem_cons]
    split
    · rename_i heq
      obtain ⟨k, v⟩ := e
      obtain rfl : k = key := Ranked.eq_of_rank_eq heq
      constructor
      · rintro (he | he)
        · simp_all
        · exact absurd (hd.1 _ he) (Int.lt_irrefl _)
      · intro hv
        exact .inl (Prod.ext rfl (Option.some.inj hv).symm)
    · rename_i hne
      rw [← ih hd.2]
      exact or_iff_right fun he => hne (by rw [← he])

/-- No key has two entries. -/
theorem nodup_keys (m : SortedMap κ ν) : m.keys.Nodup := by
  refine List.pairwise_map.2 (m.ascending.imp fun hlt heq => ?_)
  rw [heq] at hlt
  exact Int.lt_irrefl _ hlt

/-- Sorted entries are determined by what is found in them. -/
theorem eq_of_find?_eq {l l' : List (κ × ν)}
    (h : l.Pairwise fun a b => rank a.1 < rank b.1)
    (h' : l'.Pairwise fun a b => rank a.1 < rank b.1)
    (hfind : ∀ key, find? key l = find? key l') : l = l' := by
  induction l generalizing l' with
  | nil =>
    cases l' with
    | nil => rfl
    | cons e' t' =>
      have := hfind e'.1
      simp [find?] at this
  | cons e t ih =>
    have hd := List.pairwise_cons.mp h
    cases l' with
    | nil =>
      have := hfind e.1
      simp [find?] at this
    | cons e' t' =>
      have hd' := List.pairwise_cons.mp h'
      have hle : ¬ rank e.1 < rank e'.1 := fun hlt => by
        have hn : find? e.1 (e' :: t') = none := find?_eq_none_of_lt fun x hx => by
          rcases List.mem_cons.mp hx with rfl | hx
          · exact hlt
          · exact Int.lt_trans hlt (hd'.1 x hx)
        have := hn ▸ hfind e.1
        simp [find?] at this
      have hge : ¬ rank e'.1 < rank e.1 := fun hlt => by
        have hn : find? e'.1 (e :: t) = none := find?_eq_none_of_lt fun x hx => by
          rcases List.mem_cons.mp hx with rfl | hx
          · exact hlt
          · exact Int.lt_trans hlt (hd.1 x hx)
        have := hn ▸ hfind e'.1
        simp [find?] at this
      have hrank : rank e.1 = rank e'.1 := by omega
      have hval : e.2 = e'.2 := by simpa [find?, hrank] using hfind e.1
      have hentry : e = e' := Prod.ext (Ranked.eq_of_rank_eq hrank) hval
      subst hentry
      refine congrArg _ (ih hd.2 hd'.2 fun key => ?_)
      by_cases hk : rank e.1 = rank key
      · rw [find?_eq_none_of_lt fun x hx => by have := hd.1 x hx; omega,
          find?_eq_none_of_lt fun x hx => by have := hd'.1 x hx; omega]
      · simpa [find?, hk] using hfind key

/-- Maps with the same lookups are equal. -/
theorem ext_get? {m m' : SortedMap κ ν} (h : ∀ key, m.get? key = m'.get? key) : m = m' :=
  SortedMap.ext (eq_of_find?_eq m.ascending m'.ascending h)

end SortedMap

end BatchAuction
