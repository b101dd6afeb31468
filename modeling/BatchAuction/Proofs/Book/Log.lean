import BatchAuction.Proofs.Book.Views
import Mathlib.Data.List.Nodup

/-!
# The book is a log

Seen from outside, a book is a log that only grows. Its answers tell the whole log (`BidLog`): a
recorded bid is appended under the handle that was answered, and a handle whose bid was closed is
noted. `Book.Refines` says what the log decides: what each handle finds, what closing a handle
answers, and all the views. One command keeps the book and the log together (`Book.Keeps.step`), and
so they stay together through any sequence of commands on the empty book (`Book.refines_log`),
whatever the ticks and amounts are.
-/

namespace BatchAuction

/-! ## Commands and answers -/

/-- A change asked of a book. -/
inductive BookCommand
  /-- Record a bid. -/
  | record (tick : Tick) (depositor : Account) (amount : Amount) (time : Timestamp)
  /-- Close the bid of a handle. -/
  | withdraw (ref : BidRef)
deriving DecidableEq, Repr

/-- The answer of a book. -/
inductive BookResponse
  /-- A bid was recorded under a handle. -/
  | recorded (ref : BidRef)
  /-- A bid was closed. -/
  | withdrawn (bid : Bid)
  /-- There is no bid to close. -/
  | refused (error : BookError)
deriving DecidableEq, Repr

namespace Book

/-- Performs a command. -/
def step (b : Book) : BookCommand → BookResponse × Book
  | .record tick depositor amount time =>
    let recorded := b.record tick depositor amount time
    (.recorded recorded.1, recorded.2)
  | .withdraw ref =>
    match b.withdraw ref with
    | .ok (bid, b) => (.withdrawn bid, b)
    | .error e => (.refused e, b)

/-- Performs commands in order; answers the responses in order and the last book. -/
def run (b : Book) : List BookCommand → List BookResponse × Book
  | [] => ([], b)
  | command :: commands =>
    let (response, b) := b.step command
    let (responses, b) := run b commands
    (response :: responses, b)

end Book

/-- What the answers of a book tell. -/
@[ext]
structure BidLog where
  /-- The bids as they were recorded, each under the handle that was answered, oldest first. -/
  entries : List (BidRef × Bid)
  /-- The handles of the bids that were closed, in the order of their closing. -/
  closed : List BidRef
deriving DecidableEq

namespace BidLog

/-- Nothing has been recorded. -/
def empty : BidLog := ⟨[], []⟩

/-- The handles that were answered. -/
def handles (log : BidLog) : List BidRef := log.entries.map Prod.fst

/-- The bid of an entry with its flag as the log has it. -/
def current (log : BidLog) (e : BidRef × Bid) : Bid :=
  { e.2 with withdrawn := decide (e.1 ∈ log.closed) }

/-- The log after one more command and its answer. The tick of a bid is that of the command; only
the position is taken from the handle. -/
def note (log : BidLog) : BookCommand → BookResponse → BidLog
  | .record tick depositor amount time, .recorded ref =>
    { log with
      entries := log.entries ++ [(ref, ⟨tick, ref.index, depositor, amount, false, time⟩)] }
  | .withdraw ref, .withdrawn _ => { log with closed := log.closed ++ [ref] }
  | _, _ => log

/-- The log that some commands and their answers tell. -/
def ofAnswers (answered : List (BookCommand × BookResponse)) : BidLog :=
  answered.foldl (fun log c => log.note c.1 c.2) empty

/-- A recording adds its handle. -/
theorem handles_note_record (log : BidLog) (tick : Tick) (depositor : Account) (amount : Amount)
    (time : Timestamp) (ref : BidRef) :
    (log.note (.record tick depositor amount time) (.recorded ref)).handles =
      log.handles ++ [ref] :=
  List.map_append

/-- The bid of an entry is active unless its handle was closed. -/
theorem current_active_iff {log : BidLog} {e : BidRef × Bid} :
    (log.current e).withdrawn = false ↔ e.1 ∉ log.closed := decide_eq_false_iff_not

end BidLog

namespace Book

variable {b : Book} {log : BidLog} {ref : BidRef} {bid : Bid}

/-! ## Book and log -/

/-- The handles of a book find what the log has, and nothing else. -/
structure Keeps (b : Book) (log : BidLog) : Prop where
  /-- No handle was answered twice. -/
  nodup : log.handles.Nodup
  /-- A handle that was answered is the one that its bid carries, and finds that bid. -/
  found : ∀ e ∈ log.entries, e.2.ref = e.1 ∧ b.get? e.1 = some (log.current e)
  /-- No other handle finds a bid, whatever its position. -/
  missing : ∀ ref, ref ∉ log.handles → b.get? ref = none
  /-- What was closed had been recorded. -/
  recorded : ∀ ref ∈ log.closed, ref ∈ log.handles
  /-- Bids are recorded active. -/
  fresh : ∀ e ∈ log.entries, e.2.withdrawn = false
  /-- The size is the number of recordings, as far as 64 bits can tell. -/
  size : b.size = if log.entries.length < maxSize then log.entries.length else maxSize

/-- Everything that can be asked of a book is decided by the log. -/
structure Refines (b : Book) (log : BidLog) : Prop extends b.Keeps log where
  /-- Closing an active bid answers the closed bid. -/
  withdraw_active : ∀ e ∈ log.entries, e.1 ∉ log.closed →
    b.step (.withdraw e.1) = (.withdrawn e.2.close, b.close e.1)
  /-- It changes that bid in its place, and nothing else. -/
  close_active : ∀ e ∈ log.entries, e.1 ∉ log.closed →
    (b.close e.1).bids = (b.bids.map fun x => if x.ref = e.1 then x.close else x) ∧
      (b.close e.1).size = b.size ∧
      ∀ ref, (b.close e.1).get? ref = if e.1 = ref then some e.2.close else b.get? ref
  /-- Closing it again is refused and changes nothing. -/
  withdraw_closed : ∀ ref ∈ log.closed,
    b.step (.withdraw ref) = (.refused (.alreadyWithdrawn ref), b)
  /-- So is closing what was never recorded. -/
  withdraw_missing : ∀ ref, ref ∉ log.handles →
    b.step (.withdraw ref) = (.refused (.notFound ref), b)
  /-- The bids listed are those recorded, each once. -/
  bids_perm : b.bids.Perm (log.entries.map log.current)
  /-- They ascend by tick and position. -/
  bids_sorted : b.bids.Pairwise Bid.Before
  /-- The bids on both sides of a tick make up the list. -/
  sides : ∀ t, b.bidsBelow t ++ b.bidsAtOrAbove t = b.bids ∧
    (∀ bid ∈ b.bidsBelow t, bid.tick < t) ∧ ∀ bid ∈ b.bidsAtOrAbove t, t ≤ bid.tick
  /-- The ticks listed descend. -/
  ticks_sorted : b.ticksDescending.Pairwise fun s t => t < s
  /-- They are those of the active bids. -/
  mem_ticks : ∀ t, t ∈ b.ticksDescending ↔ ∃ e ∈ log.entries, e.2.tick = t ∧ e.1 ∉ log.closed
  /-- The last of them is the lowest one. -/
  lowest : b.lowestActiveTick? = b.ticksDescending.getLast?
  /-- Some bid is active exactly if some entry is. -/
  hasActive : b.hasActive = true ↔ ∃ e ∈ log.entries, e.1 ∉ log.closed

/-- The empty book keeps the empty log. -/
theorem keeps_empty : empty.Keeps .empty where
  nodup := List.nodup_nil
  found _ he := nomatch he
  missing _ _ := rfl
  recorded _ hr := nomatch hr
  fresh _ he := nomatch he
  size := rfl

/-- The log knows what each handle finds. -/
theorem Keeps.get?_eq_some_iff (h : b.Keeps log) :
    b.get? ref = some bid ↔ ∃ e ∈ log.entries, e.1 = ref ∧ log.current e = bid := by
  constructor
  · intro hget
    have hmem : ref ∈ log.handles := by
      by_contra hnot
      rw [h.missing ref hnot] at hget
      cases hget
    obtain ⟨e, he, rfl⟩ := List.mem_map.1 hmem
    exact ⟨e, he, rfl, Option.some.inj ((h.found e he).2.symm.trans hget)⟩
  · rintro ⟨e, he, rfl, rfl⟩
    exact (h.found e he).2

/-- A book that keeps a log has every bid under its handle. -/
theorem Keeps.indexed (h : b.Keeps log) : b.Indexed := by
  intro ref bid hget
  obtain ⟨e, he, rfl, rfl⟩ := h.get?_eq_some_iff.1 hget
  exact (h.found e he).1

/-- Its bids are those of the log, as they are now. -/
theorem Keeps.mem_bids_iff (h : b.Keeps log) :
    bid ∈ b.bids ↔ ∃ e ∈ log.entries, log.current e = bid := by
  rw [mem_bids]
  constructor
  · rintro ⟨ref, hget⟩
    obtain ⟨e, he, -, hcurrent⟩ := h.get?_eq_some_iff.1 hget
    exact ⟨e, he, hcurrent⟩
  · rintro ⟨e, he, hcurrent⟩
    exact ⟨e.1, h.get?_eq_some_iff.2 ⟨e, he, rfl, hcurrent⟩⟩

/-! ## One command -/

/-- The withdrawal of an active bid answers the closed bid. -/
theorem Keeps.step_withdraw_active (h : b.Keeps log) {e : BidRef × Bid} (he : e ∈ log.entries)
    (hactive : e.1 ∉ log.closed) :
    b.step (.withdraw e.1) = (.withdrawn e.2.close, b.close e.1) := by
  have hopen : (log.current e).withdrawn = false := BidLog.current_active_iff.2 hactive
  simp only [step, withdraw, (h.found e he).2, hopen, Bool.false_eq_true, if_false]
  rfl

/-- That of a closed bid is refused. -/
theorem Keeps.step_withdraw_closed (h : b.Keeps log) (href : ref ∈ log.closed) :
    b.step (.withdraw ref) = (.refused (.alreadyWithdrawn ref), b) := by
  obtain ⟨e, he, rfl⟩ := List.mem_map.1 (h.recorded ref href)
  have hclosed : (log.current e).withdrawn = true := decide_eq_true href
  simp only [step, withdraw, (h.found e he).2, hclosed, if_true]

/-- And so is one without a bid. -/
theorem Keeps.step_withdraw_missing (h : b.Keeps log) (href : ref ∉ log.handles) :
    b.step (.withdraw ref) = (.refused (.notFound ref), b) := by
  simp only [step, withdraw, h.missing ref href]

/-- Closing a bid leaves the number of bids as it is. -/
theorem size_close (b : Book) (ref : BidRef) : (b.close ref).size = b.size := by
  unfold close
  split <;> rfl

/-- A recorded bid gets a new handle, and becomes the last entry. -/
theorem Keeps.record (h : b.Keeps log) (tick : Tick) (depositor : Account) (amount : Amount)
    (time : Timestamp) :
    (b.record tick depositor amount time).2.Keeps
      (log.note (.record tick depositor amount time)
        (.recorded (b.record tick depositor amount time).1)) := by
  have hnew : (b.record tick depositor amount time).1 ∉ log.handles := by
    intro hmem
    obtain ⟨e, he, heq⟩ := List.mem_map.1 hmem
    have hnone := b.get?_record_new tick depositor amount time
    rw [← heq, (h.found e he).2] at hnone
    cases hnone
  have hunclosed : (b.record tick depositor amount time).1 ∉ log.closed :=
    fun hmem => hnew (h.recorded _ hmem)
  constructor
  case nodup =>
    rw [BidLog.handles_note_record, List.nodup_append]
    refine ⟨h.nodup, List.nodup_singleton _, fun r hr r' hr' heq => ?_⟩
    rw [List.mem_singleton] at hr'
    exact hnew (hr' ▸ heq ▸ hr)
  case found =>
    intro e he
    rw [get?_record]
    rcases List.mem_append.1 he with he | he
    · obtain ⟨href, hget⟩ := h.found e he
      have hne : e.1 ≠ (b.record tick depositor amount time).1 :=
        fun heq => hnew (heq ▸ List.mem_map_of_mem he)
      rw [if_neg hne]
      exact ⟨href, hget⟩
    · obtain rfl := List.mem_singleton.1 he
      refine ⟨rfl, ?_⟩
      rw [if_pos rfl, BidLog.current, BidLog.note, decide_eq_false hunclosed]
      rfl
  case missing =>
    intro ref href
    rw [BidLog.handles_note_record, List.mem_append, List.mem_singleton, not_or] at href
    obtain ⟨hold, hne⟩ := href
    rw [get?_record, if_neg hne]
    exact h.missing ref hold
  case recorded =>
    intro ref href
    rw [BidLog.handles_note_record]
    exact List.mem_append_left _ (h.recorded ref href)
  case fresh =>
    intro e he
    rcases List.mem_append.1 he with he | he
    · exact h.fresh e he
    · obtain rfl := List.mem_singleton.1 he
      rfl
  case size =>
    have hsize := h.size
    simp only [BidLog.note, List.length_append, List.length_singleton]
    show (if b.size < maxSize then b.size + 1 else b.size) = _
    split at hsize <;> split <;> split <;> omega

/-- A bid that is closed is noted, and the other entries are as before. -/
theorem Keeps.close (h : b.Keeps log) {e : BidRef × Bid} (he : e ∈ log.entries) :
    (b.close e.1).Keeps { log with closed := log.closed ++ [e.1] } := by
  constructor
  case found =>
    intro e' he'
    obtain ⟨href, hget⟩ := h.found e' he'
    refine ⟨href, ?_⟩
    rw [get?_close]
    split
    · rename_i heq
      rw [heq, hget, Option.map_some, BidLog.current, BidLog.current, Bid.close]
      simp
    · rename_i hne
      rw [hget, BidLog.current, BidLog.current]
      simp [Ne.symm hne]
  case missing =>
    intro ref href
    rw [get?_close, if_neg]
    · exact h.missing ref href
    · rintro rfl
      exact href (List.mem_map_of_mem he)
  case recorded =>
    intro ref href
    rcases List.mem_append.1 href with href | href
    · exact h.recorded ref href
    · rw [List.mem_singleton.1 href]
      exact List.mem_map_of_mem he
  case size =>
    rw [size_close]
    exact h.size
  case nodup => exact h.nodup
  case fresh => exact h.fresh

/-- A command changes the book as its answer says. -/
theorem Keeps.step (h : b.Keeps log) (command : BookCommand) :
    (b.step command).2.Keeps (log.note command (b.step command).1) := by
  cases command with
  | record tick depositor amount time => exact h.record tick depositor amount time
  | withdraw ref =>
    by_cases href : ref ∈ log.handles
    · obtain ⟨e, he, rfl⟩ := List.mem_map.1 href
      by_cases hclosed : e.1 ∈ log.closed
      · rw [h.step_withdraw_closed hclosed]
        exact h
      · rw [h.step_withdraw_active he hclosed]
        exact h.close he
    · rw [h.step_withdraw_missing href]
      exact h

/-! ## The result -/

/-- What the handles find decides the rest. -/
theorem Keeps.refines (h : b.Keeps log) : b.Refines log where
  toKeeps := h
  withdraw_active _ he hactive := h.step_withdraw_active he hactive
  close_active e he hactive := by
    have hget := (h.found e he).2
    refine ⟨h.indexed.bids_close hget, size_close b e.1, fun ref => ?_⟩
    rw [get?_close, hget]
    rfl
  withdraw_closed _ href := h.step_withdraw_closed href
  withdraw_missing _ href := h.step_withdraw_missing href
  bids_perm := by
    have hentries : (log.entries.map log.current).Nodup := by
      have hrefs : ((log.entries.map log.current).map Bid.ref).Nodup := by
        rw [List.map_map]
        convert h.nodup using 1
        exact List.map_congr_left fun e he => (h.found e he).1
      exact hrefs.of_map
    refine (List.perm_ext_iff_of_nodup h.indexed.nodup_bids hentries).2 fun bid => ?_
    rw [h.mem_bids_iff, List.mem_map]
  bids_sorted := h.indexed.bids_sorted
  sides t := ⟨b.bidsBelow_append t, h.indexed.placed.tick_lt, h.indexed.placed.le_tick⟩
  ticks_sorted := b.ticksDescending_sorted
  mem_ticks t := by
    rw [h.indexed.placed.mem_ticksDescending]
    constructor
    · rintro ⟨bid, hb, rfl, hactive⟩
      obtain ⟨e, he, rfl⟩ := h.mem_bids_iff.1 hb
      exact ⟨e, he, rfl, BidLog.current_active_iff.1 hactive⟩
    · rintro ⟨e, he, rfl, hactive⟩
      exact ⟨log.current e, h.mem_bids_iff.2 ⟨e, he, rfl⟩, rfl, BidLog.current_active_iff.2 hactive⟩
  lowest := b.lowestActiveTick?_eq_getLast?
  hasActive := by
    rw [hasActive_iff]
    constructor
    · rintro ⟨bid, hb, hactive⟩
      obtain ⟨e, he, rfl⟩ := h.mem_bids_iff.1 hb
      exact ⟨e, he, BidLog.current_active_iff.1 hactive⟩
    · rintro ⟨e, he, hactive⟩
      exact ⟨log.current e, h.mem_bids_iff.2 ⟨e, he, rfl⟩, BidLog.current_active_iff.2 hactive⟩

/-- Through commands, the book stays with the log of its answers. -/
theorem Keeps.run {commands : List BookCommand} (h : b.Keeps log) :
    (b.run commands).2.Keeps
      ((commands.zip (b.run commands).1).foldl (fun log c => log.note c.1 c.2) log) := by
  induction commands generalizing b log with
  | nil => exact h
  | cons command commands ih => exact ih (h.step command)

/-- After any commands on the empty book, everything that can be asked of the book is decided by
the log that its answers tell. -/
theorem refines_log (commands : List BookCommand) :
    (empty.run commands).2.Refines (.ofAnswers (commands.zip (empty.run commands).1)) :=
  keeps_empty.run.refines

end Book

end BatchAuction
