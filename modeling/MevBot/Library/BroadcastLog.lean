import Mathlib.Data.List.Sublists
import Mathlib.Logic.Function.Iterate

/-! # Reading a bounded broadcast

    A sender appends to a log of which the channel retains the last `capacity`
    messages; each reader has its own cursor.  A reader that has fallen behind
    what is retained is told so once and moved to the oldest retained message.
    Whatever the order of sends and reads, a reader gets each message at most
    once and in order, and has missed none of those still retained before its
    cursor (`Followed`); reading on undisturbed it reaches the end
    (`reads_to_end`), and then has all that is retained. -/

namespace BroadcastLog

variable {α : Type}

/-- The position of the oldest message retained. -/
def oldest (capacity : Nat) (sent : List α) : Nat := sent.length - capacity

/-- What a read tells. -/
inductive Told (α : Type) where
  /-- Nothing new. -/
  | empty
  /-- The reader has been moved over messages no longer retained. -/
  | lagged (skipped : Nat)
  /-- The next message. -/
  | message (x : α)

/-- One read at a cursor: the new cursor and what it tells. -/
def read (capacity : Nat) (sent : List α) (next : Nat) : Nat × Told α :=
  if next < oldest capacity sent then
    (oldest capacity sent, .lagged (oldest capacity sent - next))
  else
    match sent[next]? with
    | some x => (next + 1, .message x)
    | none => (next, .empty)

/-- The message told, if any. -/
def Told.toList : Told α → List α
  | .message x => [x]
  | _ => []

/-- The messages a read moves the reader over. -/
def Told.skipped : Told α → Nat
  | .lagged n => n
  | _ => 0

/-! ## What a reader has -/

/-- A reader has, in order and at most once each, messages sent before its cursor; all of
    them but those it was moved over, which are no longer retained. -/
structure Followed (capacity : Nat) (sent : List α) (next missed : Nat) (got : List α) :
    Prop where
  /-- Some early messages, and all of a stretch that reaches back to the oldest retained. -/
  split : ∃ early start, start ≤ next ∧ start ≤ oldest capacity sent ∧
    early.Sublist (sent.take start) ∧ got = early ++ (sent.take next).drop start
  next_le : next ≤ sent.length
  count : got.length + missed = next

/-- At the start there is nothing to read. -/
theorem Followed.start (capacity : Nat) : Followed capacity ([] : List α) 0 0 [] :=
  ⟨⟨[], 0, Nat.le_refl _, Nat.zero_le _, List.Sublist.refl _, rfl⟩, Nat.le_refl _, rfl⟩

/-- A reader gets some of what was sent, in order. -/
theorem Followed.sublist {capacity : Nat} {sent got : List α} {next missed : Nat}
    (h : Followed capacity sent next missed got) : got.Sublist (sent.take next) := by
  obtain ⟨early, start, hle, -, hearly, rfl⟩ := h.split
  have htake : (sent.take next).take start = sent.take start := by
    rw [List.take_take, Nat.min_eq_left hle]
  calc (early ++ (sent.take next).drop start).Sublist
        ((sent.take next).take start ++ (sent.take next).drop start) :=
      (htake ▸ hearly).append (List.Sublist.refl _)
    _ = sent.take next := List.take_append_drop start (sent.take next)

/-- A message more does not concern what was read. -/
theorem Followed.send {capacity : Nat} {sent got : List α} {next missed : Nat}
    (h : Followed capacity sent next missed got) (x : α) :
    Followed capacity (sent ++ [x]) next missed got := by
  obtain ⟨early, start, hle, hold, hearly, hgot⟩ := h.split
  have hlen : (sent ++ [x]).length = sent.length + 1 := by
    rw [List.length_append, List.length_singleton]
  refine ⟨⟨early, start, hle, ?_, ?_, ?_⟩, ?_, h.count⟩
  · rw [oldest] at hold ⊢
    omega
  · rw [List.take_append_of_le_length (hle.trans h.next_le)]
    exact hearly
  · rw [List.take_append_of_le_length h.next_le]
    exact hgot
  · rw [hlen]
    exact Nat.le_succ_of_le h.next_le

/-- **ONE READ** keeps what the reader has in order. -/
theorem Followed.read {capacity : Nat} {sent got : List α} {next missed : Nat}
    (h : Followed capacity sent next missed got) :
    Followed capacity sent (read capacity sent next).1
      (missed + (read capacity sent next).2.skipped)
      (got ++ (read capacity sent next).2.toList) := by
  have hcount := h.count
  rw [BroadcastLog.read]
  split
  · rename_i hlag
    refine ⟨⟨got, oldest capacity sent, Nat.le_refl _, Nat.le_refl _, ?_, ?_⟩, Nat.sub_le _ _, ?_⟩
    · exact h.sublist.trans (List.take_sublist_take_left (Nat.le_of_lt hlag))
    · rw [List.drop_take_self]
      rfl
    · show (got ++ []).length + (missed + (oldest capacity sent - next)) = oldest capacity sent
      rw [List.append_nil]
      omega
  · split
    · rename_i x hx
      obtain ⟨hlt, rfl⟩ := List.getElem?_eq_some_iff.mp hx
      obtain ⟨early, start, hle, hold, hearly, rfl⟩ := h.split
      refine ⟨⟨early, start, Nat.le_succ_of_le hle, hold, hearly, ?_⟩, hlt, ?_⟩
      · show early ++ (sent.take next).drop start ++ [sent[next]] = _
        rw [List.append_assoc, List.take_add_one, hx, List.drop_append_of_le_length]
        · rfl
        · rw [List.length_take, Nat.min_eq_left h.next_le]
          exact hle
      · show (_ ++ [sent[next]]).length + missed = next + 1
        rw [List.length_append, List.length_singleton]
        omega
    · show Followed capacity sent next missed (got ++ [])
      rw [List.append_nil]
      exact h

/-- A reader that was never moved has every message before its cursor. -/
theorem Followed.complete {capacity : Nat} {sent got : List α} {next : Nat}
    (h : Followed capacity sent next 0 got) : got = sent.take next := by
  refine h.sublist.eq_of_length ?_
  rw [List.length_take, Nat.min_eq_left h.next_le]
  exact h.count

/-- **AT THE END**, a reader has everything retained, behind some earlier messages. -/
theorem Followed.at_end {capacity : Nat} {sent got : List α} {missed : Nat}
    (h : Followed capacity sent sent.length missed got) :
    ∃ early start, start ≤ oldest capacity sent ∧ early.Sublist (sent.take start) ∧
      got = early ++ sent.drop start := by
  obtain ⟨early, start, -, hold, hearly, hgot⟩ := h.split
  rw [List.take_length] at hgot
  exact ⟨early, start, hold, hearly, hgot⟩

/-! ## Catching up -/

/-- A reader that has not lagged moves on by one message. -/
theorem read_retained {capacity : Nat} {sent : List α} {next : Nat}
    (hold : oldest capacity sent ≤ next) (hle : next ≤ sent.length) :
    (read capacity sent next).1 = min (next + 1) sent.length := by
  rw [read, if_neg (Nat.not_lt.mpr hold)]
  by_cases hlt : next < sent.length
  · rw [List.getElem?_eq_getElem hlt, Nat.min_eq_left hlt]
  · rw [List.getElem?_eq_none (Nat.not_lt.mp hlt)]
    dsimp only
    omega

/-- So it does any number of times. -/
theorem reads_retained {capacity : Nat} {sent : List α} {next : Nat}
    (hold : oldest capacity sent ≤ next) (hle : next ≤ sent.length) (reads : Nat) :
    (fun n => (read capacity sent n).1)^[reads] next = min (next + reads) sent.length := by
  induction reads generalizing next with
  | zero => exact (Nat.min_eq_left hle).symm
  | succ reads ih =>
      have hread := read_retained hold hle
      have hnext : (read capacity sent next).1 = min (next + 1) sent.length := hread
      rw [Function.iterate_succ_apply, hnext, ih]
      · omega
      · exact Nat.le_min.mpr ⟨Nat.le_succ_of_le hold, Nat.sub_le _ _⟩
      · exact Nat.min_le_right _ _

/-- **READING ON UNDISTURBED** takes a reader to the end, one read a message and one more
    when it lags. -/
theorem reads_to_end {capacity : Nat} {sent : List α} {next reads : Nat}
    (hle : next ≤ sent.length)
    (hreads : sent.length < reads + max next (oldest capacity sent)) :
    (fun n => (read capacity sent n).1)^[reads] next = sent.length := by
  by_cases hlag : next < oldest capacity sent
  · rw [Nat.max_eq_right (Nat.le_of_lt hlag)] at hreads
    cases reads with
    | zero =>
        rw [oldest] at hreads
        omega
    | succ reads =>
        rw [Function.iterate_succ_apply,
          show (read capacity sent next).1 = oldest capacity sent by rw [read, if_pos hlag],
          reads_retained (Nat.le_refl _) (Nat.sub_le _ _)]
        omega
  · rw [reads_retained (Nat.not_lt.mp hlag) hle]
    omega

end BroadcastLog
