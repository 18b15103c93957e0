import Mathlib.Data.List.Count

/-! # A bounded queue with tickets

    Items wait in a queue of bounded capacity; a full queue drops its oldest
    item to take a new one, and a sweep takes out the items it can resolve.
    Every item gets the number of its arrival as a TICKET, so that equal items
    stay distinct.  `Accounted` is the conservation law: each ticket issued is in
    exactly one of three places, and there exactly once. -/

namespace TicketQueue

variable {α β : Type}

/-- The queue with its books: `issued` lists the items by ticket. -/
structure Books (α β : Type) where
  issued : List α
  waiting : List (Nat × α)
  resolved : List (Nat × β)
  evicted : List Nat

/-- Empty books. -/
def Books.empty : Books α β := ⟨[], [], [], []⟩

/-- The ticket a full queue drops. -/
def dropped (capacity : Nat) (waiting : List (Nat × α)) : List Nat :=
  if waiting.length ≥ capacity then (waiting.head?.map (·.1)).toList else []

/-- What the queue keeps when a new item comes. -/
def kept {γ : Type} (capacity : Nat) (waiting : List γ) : List γ :=
  if waiting.length ≥ capacity then waiting.tail else waiting

/-- A new item. -/
def Books.enqueue (capacity : Nat) (t : Books α β) (x : α) : Books α β :=
  { t with
    issued := t.issued ++ [x]
    waiting := kept capacity t.waiting ++ [(t.issued.length, x)]
    evicted := t.evicted ++ dropped capacity t.waiting }

/-- A sweep: what `verdict` decides leaves the queue. -/
def Books.sweep (verdict : α → Option β) (t : Books α β) : Books α β :=
  { t with
    waiting := t.waiting.filter fun w => (verdict w.2).isNone
    resolved := t.resolved ++ t.waiting.filterMap fun w => (verdict w.2).map (w.1, ·) }

/-! ## Conservation -/

/-- How often a ticket is in the books. -/
def Books.places (t : Books α β) (i : Nat) : Nat :=
  (t.waiting.map (·.1)).count i + (t.resolved.map (·.1)).count i + t.evicted.count i

/-- The books are in order; `Fits x o` says `o` is a verdict on `x`. -/
structure Accounted (Fits : α → β → Prop) (t : Books α β) : Prop where
  once : ∀ i, t.places i = if i < t.issued.length then 1 else 0
  items : ∀ w ∈ t.waiting, t.issued[w.1]? = some w.2
  oldestFirst : (t.waiting.map (·.1)).Pairwise (· < ·)
  verdicts : ∀ r ∈ t.resolved, ∃ x, t.issued[r.1]? = some x ∧ Fits x r.2

theorem Accounted.empty (Fits : α → β → Prop) : Accounted Fits Books.empty where
  once := fun i => by simp [Books.places, Books.empty]
  items := fun w hw => absurd hw List.not_mem_nil
  oldestFirst := List.Pairwise.nil
  verdicts := fun r hr => absurd hr List.not_mem_nil

/-- Dropping the oldest splits the queue. -/
theorem count_kept (capacity : Nat) (waiting : List (Nat × α)) (i : Nat) :
    ((kept capacity waiting).map (·.1)).count i + (dropped capacity waiting).count i =
      (waiting.map (·.1)).count i := by
  unfold kept dropped
  split
  · cases waiting with
    | nil => rfl
    | cons w ws =>
        simp only [List.tail_cons, List.head?_cons, Option.map_some, Option.toList_some,
          List.map_cons, List.count_cons, List.count_nil]
        omega
  · rw [List.count_nil, Nat.add_zero]

theorem mem_of_mem_kept {capacity : Nat} {waiting : List (Nat × α)} {w : Nat × α}
    (h : w ∈ kept capacity waiting) : w ∈ waiting := by
  rw [kept] at h
  split at h
  · exact List.mem_of_mem_tail h
  · exact h

theorem kept_sublist (capacity : Nat) (waiting : List (Nat × α)) :
    (kept capacity waiting).Sublist waiting := by
  rw [kept]
  split
  · exact List.tail_sublist waiting
  · exact List.Sublist.refl waiting

/-- Every waiting ticket has been issued. -/
theorem Accounted.lt_issued {Fits : α → β → Prop} {t : Books α β} (h : Accounted Fits t)
    {w : Nat × α} (hw : w ∈ t.waiting) : w.1 < t.issued.length :=
  (List.getElem?_eq_some_iff.mp (h.items w hw)).1

theorem Accounted.enqueue {Fits : α → β → Prop} {t : Books α β} (h : Accounted Fits t)
    (capacity : Nat) (x : α) : Accounted Fits (t.enqueue capacity x) := by
  refine ⟨?_, ?_, ?_, ?_⟩
  · intro i
    -- an old ticket moves from waiting to dropped at most; the new one starts waiting
    have hsplit := count_kept capacity t.waiting i
    have honce := h.once i
    simp only [Books.places] at honce
    simp only [Books.places, Books.enqueue, List.map_append, List.map_cons, List.map_nil,
      List.count_append, List.count_cons, List.count_nil, List.length_append, List.length_cons,
      List.length_nil, beq_iff_eq]
    split at honce
    · rw [if_neg (by omega), if_pos (by omega)]
      omega
    · by_cases hi : t.issued.length = i
      · rw [if_pos hi, if_pos (by omega)]
        omega
      · rw [if_neg hi, if_neg (by omega)]
        omega
  · intro w hw
    rcases List.mem_append.mp hw with hw | hw
    · have hlt := h.lt_issued (mem_of_mem_kept hw)
      show (t.issued ++ [x])[w.1]? = some w.2
      rw [List.getElem?_append_left hlt]
      exact h.items w (mem_of_mem_kept hw)
    · rw [List.mem_singleton.mp hw]
      exact List.getElem?_concat_length
  -- the new ticket is the highest, as all issued before it are lower
  · show ((kept capacity t.waiting ++ [(t.issued.length, x)]).map (·.1)).Pairwise (· < ·)
    rw [List.map_append, List.pairwise_append]
    refine ⟨h.oldestFirst.sublist ((kept_sublist capacity t.waiting).map _),
      List.pairwise_singleton _ _, ?_⟩
    intro i hi j hj
    obtain ⟨w, hw, rfl⟩ := List.mem_map.mp hi
    rw [List.mem_singleton.mp hj]
    exact h.lt_issued (mem_of_mem_kept hw)
  · intro r hr
    obtain ⟨y, hy, hfits⟩ := h.verdicts r hr
    refine ⟨y, ?_, hfits⟩
    show (t.issued ++ [x])[r.1]? = some y
    rw [List.getElem?_append_left (List.getElem?_eq_some_iff.mp hy).1]
    exact hy

/-- A sweep splits the queue. -/
theorem count_sweep (verdict : α → Option β) (waiting : List (Nat × α)) (i : Nat) :
    ((waiting.filter fun w => (verdict w.2).isNone).map (·.1)).count i +
        ((waiting.filterMap fun w => (verdict w.2).map (w.1, ·)).map (·.1)).count i =
      (waiting.map (·.1)).count i := by
  induction waiting with
  | nil => rfl
  | cons w ws ih =>
      cases hw : verdict w.2 with
      | none =>
          rw [List.filter_cons_of_pos (by rw [hw]; rfl), List.filterMap_cons_none (by rw [hw]; rfl)]
          simp only [List.map_cons, List.count_cons]
          omega
      | some o =>
          rw [List.filter_cons_of_neg (by rw [hw]; exact Bool.false_ne_true),
            List.filterMap_cons_some (by rw [hw]; rfl)]
          simp only [List.map_cons, List.count_cons]
          omega

theorem Accounted.sweep {Fits : α → β → Prop} {t : Books α β} (h : Accounted Fits t)
    (verdict : α → Option β) (hfits : ∀ x o, verdict x = some o → Fits x o) :
    Accounted Fits (t.sweep verdict) := by
  refine ⟨?_, ?_, ?_, ?_⟩
  · intro i
    have hsplit := count_sweep verdict t.waiting i
    refine Eq.trans ?_ (h.once i)
    simp only [Books.places, Books.sweep, List.map_append, List.count_append]
    omega
  · intro w hw
    exact h.items w (List.mem_filter.mp hw).1
  · exact h.oldestFirst.sublist (List.filter_sublist.map _)
  · intro r hr
    rcases List.mem_append.mp hr with hr | hr
    · exact h.verdicts r hr
    · obtain ⟨w, hw, hr⟩ := List.mem_filterMap.mp hr
      obtain ⟨o, ho, rfl⟩ := Option.map_eq_some_iff.mp hr
      exact ⟨w.2, h.items w hw, hfits w.2 o ho⟩

/-- The three places together hold the tickets issued. -/
theorem Accounted.perm_range {Fits : α → β → Prop} {t : Books α β} (h : Accounted Fits t) :
    (t.waiting.map (·.1) ++ t.resolved.map (·.1) ++ t.evicted).Perm
      (List.range t.issued.length) := by
  refine List.perm_iff_count.mpr ?_
  intro i
  rw [List.count_append, List.count_append, List.count_range]
  exact h.once i

/-- No ticket is resolved twice. -/
theorem Accounted.resolved_nodup {Fits : α → β → Prop} {t : Books α β} (h : Accounted Fits t) :
    (t.resolved.map (·.1)).Nodup := by
  have hall := h.perm_range.nodup_iff.mpr List.nodup_range
  exact (List.nodup_append.mp (List.nodup_append.mp hall).1).2.1

/-- What waits and what is resolved have been issued. -/
theorem Accounted.balance {Fits : α → β → Prop} {t : Books α β} (h : Accounted Fits t) :
    t.waiting.length + t.resolved.length ≤ t.issued.length := by
  have hlen := h.perm_range.length_eq
  rw [List.length_append, List.length_append, List.length_map, List.length_map,
    List.length_range] at hlen
  omega

end TicketQueue
