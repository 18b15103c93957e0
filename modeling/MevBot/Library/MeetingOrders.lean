import Mathlib.Data.List.Basic

/-! # Schedules up to the orders that matter

    Parties that share a state take turns.  Every turn meets others at some
    meeting points, and turns that have none in common commute.  Then a schedule
    matters only through the orders in which the turns come to each point: two
    schedules with the same orders end in the same state (`run_eq`). -/

namespace MeetingOrders

variable {σ ε κ : Type}

/-- Two turns without a meeting point in common. -/
def Apart (meets : κ → ε → Bool) (a b : ε) : Prop :=
  ∀ k, meets k a = true → meets k b = false

theorem Apart.symm {meets : κ → ε → Bool} {a b : ε} (h : Apart meets a b) :
    Apart meets b a := by
  intro k hb
  refine Bool.eq_false_iff.mpr fun ha => ?_
  rw [h k ha] at hb
  cases hb

theorem Apart.elim {meets : κ → ε → Bool} {a b : ε} {P : Prop} (h : Apart meets a b) (k : κ)
    (ha : meets k a = true) (hb : meets k b = true) : P :=
  Bool.noConfusion ((h k ha).symm.trans hb)

/-- Turns that are apart commute, and every turn is at some point. -/
structure Commuting (step : σ → ε → σ) (meets : κ → ε → Bool) : Prop where
  comm : ∀ s a b, Apart meets a b → step (step s a) b = step (step s b) a
  somewhere : ∀ a, ∃ k, meets k a = true

/-- The same turns come to each point, in the same order. -/
def SameOrders (meets : κ → ε → Bool) (xs ys : List ε) : Prop :=
  ∀ k, xs.filter (meets k) = ys.filter (meets k)

variable {step : σ → ε → σ} {meets : κ → ε → Bool}

/-- A turn commutes with a stretch of turns it is apart from. -/
theorem Commuting.past (h : Commuting step meets) {a : ε} {before : List ε}
    (hbefore : ∀ b ∈ before, Apart meets b a) (s : σ) :
    step (before.foldl step s) a = before.foldl step (step s a) := by
  induction before generalizing s with
  | nil => rfl
  | cons b before ih =>
      obtain ⟨hb, hrest⟩ := List.forall_mem_cons.mp hbefore
      rw [List.foldl_cons, List.foldl_cons, ih hrest, h.comm s b a hb]

/-- Two stretches of turns that are apart commute. -/
theorem Commuting.stretches (h : Commuting step meets) {xs ys : List ε}
    (hapart : ∀ x ∈ xs, ∀ y ∈ ys, Apart meets x y) (s : σ) :
    ys.foldl step (xs.foldl step s) = xs.foldl step (ys.foldl step s) := by
  induction ys generalizing s with
  | nil => rfl
  | cons y ys ih =>
      have hy : ∀ x ∈ xs, Apart meets x y := fun x hx => hapart x hx y List.mem_cons_self
      rw [List.foldl_cons, List.foldl_cons, h.past hy,
        ih fun x hx y' hy' => hapart x hx y' (List.mem_cons_of_mem y hy')]

/-- At a point where the first turn of one schedule comes first, so it does in the other. -/
theorem SameOrders.first {a : ε} {xs ys : List ε} (h : SameOrders meets (a :: xs) ys) {k : κ}
    (hk : meets k a = true) :
    ∃ before after, ys = before ++ a :: after ∧ ∀ b ∈ before, meets k b = false := by
  have hfilter := h k
  rw [List.filter_cons_of_pos hk] at hfilter
  obtain ⟨before, after, rfl, hnone, -, -⟩ := List.filter_eq_cons_iff.mp hfilter.symm
  exact ⟨before, after, rfl, fun b hb => Bool.eq_false_iff.mpr (hnone b hb)⟩

/-- **THE FIRST TURN OF ONE SCHEDULE CAN COME FIRST IN THE OTHER**: what stands before it
    there is apart from it. -/
theorem SameOrders.split (hsomewhere : ∀ a, ∃ k, meets k a = true) {a : ε} {xs ys : List ε}
    (h : SameOrders meets (a :: xs) ys) :
    ∃ before after, ys = before ++ a :: after ∧ (∀ b ∈ before, Apart meets b a) ∧
      SameOrders meets xs (before ++ after) := by
  obtain ⟨k, hk⟩ := hsomewhere a
  obtain ⟨before, after, rfl, hnone⟩ := h.first hk
  have hapart : ∀ b ∈ before, Apart meets b a := by
    intro b hb k' hb'
    refine Bool.eq_false_iff.mpr fun ha' => ?_
    obtain ⟨before', after', heq, hnone'⟩ := h.first ha'
    -- whichever of the two stretches is longer, it has a turn it must not have
    rcases List.append_eq_append_iff.mp heq with ⟨more, rfl, -⟩ | ⟨more, rfl, hrest⟩
    · rw [hnone' b (List.mem_append_left _ hb)] at hb'
      cases hb'
    · cases more with
      | nil =>
          rw [List.append_nil] at hb
          rw [hnone' b hb] at hb'
          cases hb'
      | cons c more =>
          obtain ⟨rfl, -⟩ := List.cons.inj hrest
          rw [hnone a (List.mem_append_right _ List.mem_cons_self)] at hk
          cases hk
  refine ⟨before, after, rfl, hapart, ?_⟩
  intro k'
  have hfilter := h k'
  rw [List.filter_append] at hfilter ⊢
  cases ha : meets k' a with
  | true =>
      have hempty : before.filter (meets k') = [] := by
        refine List.filter_eq_nil_iff.mpr fun b hb hb' => ?_
        rw [hapart b hb k' hb'] at ha
        cases ha
      rw [List.filter_cons_of_pos ha, List.filter_cons_of_pos ha, hempty, List.nil_append]
        at hfilter
      rw [hempty, List.nil_append]
      exact (List.cons.inj hfilter).2
  | false =>
      rw [List.filter_cons_of_neg (Bool.eq_false_iff.mp ha),
        List.filter_cons_of_neg (Bool.eq_false_iff.mp ha)] at hfilter
      exact hfilter

/-- **ONLY THE ORDERS MATTER**: two schedules with the same order at every meeting point
    end in the same state. -/
theorem Commuting.run_eq (h : Commuting step meets) {xs ys : List ε}
    (hsame : SameOrders meets xs ys) (s : σ) : xs.foldl step s = ys.foldl step s := by
  induction xs generalizing ys s with
  | nil =>
      cases ys with
      | nil => rfl
      | cons y ys =>
          obtain ⟨k, hk⟩ := h.somewhere y
          have hfilter := hsame k
          rw [List.filter_cons_of_pos hk] at hfilter
          cases hfilter
  | cons a xs ih =>
      obtain ⟨before, after, rfl, hapart, hrest⟩ := hsame.split h.somewhere
      rw [List.foldl_cons, ih hrest, List.foldl_append, List.foldl_append, List.foldl_cons,
        h.past hapart]

end MeetingOrders
