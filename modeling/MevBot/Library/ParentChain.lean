import Mathlib.Combinatorics.Pigeonhole
import Mathlib.Data.Finset.Range

/-! # Climbing a parent function

    Every vertex has at most one parent.  Whoever climbs as many steps as there
    are vertices without running out of parents has reached a cycle
    (`climb_recurrent`), and from a vertex on a cycle one can climb forever. -/

namespace ParentChain

variable {V : Type} (parent : V → Option V)

/-- Climb `k` parents. -/
def climb : Nat → V → Option V
  | 0, v => some v
  | k + 1, v => (parent v).bind (climb k)

theorem climb_add (j k : Nat) (v : V) :
    climb parent (j + k) v = (climb parent j v).bind (climb parent k) := by
  induction j generalizing v with
  | zero => rw [Nat.zero_add, climb, Option.bind_some]
  | succ j ih =>
      rw [Nat.succ_add, climb, climb, Option.bind_assoc]
      exact Option.bind_congr fun u _ => ih u

/-- A climb passes through every height below it. -/
theorem exists_climb_le {j k : Nat} (hjk : j ≤ k) {v x : V} (h : climb parent k v = some x) :
    ∃ y, climb parent j v = some y ∧ climb parent (k - j) y = some x := by
  obtain ⟨d, rfl⟩ := Nat.exists_eq_add_of_le hjk
  rw [climb_add, Option.bind_eq_some_iff] at h
  rwa [Nat.add_sub_cancel_left]

/-- Climbs stay in a set closed under parents. -/
theorem climb_mem {s : Finset V} (hs : ∀ v u, parent v = some u → u ∈ s) {k : Nat} {v x : V}
    (hv : v ∈ s) (h : climb parent k v = some x) : x ∈ s := by
  induction k generalizing v with
  | zero =>
      obtain rfl := Option.some.inj h
      exact hv
  | succ k ih =>
      obtain ⟨u, hu, h⟩ := Option.bind_eq_some_iff.mp h
      exact ih (hs v u hu) h

/-- Where everyone has a parent, one can climb forever. -/
theorem exists_climb {p : V → Prop} (hp : ∀ v, p v → ∃ u, parent v = some u ∧ p u) (k : Nat)
    {v : V} (hv : p v) : ∃ x, climb parent k v = some x := by
  induction k generalizing v with
  | zero => exact ⟨v, rfl⟩
  | succ k ih =>
      obtain ⟨u, hu, hpu⟩ := hp v hv
      obtain ⟨x, hx⟩ := ih hpu
      exact ⟨x, by rw [climb, hu, Option.bind_some, hx]⟩

/-- A vertex that climbs back to itself. -/
def Recurrent (p : Nat) (v : V) : Prop := 0 < p ∧ climb parent p v = some v

/-- Everything above a recurrent vertex is recurrent. -/
theorem Recurrent.climb {p : Nat} {v : V} (h : Recurrent parent p v) {k : Nat} {x : V}
    (hx : climb parent k v = some x) : Recurrent parent p x := by
  refine ⟨h.1, ?_⟩
  have hround : ParentChain.climb parent (p + k) v = some x := by
    rw [climb_add, h.2]
    exact hx
  rw [Nat.add_comm, climb_add, hx] at hround
  exact hround

/-- **THE PIGEONHOLE**: a climb of as many steps as there are vertices ends on a
    cycle that is no longer. -/
theorem climb_recurrent {s : Finset V} (hs : ∀ v u, parent v = some u → u ∈ s) {v x : V}
    (hv : v ∈ s) (h : climb parent s.card v = some x) :
    ∃ p ≤ s.card, Recurrent parent p x := by
  have hcard : s.card < (Finset.range (s.card + 1)).card := by
    rw [Finset.card_range]
    exact Nat.lt_succ_self _
  -- one height more than there are vertices, so two heights share a vertex
  obtain ⟨i, hi, j, hj, hne, heq⟩ := Finset.exists_ne_map_eq_of_card_lt_of_maps_to hcard
    (f := fun k => (climb parent k v).getD x) fun k hk => by
      obtain ⟨y, hy, -⟩ := exists_climb_le parent
        (Nat.le_of_lt_succ (Finset.mem_range.mp (Finset.mem_coe.mp hk))) h
      show (climb parent k v).getD x ∈ s
      rw [hy]
      exact climb_mem parent hs hv hy
  -- the two heights in order
  have key : ∀ i j, i < j → j ≤ s.card →
      (climb parent i v).getD x = (climb parent j v).getD x →
        ∃ p ≤ s.card, Recurrent parent p x := by
    intro i j hij hj heq
    obtain ⟨y, hy, hyx⟩ := exists_climb_le parent (Nat.le_trans (Nat.le_of_lt hij) hj) h
    obtain ⟨z, hz, -⟩ := exists_climb_le parent hj h
    rw [hy, hz] at heq
    obtain rfl : y = z := heq
    refine ⟨j - i, Nat.le_trans (Nat.sub_le j i) hj, Recurrent.climb parent ?_ hyx⟩
    refine ⟨Nat.sub_pos_of_lt hij, ?_⟩
    -- between them the climb went once round
    rw [show j = i + (j - i) by omega, climb_add, hy] at hz
    exact hz
  have hi := Nat.le_of_lt_succ (Finset.mem_range.mp hi)
  have hj := Nat.le_of_lt_succ (Finset.mem_range.mp hj)
  rcases Nat.lt_or_gt_of_ne hne with hlt | hlt
  · exact key i j hlt hj heq
  · exact key j i hlt hi heq.symm

end ParentChain
