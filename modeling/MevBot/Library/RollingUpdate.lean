import Mathlib.Data.List.Basic
import Mathlib.Data.Nat.Init
import Mathlib.Logic.Function.Iterate

/-! # A scan during a rolling update

    A reader puts one query after the other and stops at the first one answered
    yes.  Meanwhile a writer replaces the stores behind the queries, one at a time
    and in a fixed order: a query is answered by the new version once its store
    has been replaced, by the old one before.

    Both versions may answer some query yes, and the scan still pass: it puts that
    query while, or after, the version that would have answered yes was current.
    No interleaving passes exactly when a query with an old yes comes before, or
    is, one with a new yes whose store is replaced no later (`never_passes_iff`). -/

namespace RollingUpdate

variable {Q : Type}

/-! ## The reader -/

/-- A scan: what is left to ask, or whether it passed. -/
inductive Scan (Q : Type) where
  | asking (rest : List Q)
  | done (passed : Bool)
deriving DecidableEq, Repr

/-- One query, answered by `hit`. -/
def Scan.step (hit : Q → Bool) : Scan Q → Scan Q
  | .asking [] => .done true
  | .asking (q :: rest) => if hit q then .done false else .asking rest
  | .done passed => .done passed

theorem step_done (hit : Q → Bool) (passed : Bool) (n : Nat) :
    (Scan.step hit)^[n] (.done passed) = .done passed := by
  induction n with
  | zero => rfl
  | succ n ih => exact ih

/-- A scan left to itself passes if no query is answered yes. -/
theorem scan_alone (hit : Q → Bool) {qs : List Q} {n : Nat} (h : qs.length < n) :
    (Scan.step hit)^[n] (.asking qs) = .done (!qs.any hit) := by
  induction qs generalizing n with
  | nil =>
      obtain ⟨n, rfl⟩ := Nat.exists_eq_succ_of_ne_zero (Nat.ne_of_gt h)
      exact step_done hit true n
  | cons q qs ih =>
      obtain ⟨n, rfl⟩ := Nat.exists_eq_succ_of_ne_zero (Nat.ne_of_gt (Nat.zero_lt_of_lt h))
      rw [Function.iterate_succ_apply, Scan.step, List.any_cons]
      by_cases hq : hit q = true
      · rw [if_pos hq, step_done, hq]
        rfl
      · rw [if_neg hq, ih (Nat.lt_of_succ_lt_succ h), Bool.eq_false_iff.mpr hq, Bool.false_or]

/-! ## The two parties -/

/-- How many stores have been replaced, and where the reader is. -/
structure State (Q : Type) where
  replaced : Nat
  scan : Scan Q

/-- Who takes the next step. -/
inductive Turn where
  | reader
  | writer
deriving DecidableEq, Repr

section Update

variable (old new : Q → Bool) (rank : Q → Nat) (stores : Nat)

/-- The answer while the stores of ranks below `k` have been replaced. -/
def answer (k : Nat) (q : Q) : Bool := if rank q < k then new q else old q

/-- A step of one party; a writer that is finished does nothing. -/
def step (s : State Q) : Turn → State Q
  | .reader => { s with scan := s.scan.step (answer old new rank s.replaced) }
  | .writer => { s with replaced := min (s.replaced + 1) stores }

/-- The parties after an interleaving of their steps. -/
def run (s : State Q) (turns : List Turn) : State Q := turns.foldl (step old new rank stores) s

/-! ## What stops every interleaving -/

/-- A query with an old yes comes before, or is, one with a new yes that is replaced no
    later. -/
def Overlaps : List Q → Prop
  | [] => False
  | x :: xs => (old x = true ∧ ∃ q ∈ x :: xs, new q = true ∧ rank q ≤ rank x) ∨ Overlaps xs

/-- The same, while the stores of ranks below `k` have been replaced. -/
def Blocked (k : Nat) : List Q → Prop
  | [] => False
  | x :: xs => (rank x < k ∧ new x = true) ∨
      (k ≤ rank x ∧ old x = true ∧ ∃ q ∈ x :: xs, new q = true ∧ rank q ≤ rank x) ∨ Blocked k xs

variable {old new rank stores}

theorem blocked_zero {qs : List Q} : Blocked old new rank 0 qs ↔ Overlaps old new rank qs := by
  induction qs with
  | nil => exact Iff.rfl
  | cons x xs ih =>
      rw [Blocked, Overlaps, ih]
      simp

/-- A new yes of a store already replaced blocks. -/
theorem blocked_of_mem {k : Nat} {qs : List Q} {q : Q} (hq : q ∈ qs) (hk : rank q < k)
    (hnew : new q = true) : Blocked old new rank k qs := by
  induction qs with
  | nil => exact absurd hq List.not_mem_nil
  | cons x xs ih =>
      rcases List.mem_cons.mp hq with rfl | hq
      · exact Or.inl ⟨hk, hnew⟩
      · exact Or.inr (Or.inr (ih hq))

/-- The query that blocks is not passed over. -/
theorem Blocked.look {k : Nat} {x : Q} {xs : List Q} (h : Blocked old new rank k (x :: xs))
    (hx : answer old new rank k x = false) : Blocked old new rank k xs := by
  rcases h with ⟨hk, hnew⟩ | ⟨hk, hold, -⟩ | h
  · rw [answer, if_pos hk, hnew] at hx
    cases hx
  · rw [answer, if_neg (Nat.not_lt.mpr hk), hold] at hx
    cases hx
  · exact h

/-- Replacing a store leaves the new yes that goes with an old one. -/
theorem Blocked.replace {k : Nat} {qs : List Q} (h : Blocked old new rank k qs) :
    Blocked old new rank (k + 1) qs := by
  induction qs with
  | nil => exact h
  | cons x xs ih =>
      rcases h with ⟨hk, hnew⟩ | ⟨hk, hold, q, hq, hnew, hrank⟩ | h
      · exact Or.inl ⟨Nat.lt_succ_of_lt hk, hnew⟩
      · rcases Nat.lt_or_eq_of_le hk with hlt | rfl
        · exact Or.inr (Or.inl ⟨hlt, hold, q, hq, hnew, hrank⟩)
        · exact blocked_of_mem hq (Nat.lt_succ_of_le hrank) hnew
      · exact Or.inr (Or.inr (ih h))

/-- What blocks later blocks earlier, but for a new yes of a store replaced in between. -/
theorem Blocked.before {k k' : Nat} (hk : k ≤ k') {qs : List Q} (h : Blocked old new rank k' qs) :
    (∃ q ∈ qs, rank q < k' ∧ new q = true) ∨ Blocked old new rank k qs := by
  induction qs with
  | nil => exact Or.inr h
  | cons x xs ih =>
      rcases h with ⟨hx, hnew⟩ | ⟨hx, hold, hq⟩ | h
      · exact Or.inl ⟨x, List.mem_cons_self, hx, hnew⟩
      · exact Or.inr (Or.inr (Or.inl ⟨Nat.le_trans hk hx, hold, hq⟩))
      · rcases ih h with ⟨q, hq, hnew⟩ | h
        · exact Or.inl ⟨q, List.mem_cons_of_mem x hq, hnew⟩
        · exact Or.inr (Or.inr (Or.inr h))

/-! ## Every interleaving is stopped -/

/-- The scan is bound to be stopped, or has been. -/
def Stopped (old new : Q → Bool) (rank : Q → Nat) (s : State Q) : Prop :=
  match s.scan with
  | .asking rest => Blocked old new rank s.replaced rest
  | .done passed => passed = false

theorem Stopped.reader {s : State Q} (h : Stopped old new rank s) :
    Stopped old new rank (step old new rank stores s .reader) := by
  obtain ⟨k, scan⟩ := s
  cases scan with
  | asking rest =>
      cases rest with
      | nil => exact absurd h id
      | cons q rest =>
          rw [step, Scan.step]
          by_cases hq : answer old new rank k q = true
          · rw [if_pos hq]
            rfl
          · rw [if_neg hq]
            exact Blocked.look h (Bool.eq_false_iff.mpr hq)
  | done passed => exact h

theorem Stopped.writer {s : State Q} (hs : s.replaced ≤ stores) (h : Stopped old new rank s) :
    Stopped old new rank (step old new rank stores s .writer) := by
  obtain ⟨k, scan⟩ := s
  cases scan with
  | asking rest =>
      rcases Nat.lt_or_eq_of_le hs with hlt | rfl
      · rw [step, Nat.min_eq_left hlt]
        exact Blocked.replace h
      · rw [step, Nat.min_eq_right (Nat.le_succ _)]
        exact h
  | done passed => exact h

theorem step_replaced_le {s : State Q} (hs : s.replaced ≤ stores) (turn : Turn) :
    (step old new rank stores s turn).replaced ≤ stores := by
  cases turn with
  | reader => exact hs
  | writer => exact Nat.min_le_right _ _

theorem Stopped.run {s : State Q} (hs : s.replaced ≤ stores) (h : Stopped old new rank s)
    (turns : List Turn) : Stopped old new rank (run old new rank stores s turns) := by
  induction turns generalizing s with
  | nil => exact h
  | cons turn turns ih =>
      refine ih (step_replaced_le hs turn) ?_
      cases turn with
      | reader => exact h.reader
      | writer => exact h.writer hs

/-! ## Some interleaving passes -/

theorem run_append (s : State Q) (turns turns' : List Turn) :
    run old new rank stores s (turns ++ turns') =
      run old new rank stores (run old new rank stores s turns) turns' := List.foldl_append

/-- The writer alone replaces what is left up to `k'`. -/
theorem run_writer {k k' : Nat} (hk : k ≤ k') (hk' : k' ≤ stores) (scan : Scan Q) :
    ∃ turns, run old new rank stores ⟨k, scan⟩ turns = ⟨k', scan⟩ := by
  induction k', hk using Nat.le_induction with
  | base => exact ⟨[], rfl⟩
  | succ k' _ ih =>
      obtain ⟨turns, hturns⟩ := ih (Nat.le_of_succ_le hk')
      refine ⟨turns ++ [.writer], ?_⟩
      rw [run_append, hturns]
      exact congrArg (State.mk · scan) (Nat.min_eq_left hk')

/-- A scan that is not blocked passes, if the writer times its steps. -/
theorem escapes {qs : List Q} (hrank : ∀ q ∈ qs, rank q < stores) {k : Nat} (hk : k ≤ stores)
    (h : ¬Blocked old new rank k qs) :
    ∃ turns k', k' ≤ stores ∧
      run old new rank stores ⟨k, .asking qs⟩ turns = ⟨k', .done true⟩ := by
  induction qs generalizing k with
  | nil => exact ⟨[.reader], k, hk, rfl⟩
  | cons x xs ih =>
      -- once the query is answered no, the rest passes
      have hlook : ∀ k ≤ stores, ¬Blocked old new rank k (x :: xs) →
          answer old new rank k x = false → ∃ turns k', k' ≤ stores ∧
            run old new rank stores ⟨k, .asking (x :: xs)⟩ turns = ⟨k', .done true⟩ := by
        intro k hk h hx
        obtain ⟨turns, k', hk', hturns⟩ := ih (fun q hq => hrank q (List.mem_cons_of_mem x hq)) hk
          fun hxs => h (Or.inr (Or.inr hxs))
        refine ⟨.reader :: turns, k', hk', ?_⟩
        rw [← hturns]
        show run old new rank stores (step old new rank stores _ .reader) turns = _
        rw [step, Scan.step, hx]
        rfl
      by_cases hx : answer old new rank k x = true
      · -- an old yes: the writer goes first, up to the store of this query
        have hold : k ≤ rank x ∧ old x = true := by
          rw [answer] at hx
          split at hx
          · rename_i hlt
            exact absurd (Or.inl ⟨hlt, hx⟩) h
          · rename_i hge
            exact ⟨Nat.not_lt.mp hge, hx⟩
        have hpair : ∀ q ∈ x :: xs, rank q < rank x + 1 → ¬new q = true := fun q hq hle hnew =>
          h (Or.inr (Or.inl ⟨hold.1, hold.2, q, hq, hnew, Nat.le_of_lt_succ hle⟩))
        have hnot : ¬Blocked old new rank (rank x + 1) (x :: xs) := by
          intro hblocked
          rcases hblocked.before (Nat.le_succ_of_le hold.1) with ⟨q, hq, hle, hnew⟩ | hblocked
          · exact hpair q hq hle hnew
          · exact h hblocked
        have hno : answer old new rank (rank x + 1) x = false := by
          rw [answer, if_pos (Nat.lt_succ_self _)]
          exact Bool.eq_false_iff.mpr
            (hpair x List.mem_cons_self (Nat.lt_succ_self _))
        have hstore : rank x + 1 ≤ stores := hrank x List.mem_cons_self
        obtain ⟨first, hfirst⟩ : ∃ turns, run old new rank stores ⟨k, .asking (x :: xs)⟩ turns =
            ⟨rank x + 1, .asking (x :: xs)⟩ := run_writer (Nat.le_succ_of_le hold.1) hstore _
        obtain ⟨turns, k', hk', hturns⟩ := hlook _ hstore hnot hno
        exact ⟨first ++ turns, k', hk', by rw [run_append, hfirst, hturns]⟩
      · exact hlook k hk h (Bool.eq_false_iff.mpr hx)

/-- **WHEN NO INTERLEAVING PASSES**, over all complete ones. -/
theorem never_passes_iff {qs : List Q} (hrank : ∀ q ∈ qs, rank q < stores) :
    (∀ turns, (run old new rank stores ⟨0, .asking qs⟩ turns).replaced = stores →
        (run old new rank stores ⟨0, .asking qs⟩ turns).scan ≠ .done true) ↔
      Overlaps old new rank qs := by
  rw [← blocked_zero]
  constructor
  · intro hnever
    by_contra hnot
    obtain ⟨turns, k', hk', hturns⟩ := escapes hrank (Nat.zero_le stores) hnot
    obtain ⟨last, hlast⟩ : ∃ turns, run old new rank stores ⟨k', .done true⟩ turns =
        ⟨stores, .done true⟩ := run_writer hk' (Nat.le_refl stores) _
    have hrun : run old new rank stores ⟨0, .asking qs⟩ (turns ++ last) = ⟨stores, .done true⟩ := by
      rw [run_append, hturns, hlast]
    refine hnever (turns ++ last) ?_ ?_
    · rw [hrun]
    · rw [hrun]
  · intro hblocked turns _ hpassed
    have hstart : Stopped old new rank ⟨0, .asking qs⟩ := hblocked
    have hstopped := hstart.run (Nat.zero_le stores) turns
    rw [Stopped, hpassed] at hstopped
    cases hstopped

end Update

end RollingUpdate
