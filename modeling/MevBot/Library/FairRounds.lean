import Mathlib.Data.List.Basic

/-! # Rounds that get something done

    A system moves; some measure of a part of its state, the work, never grows,
    and a move that leaves the work leaves that part of the state.  A round is
    fair when, whatever work is left, one of its moves does some of it on every
    state that shows the same part.  Then as many fair rounds as there is work
    do all of it, in whatever order the moves of a round come (`run_drained`). -/

namespace FairRounds

variable {σ μ κ : Type}

/-- The system after a sequence of moves. -/
def run (step : σ → μ → σ) (s : σ) (moves : List μ) : σ := moves.foldl step s

theorem run_append (step : σ → μ → σ) (s : σ) (moves moves' : List μ) :
    run step s (moves ++ moves') = run step (run step s moves) moves' :=
  List.foldl_append

/-- What the moves of a kind keep, and what each leaves or gets done: `shown` is the part
    of the state they leave as it is where they do no work. -/
structure Progress (step : σ → μ → σ) (Allowed : μ → Prop) (Kept : σ → Prop) (shown : σ → κ)
    (work : κ → Nat) : Prop where
  kept : ∀ s m, Kept s → Allowed m → Kept (step s m)
  moves : ∀ s m, Kept s → Allowed m →
    shown (step s m) = shown s ∨ work (shown (step s m)) < work (shown s)

/-- One of the moves does some of the work that is left. -/
structure Fair (step : σ → μ → σ) (Allowed : μ → Prop) (Kept : σ → Prop) (shown : σ → κ)
    (work : κ → Nat) (round : List μ) : Prop where
  allowed : ∀ m ∈ round, Allowed m
  works : ∀ k, work k ≠ 0 → ∃ m ∈ round, ∀ s, Kept s → shown s = k → shown (step s m) ≠ k

variable {step : σ → μ → σ} {Allowed : μ → Prop} {Kept : σ → Prop} {shown : σ → κ}
  {work : κ → Nat}

namespace Progress

theorem kept_run (h : Progress step Allowed Kept shown work) {s : σ} (hs : Kept s)
    {moves : List μ} (hmoves : ∀ m ∈ moves, Allowed m) : Kept (run step s moves) := by
  refine List.foldlRecOn (motive := Kept) moves step hs ?_
  intro s hs m hm
  exact h.kept s m hs (hmoves m hm)

/-- A sequence of moves leaves what is shown at every one of them, or leaves less to do. -/
theorem run_work (h : Progress step Allowed Kept shown work) {s : σ} (hs : Kept s)
    {moves : List μ} (hmoves : ∀ m ∈ moves, Allowed m) :
    (shown (run step s moves) = shown s ∧
        ∀ m ∈ moves, ∃ s', Kept s' ∧ shown s' = shown s ∧ shown (step s' m) = shown s) ∨
      work (shown (run step s moves)) < work (shown s) := by
  induction moves generalizing s with
  | nil => exact Or.inl ⟨rfl, fun m hm => absurd hm List.not_mem_nil⟩
  | cons m moves ih =>
      obtain ⟨hm, hrest⟩ := List.forall_mem_cons.mp hmoves
      have hnext := ih (h.kept s m hs hm) hrest
      change (shown (run step (step s m) moves) = shown s ∧ _) ∨
        work (shown (run step (step s m) moves)) < work (shown s)
      rcases h.moves s m hs hm with hsame | hless
      · rw [hsame] at hnext
        rcases hnext with ⟨hrun, hstuck⟩ | hless
        · refine Or.inl ⟨hrun, List.forall_mem_cons.mpr ⟨⟨s, hs, rfl, hsame⟩, hstuck⟩⟩
        · exact Or.inr hless
      · right
        rcases hnext with ⟨hrun, -⟩ | hless'
        · rw [hrun]
          exact hless
        · exact Nat.lt_trans hless' hless

/-- **ONE FAIR ROUND** does some of the work there is. -/
theorem round_work (h : Progress step Allowed Kept shown work) {s : σ} (hs : Kept s)
    {round : List μ} (hround : Fair step Allowed Kept shown work round) :
    work (shown (run step s round)) ≤ work (shown s) - 1 := by
  rcases h.run_work hs hround.allowed with ⟨hrun, hstuck⟩ | hless
  · rw [hrun]
    by_contra hgt
    obtain ⟨m, hm, hmoves⟩ := hround.works (shown s) (by omega)
    obtain ⟨s', hs', hshown, hstill⟩ := hstuck m hm
    exact hmoves s' hs' hshown hstill
  · exact Nat.le_sub_one_of_lt hless

/-- **AS MANY FAIR ROUNDS AS THERE IS WORK** do all of it. -/
theorem run_drained (h : Progress step Allowed Kept shown work) {s : σ} (hs : Kept s)
    {rounds : List (List μ)} (hrounds : ∀ round ∈ rounds, Fair step Allowed Kept shown work round)
    (hlen : work (shown s) ≤ rounds.length) :
    work (shown (run step s rounds.flatten)) = 0 := by
  induction rounds generalizing s with
  | nil => exact Nat.le_zero.mp hlen
  | cons round rounds ih =>
      obtain ⟨hround, hrest⟩ := List.forall_mem_cons.mp hrounds
      rw [List.flatten_cons, run_append]
      refine ih (h.kept_run hs hround.allowed) hrest ?_
      have hless := h.round_work hs hround
      rw [List.length_cons] at hlen
      omega

end Progress

end FairRounds
