import MevBot.CheckedSearch

/-! # Reusing the buffers of Bellman-Ford

    `find_arbitrage_from` takes its buffers from the caller, who keeps them from
    call to call, and resets only the first `n` entries.  It reads no other entry:
    two runs from buffers that agree on the first `n` stay so and trace the same
    cycles (`findArbitrageFrom_agree`).  So whatever calls on whatever graphs left
    the buffers behind, the paths are those of fresh ones, and no index is out of
    bounds (`reuse_invisible`). -/

namespace MevReuse

open MevMachine MevTypes MevGraph MevGraphInv MevSearch MevTracing
open MevChecked (InBounds Aligned Checked EdgesFrom edgesFrom_zero inBounds_start
  source_of_stored)

variable {F : Type} [F64 F] {g : PriceGraph F} {st st' : BellmanFordState F}

/-! ## Two runs side by side -/

/-- Buffers with the same first `n` entries. -/
structure Agree (n : Nat) (st st' : BellmanFordState F) : Prop where
  dist : ∀ v < n, st.distAt v = st'.distAt v
  predecessor : ∀ v < n, st.predAt v = st'.predAt v

/-- After the reset. -/
theorem agree_start (st st' : BellmanFordState F) {n source : Nat} (hsource : source < n) :
    Agree n (st.startFrom n source) (st'.startFrom n source) := by
  constructor
  · intro v hv
    rw [startFrom_distAt st hsource hv, startFrom_distAt st' hsource hv]
  · intro v hv
    rw [startFrom_predAt st source hv, startFrom_predAt st' source hv]

/-- One relaxation. -/
theorem relaxEdge_agree (hg : GraphInv g) (h : InBounds g st) (h' : InBounds g st')
    (hagree : Agree g.numTokens st st') {i : Nat} {e : Edge F} (he : g.edges[i]? = some e) :
    Agree g.numTokens (relaxEdge st i e).1 (relaxEdge st' i e).1 ∧
      (relaxEdge st i e).2 = (relaxEdge st' i e).2 := by
  have hdest := hg.dest_lt he
  rw [relaxEdge, relaxEdge, hagree.dist _ (hg.source_lt he), hagree.dist _ hdest]
  split
  · exact ⟨hagree, rfl⟩
  · dsimp only
    split
    · refine ⟨⟨?_, ?_⟩, rfl⟩
      · intro v hv
        rw [distAt_set (Nat.lt_of_lt_of_le hdest h.dist),
          distAt_set (Nat.lt_of_lt_of_le hdest h'.dist), hagree.dist v hv]
      · intro v hv
        rw [predAt_set (Nat.lt_of_lt_of_le hdest h.predecessor),
          predAt_set (Nat.lt_of_lt_of_le hdest h'.predecessor), hagree.predecessor v hv]
    · exact ⟨hagree, rfl⟩

/-- One pass. -/
theorem relaxPass_agree (hg : GraphInv g) {i : Nat} {es : List (Edge F)} (hes : EdgesFrom g i es)
    (h : InBounds g st) (h' : InBounds g st') (hagree : Agree g.numTokens st st') :
    Agree g.numTokens (relaxPass i es st).1 (relaxPass i es st').1 ∧
      (relaxPass i es st).2 = (relaxPass i es st').2 := by
  induction es generalizing i st st' with
  | nil => exact ⟨hagree, rfl⟩
  | cons e es ih =>
      obtain ⟨hedge, hflag⟩ := relaxEdge_agree hg h h' hagree hes.head
      obtain ⟨hpass, hflag'⟩ := ih hes.tail (MevChecked.relaxEdge_ok hg h hes.head).2
        (MevChecked.relaxEdge_ok hg h' hes.head).2 hedge
      exact ⟨hpass, congrArg₂ (· || ·) hflag hflag'⟩

/-- The passes stop at the same time. -/
theorem relaxPasses_agree (hg : GraphInv g) (k : Nat) (h : InBounds g st) (h' : InBounds g st')
    (hagree : Agree g.numTokens st st') :
    Agree g.numTokens (relaxPasses g.edges k st) (relaxPasses g.edges k st') := by
  have hes := edgesFrom_zero g
  induction k generalizing st st' with
  | zero => exact hagree
  | succ k ih =>
      obtain ⟨hpass, hflag⟩ := relaxPass_agree hg hes h h' hagree
      rw [relaxPasses, relaxPasses]
      dsimp only
      rw [hflag]
      split
      · exact ih (MevChecked.relaxPass_ok hg hes h).2 (MevChecked.relaxPass_ok hg hes h').2 hpass
      · exact hpass

theorem relaxFrom_agree (hg : GraphInv g) (h : Aligned st) (h' : Aligned st') {source : Nat}
    (hsource : source < g.numTokens) :
    Agree g.numTokens (relaxFrom g source st) (relaxFrom g source st') :=
  relaxPasses_agree hg (g.numTokens - 1) (inBounds_start h source) (inBounds_start h' source)
    (agree_start st st' hsource)

/-! ## Tracing -/

theorem walkBack_agree (hg : GraphInv g) (h : InBounds g st) (hagree : Agree g.numTokens st st')
    (k : Nat) {v : Nat} (hv : v < g.numTokens) : walkBack g st k v = walkBack g st' k v := by
  induction k generalizing v with
  | zero => rfl
  | succ k ih =>
      have heq := hagree.predecessor v hv
      cases hp : st.predAt v with
      | none =>
          rw [walkBack, walkBack, ← heq, hp]
          rfl
      | some i =>
          obtain ⟨e, he, -, hsource⟩ := source_of_stored hg h hv hp
          rw [walkBack_edge hp he, walkBack_edge (heq.symm.trans hp) he]
          exact ih hsource

theorem traceLoop_agree (hg : GraphInv g) (h : InBounds g st) (hagree : Agree g.numTokens st st')
    (n cycleStart fuel : Nat) {current : Nat} (hcurrent : current < g.numTokens) (path : List Nat)
    (visited : List Bool) :
    traceLoop g st n cycleStart fuel current path visited =
      traceLoop g st' n cycleStart fuel current path visited := by
  induction fuel generalizing current path visited with
  | zero => rfl
  | succ fuel ih =>
      have heq := hagree.predecessor current hcurrent
      cases hp : st.predAt current with
      | none => rw [traceLoop, traceLoop, ← heq, hp]
      | some i =>
          obtain ⟨e, he, -, hsource⟩ := source_of_stored hg h hcurrent hp
          rw [traceLoop_edge hp he, traceLoop_edge (heq.symm.trans hp) he, ih hsource]

theorem traceCycle_agree (hg : GraphInv g) (h : InBounds g st) (hagree : Agree g.numTokens st st')
    {start : Nat} (hstart : start < g.numTokens) (visited : List Bool) :
    traceCycle g st start visited = traceCycle g st' start visited := by
  rw [traceCycle, traceCycle]
  dsimp only
  rw [← walkBack_agree hg h hagree g.numTokens hstart]
  cases hback : walkBack g st g.numTokens start with
  | none => rfl
  | some cycleStart =>
      have hlt := (MevChecked.walkBack_ok hg h g.numTokens hstart).2 cycleStart hback
      dsimp only
      rw [traceLoop_agree hg h hagree g.numTokens cycleStart _ hlt]

/-- One edge of the detection pass. -/
theorem detectEdge_agree (hg : GraphInv g) (h : InBounds g st) (hagree : Agree g.numTokens st st')
    (m : F) (acc : List Bool × List (ArbPath F)) {e : Edge F} (he : e ∈ g.edges) :
    detectEdge g st m acc e = detectEdge g st' m acc e := by
  obtain ⟨i, hi⟩ := List.mem_iff_getElem?.mp he
  rw [detectEdge, detectEdge, hagree.dist _ (hg.source_lt hi), hagree.dist _ (hg.dest_lt hi),
    traceCycle_agree hg h hagree (hg.dest_lt hi)]

/-- **ONE CALL** finds the same paths in any two buffers. -/
theorem findArbitrageFrom_agree (hg : GraphInv g) (h : Aligned st) (h' : Aligned st')
    (source : Nat) (m : F) :
    (findArbitrageFrom g source st m).2 = (findArbitrageFrom g source st' m).2 := by
  rw [findArbitrageFrom, findArbitrageFrom]
  dsimp only
  split
  · rfl
  · rename_i hn
    have hsource : source < g.numTokens := Nat.lt_of_not_le fun hle => hn (Or.inr hle)
    have hbounds := (MevChecked.relaxFrom_ok hg h hsource).2
    have hagree := relaxFrom_agree hg h h' hsource
    refine congrArg (·.2) (List.foldl_ext (detectEdge g (relaxFrom g source st) m)
      (detectEdge g (relaxFrom g source st') m) (List.replicate g.numTokens false, []) ?_)
    intro acc e he
    exact detectEdge_agree hg hbounds hagree m acc he

/-! ## Histories of calls -/

/-- A call over the graph a history of updates builds. -/
structure Call (F : Type) where
  ops : List GraphOp
  source : Nat
  minProfitRatio : F

/-- One call, every index checked. -/
def Call.run (state : BellmanFordState F) (call : Call F) :
    Checked (BellmanFordState F × List (ArbPath F)) :=
  MevChecked.findArbitrageFrom (PriceGraph.build call.ops) call.source state call.minProfitRatio

/-- The buffers a sequence of calls leaves behind. -/
def leftBehind (state : BellmanFordState F) (calls : List (Call F)) :
    Checked (BellmanFordState F) :=
  calls.foldlM (fun state call => return (← call.run state).1) state

/-- Every call returns, in buffers that stay of one length. -/
theorem leftBehind_ok {state : BellmanFordState F} (h : Aligned state) (calls : List (Call F)) :
    ∃ state', leftBehind state calls = .ok state' ∧ Aligned state' := by
  induction calls generalizing state with
  | nil => exact ⟨state, rfl, h⟩
  | cons call calls ih =>
      obtain ⟨hrun, haligned⟩ := MevChecked.findArbitrageFrom_ok (GraphInv.build call.ops) h
        call.source call.minProfitRatio
      obtain ⟨state', hrest, haligned'⟩ := ih haligned
      refine ⟨state', ?_, haligned'⟩
      rw [leftBehind, List.foldlM_cons, Call.run, hrun]
      exact hrest

/-- **BUFFER REUSE IS INVISIBLE**: after any calls over any graphs, in buffers of
    any capacity, no call has indexed out of bounds, and the next one finds the
    paths it finds in fresh buffers. -/
theorem reuse_invisible (capacity : Nat) (calls : List (Call F)) (call : Call F)
    (fresh : Nat) :
    ∃ state, leftBehind (.new capacity) calls = .ok state ∧
      ∃ after after' paths, call.run state = .ok (after, paths) ∧
        call.run (.new fresh) = .ok (after', paths) := by
  obtain ⟨state, hstate, haligned⟩ := leftBehind_ok (MevChecked.aligned_new capacity) calls
  have hg : GraphInv (PriceGraph.build call.ops : PriceGraph F) := GraphInv.build call.ops
  have hfresh : Aligned (BellmanFordState.new fresh : BellmanFordState F) :=
    MevChecked.aligned_new fresh
  have hrun := (MevChecked.findArbitrageFrom_ok hg haligned call.source call.minProfitRatio).1
  have hrun' := (MevChecked.findArbitrageFrom_ok hg hfresh call.source call.minProfitRatio).1
  have hpaths := findArbitrageFrom_agree hg haligned hfresh call.source call.minProfitRatio
  rcases hres : findArbitrageFrom (PriceGraph.build call.ops) call.source state
    call.minProfitRatio with ⟨after, paths⟩
  rcases hres' : findArbitrageFrom (PriceGraph.build call.ops) call.source (.new fresh)
    call.minProfitRatio with ⟨after', paths'⟩
  rw [hres] at hrun hpaths
  rw [hres'] at hrun' hpaths
  obtain rfl : paths = paths' := hpaths
  exact ⟨state, hstate, after, after', paths, hrun, hrun'⟩

end MevReuse
