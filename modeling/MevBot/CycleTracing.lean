import MevBot.BellmanFord

/-! # Tracing cycles out of the predecessors

    `trace_cycle` walks back as many steps as there are tokens, then follows the
    predecessors until it is back where it stood.  A walk that does not run out of
    predecessors always ends on a cycle (`traceLoop_of_walkBack`), and what is traced
    is a simple cycle of predecessor edges (`traceCycle_some`).  It starts at a
    token no trace has marked, so the results of `find_arbitrage_from` are reports
    of such cycles, no two of which meet (`results_reported`). -/

namespace MevTracing

open MevMachine MevTypes MevGraph MevGraphInv MevSearch MevDfs MevRates MevExact ExactF64
open MevBellmanFord Relaxation ParentChain

/-! ## Simple cycles -/

/-- A simple cycle of usable edges of the graph a history builds. -/
structure SimpleCycle (ops : List GraphOp) (c : List (Arrow ExactF64)) : Prop where
  nonempty : c ≠ []
  closed : ∃ v, (rated ops).Walk v c v
  simple : (c.map (·.2.dest)).Nodup
  usable : ∀ a ∈ c, a ∈ usableEdges ops

/-- A simple cycle whose edges are the predecessors of their ends. -/
structure PredecessorCycle (ops : List GraphOp) (s : Nat) (c : List (Arrow ExactF64)) :
    Prop extends SimpleCycle ops c where
  followed : Followed (rated ops) (labels ops s) c

variable {ops : List GraphOp} {s : Nat}

/-- The edges of a cycle are edges of the graph. -/
theorem SimpleCycle.edges {c : List (Arrow ExactF64)} (h : SimpleCycle ops c) :
    ∀ a ∈ c, (PriceGraph.build ops).edges[a.1]? = some a.2 :=
  fun a ha => (mem_usableEdges.mp (h.usable a ha)).1

/-- A cycle of predecessors is negative. -/
theorem PredecessorCycle.weight_neg {c : List (Arrow ExactF64)} (h : PredecessorCycle ops s c) :
    (rated ops).weightOf c < 0 := by
  obtain ⟨v, hv⟩ := h.closed
  exact (Kept.run (rated ops) s (schedule ops)).cycle_neg v c h.nonempty hv h.simple h.followed

/-! ## The tracing loops -/

/-- The node before `v` along the predecessors. -/
noncomputable def parent (ops : List GraphOp) (s v : Nat) : Option Nat :=
  ((labels ops s).pred v).map (·.2.source)

/-- The number of tokens. -/
noncomputable abbrev size (ops : List GraphOp) : Nat :=
  (PriceGraph.build ops : PriceGraph ExactF64).numTokens

theorem parent_eq_some {v u : Nat} (h : parent ops s v = some u) :
    ∃ a, (labels ops s).pred v = some a ∧ a.2.source = u := by
  obtain ⟨a, ha, hu⟩ := Option.map_eq_some_iff.mp h
  exact ⟨a, ha, hu⟩

theorem source_lt_of_pred (hops : FeesBelowOne ops) {v : Nat} {a : Arrow ExactF64}
    (h : (labels ops s).pred v = some a) : a.2.source < size ops :=
  (relaxable_of_mem hops (mem_of_pred h)).source_lt

/-- Predecessors stay among the tokens. -/
theorem parent_mem_range (hops : FeesBelowOne ops) (v u : Nat) (hu : parent ops s v = some u) :
    u ∈ Finset.range (size ops) := by
  obtain ⟨a, hp, rfl⟩ := parent_eq_some hu
  exact Finset.mem_range.mpr (source_lt_of_pred hops hp)

theorem climb_lt (hops : FeesBelowOne ops) {k v x : Nat} (hv : v < size ops)
    (h : climb (parent ops s) k v = some x) : x < size ops :=
  Finset.mem_range.mp (climb_mem _ (parent_mem_range hops) (Finset.mem_range.mpr hv) h)

/-! ## Marks -/

/-- A trace has been through the token. -/
def Marked (visited : List Bool) (v : Nat) : Prop := visited.getD v false = true

/-- The same tokens, none of them unmarked. -/
structure MoreMarks (visited visited' : List Bool) : Prop where
  length : visited'.length = visited.length
  marked : ∀ v, Marked visited v → Marked visited' v

theorem MoreMarks.refl (visited : List Bool) : MoreMarks visited visited :=
  ⟨rfl, fun _ h => h⟩

theorem MoreMarks.trans {visited₁ visited₂ visited₃ : List Bool}
    (h : MoreMarks visited₁ visited₂) (h' : MoreMarks visited₂ visited₃) :
    MoreMarks visited₁ visited₃ :=
  ⟨h'.length.trans h.length, fun v hv => h'.marked v (h.marked v hv)⟩

theorem marked_set {visited : List Bool} {v : Nat} (hv : v < visited.length) :
    Marked (visited.set v true) v := by
  rw [Marked, List.getD_eq_getElem?_getD, List.getElem?_set_self hv]
  rfl

theorem MoreMarks.set (visited : List Bool) (current : Nat) :
    MoreMarks visited (visited.set current true) := by
  refine ⟨List.length_set, ?_⟩
  intro v hv
  by_cases hvc : v = current
  · subst hvc
    refine marked_set (Nat.lt_of_not_le fun hle => ?_)
    rw [Marked, List.getD_eq_getElem?_getD, List.getElem?_eq_none hle] at hv
    cases hv
  · rw [Marked, List.getD_eq_getElem?_getD, List.getElem?_set_ne (Ne.symm hvc),
      ← List.getD_eq_getElem?_getD]
    exact hv

section Marks

variable {F : Type} (g : PriceGraph F) (st : BellmanFordState F)

/-- A trace takes no mark back, whether it succeeds or not. -/
theorem traceLoop_marks (n cycleStart fuel current : Nat) (path : List Nat)
    (visited : List Bool) :
    MoreMarks visited (traceLoop g st n cycleStart fuel current path visited).1 := by
  induction fuel generalizing current path visited with
  | zero => exact MoreMarks.refl visited
  | succ fuel ih =>
      rw [traceLoop]
      split
      · exact MoreMarks.refl visited
      · dsimp only
        split
        · exact MoreMarks.set visited current
        · split
          · exact MoreMarks.set visited current
          · split
            · exact MoreMarks.set visited current
            · exact (MoreMarks.set visited current).trans (ih _ _ _)

theorem traceCycle_marks (start : Nat) (visited : List Bool) :
    MoreMarks visited (traceCycle g st start visited).1 := by
  rw [traceCycle]
  dsimp only
  split
  · exact MoreMarks.refl visited
  · rename_i cycleStart _
    have hloop := traceLoop_marks g st g.numTokens cycleStart (g.numTokens + 1) cycleStart []
      visited
    split
    · exact MoreMarks.refl visited
    · split
      · rename_i heq
        rwa [heq] at hloop
      · rename_i heq
        rw [heq] at hloop
        split
        · exact hloop
        · exact hloop

end Marks

section Trace

variable {st : BellmanFordState ExactF64}

/-- A stored predecessor index names the predecessor edge. -/
theorem predAt_cases (h : Holds (size ops) st (labels ops s)) {v : Nat} (hv : v < size ops) :
    (labels ops s).pred v = none ∧ st.predAt v = none ∨
      ∃ a, (labels ops s).pred v = some a ∧ st.predAt v = some a.1 ∧
        (PriceGraph.build ops).edges[a.1]? = some a.2 := by
  have hst := h.pred v hv
  cases hp : (labels ops s).pred v with
  | none =>
      rw [hp] at hst
      exact Or.inl ⟨rfl, hst⟩
  | some a =>
      rw [hp] at hst
      exact Or.inr ⟨a, rfl, hst, (mem_usableEdges.mp (mem_of_pred hp)).1⟩

/-- Walking back climbs the predecessors. -/
theorem walkBack_eq (hops : FeesBelowOne ops) (h : Holds (size ops) st (labels ops s)) (k : Nat)
    {v : Nat} (hv : v < size ops) :
    walkBack (PriceGraph.build ops) st k v = climb (parent ops s) k v := by
  induction k generalizing v with
  | zero => rfl
  | succ k ih =>
      rw [climb, parent]
      rcases predAt_cases h hv with ⟨hp, hst⟩ | ⟨a, hp, hst, he⟩
      · rw [walkBack, hp, hst]
        rfl
      · rw [walkBack_edge hst he, hp]
        exact ih (source_lt_of_pred hops hp)

/-- **WHAT A TRACE RETURNS**: the walk along predecessors from `cycleStart`, which
    it leaves once, to where the trace began; its tokens are marked. -/
theorem traceLoop_some (hops : FeesBelowOne ops) (h : Holds (size ops) st (labels ops s))
    {n cycleStart fuel current : Nat} (hcurrent : current < size ops) {path path' : List Nat}
    {visited visited' : List Bool}
    (htrace : traceLoop (PriceGraph.build ops) st n cycleStart fuel current path visited =
      (visited', some path')) :
    ∃ c, c ≠ [] ∧ path' = path ++ (c.map (·.1)).reverse ∧
      (rated ops).Walk cycleStart c current ∧ Followed (rated ops) (labels ops s) c ∧
      LeavesOnce (rated ops) cycleStart c ∧
      (visited.length = size ops → ∀ a ∈ c, Marked visited' a.2.dest) := by
  induction fuel generalizing current path visited with
  | zero => cases htrace
  | succ fuel ih =>
      rcases predAt_cases h hcurrent with ⟨-, hst⟩ | ⟨a, hp, hst, he⟩
      · rw [traceLoop, hst] at htrace
        cases htrace
      · rw [traceLoop_edge hst he] at htrace
        have hend : a.2.dest = current :=
          (Kept.run (rated ops) s (schedule ops)).ends current a hp
        have hlast : (labels ops s).pred a.2.dest = some a := (congrArg _ hend).trans hp
        by_cases hstart : a.2.source = cycleStart
        · rw [if_pos hstart] at htrace
          obtain ⟨rfl, hpath⟩ := Prod.mk.inj htrace
          refine ⟨[a], List.cons_ne_nil a [], (Option.some.inj hpath).symm, ⟨hstart, hend⟩,
            ?_, ?_, ?_⟩
          · intro b hb
            rw [List.mem_singleton.mp hb]
            exact hlast
          · intro b hb
            exact absurd hb List.not_mem_nil
          · intro hlen b hb
            rw [List.mem_singleton.mp hb, hend]
            exact marked_set (hlen ▸ hcurrent)
        · rw [if_neg hstart] at htrace
          split at htrace
          · cases htrace
          -- the rest of the trace is the walk up to the start of this edge
          · have hmore := traceLoop_marks (PriceGraph.build ops) st n cycleStart fuel a.2.source
              (path ++ [a.1]) (visited.set current true)
            rw [htrace] at hmore
            obtain ⟨c, hc, rfl, hwalk, hcf, honce, hmarked⟩ :=
              ih (source_lt_of_pred hops hp) htrace
            refine ⟨c ++ [a], by simp, ?_, ((rated ops).walk_concat _ c a _).mpr ⟨hwalk, hend⟩,
              hcf.concat (rated ops) hlast, honce.concat (rated ops) hc hstart, ?_⟩
            · rw [List.map_append, List.reverse_append, List.append_assoc]
              rfl
            · intro hlen b hb
              rcases List.mem_append.mp hb with hb | hb
              · exact hmarked (List.length_set.trans hlen) b hb
              · rw [List.mem_singleton.mp hb, hend]
                exact hmore.marked current (marked_set (hlen ▸ hcurrent))

/-- A trace that can climb back to its start returns a path, the same whatever the
    length guard and the fuel, if only the climb fits into them. -/
theorem traceLoop_succeeds (hops : FeesBelowOne ops) (h : Holds (size ops) st (labels ops s))
    {cycleStart k current : Nat} (hcurrent : current < size ops) (hk : 0 < k)
    (hclimb : climb (parent ops s) k current = some cycleStart) (path : List Nat)
    (visited : List Bool) :
    ∃ visited' path', path'.length ≤ path.length + k ∧ ∀ n fuel, path.length + k ≤ n → k ≤ fuel →
      traceLoop (PriceGraph.build ops) st n cycleStart fuel current path visited =
        (visited', some path') := by
  induction k generalizing current path visited with
  | zero => exact absurd hk (Nat.lt_irrefl 0)
  | succ k ih =>
      obtain ⟨u, hu, hclimb⟩ := Option.bind_eq_some_iff.mp hclimb
      obtain ⟨a, hp, rfl⟩ := parent_eq_some hu
      rcases predAt_cases h hcurrent with ⟨hp', -⟩ | ⟨b, hp', hst, he⟩
      · rw [hp'] at hp
        cases hp
      · rw [hp'] at hp
        obtain rfl := Option.some.inj hp
        have hlen : (path ++ [b.1]).length + k = path.length + (k + 1) := by
          rw [List.length_append, List.length_singleton]
          omega
        by_cases hstart : b.2.source = cycleStart
        · refine ⟨visited.set current true, path ++ [b.1], by omega, ?_⟩
          intro n fuel _ hfuel
          obtain ⟨fuel, rfl⟩ := Nat.exists_eq_add_of_lt (Nat.lt_of_lt_of_le hk hfuel)
          rw [Nat.zero_add, traceLoop_edge hst he]
          exact if_pos hstart
        · have hk' : 0 < k := by
            rcases Nat.eq_zero_or_pos k with rfl | hk'
            · exact absurd (Option.some.inj hclimb) hstart
            · exact hk'
          obtain ⟨visited', path', hlen', hloop⟩ := ih (source_lt_of_pred hops hp') hk' hclimb
            (path ++ [b.1]) (visited.set current true)
          refine ⟨visited', path', by omega, ?_⟩
          intro n fuel hn hfuel
          obtain ⟨fuel, rfl⟩ := Nat.exists_eq_add_of_lt (Nat.lt_of_lt_of_le hk hfuel)
          -- the length guard never fires: the climb fits into `n`
          rw [Nat.zero_add, traceLoop_edge hst he, if_neg hstart, if_neg (by omega)]
          exact hloop n fuel (by omega) (by omega)

/-- **WHAT `trace_cycle` RETURNS** is a simple cycle of two to four predecessor
    edges, not all of whose tokens were marked before; all are afterwards. -/
theorem traceCycle_some (hops : FeesBelowOne ops) (h : Holds (size ops) st (labels ops s))
    {start : Nat} (hstart : start < size ops) {visited visited' : List Bool} {path : List Nat}
    (htrace : traceCycle (PriceGraph.build ops) st start visited = (visited', some path)) :
    ∃ c, PredecessorCycle ops s c ∧ path = c.map (·.1) ∧ 2 ≤ c.length ∧ c.length ≤ 4 ∧
      (∃ a ∈ c, ¬Marked visited a.2.dest) ∧
      (visited.length = size ops → ∀ a ∈ c, Marked visited' a.2.dest) := by
  rw [traceCycle] at htrace
  dsimp only at htrace
  -- walking back n steps first, to stand on the cycle
  rw [walkBack_eq hops h _ hstart] at htrace
  cases hwalk : climb (parent ops s) (size ops) start with
  | none =>
      rw [hwalk] at htrace
      cases htrace
  | some cycleStart =>
      rw [hwalk] at htrace
      dsimp only at htrace
      have hlt := climb_lt hops hstart hwalk
      split at htrace
      · cases htrace
      · rename_i hunseen
        split at htrace
        · cases htrace
        · rename_i visited'' path'' hloop
          obtain ⟨c, hc, rfl, hcw, hcf, honce, hmarked⟩ := traceLoop_some hops h hlt hloop
          split at htrace
          · cases htrace
          · rename_i hlen
            obtain ⟨rfl, hpath⟩ := Prod.mk.inj htrace
            obtain ⟨a, ha, hastart⟩ := (rated ops).exists_dst hcw hc
            have hpath : path = c.map (·.1) := by
              rw [← Option.some.inj hpath, List.nil_append, List.reverse_reverse]
            rw [List.nil_append, List.reverse_reverse, List.length_map, not_or] at hlen
            exact ⟨c, ⟨⟨hc, ⟨cycleStart, hcw⟩, nodup_of_leavesOnce (rated ops) hcw hcf honce,
              fun a ha => mem_of_pred (hcf a ha)⟩, hcf⟩, hpath, Nat.le_of_not_lt hlen.1,
              Nat.le_of_not_lt hlen.2, ⟨a, ha, fun hseen => hunseen (hastart ▸ hseen)⟩, hmarked⟩

/-- **A WALK BACK THAT COMPLETES IS TRACED**: it ends on a cycle of predecessors no
    longer than there are tokens, once round which the trace is back. -/
theorem traceLoop_of_walkBack (hops : FeesBelowOne ops) (h : Holds (size ops) st (labels ops s))
    {start : Nat} (hstart : start < size ops) {cycleStart : Nat}
    (hwalk : climb (parent ops s) (size ops) start = some cycleStart) (visited : List Bool) :
    ∃ visited' c, PredecessorCycle ops s c ∧ (rated ops).Walk cycleStart c cycleStart ∧
      c.length ≤ size ops ∧ ∀ n fuel, size ops ≤ n → size ops ≤ fuel →
        traceLoop (PriceGraph.build ops) st n cycleStart fuel cycleStart [] visited =
          (visited', some (c.map (·.1)).reverse) := by
  have hlt := climb_lt hops hstart hwalk
  -- the end of a full climb is on a cycle
  obtain ⟨p, hp, hpos, hround⟩ := climb_recurrent (parent ops s) (parent_mem_range hops)
    (Finset.mem_range.mpr hstart) (by rw [Finset.card_range]; exact hwalk)
  rw [Finset.card_range] at hp
  obtain ⟨visited', path, hlen, hloop⟩ := traceLoop_succeeds hops h hlt hpos hround [] visited
  rw [List.length_nil, Nat.zero_add] at hlen hloop
  obtain ⟨c, hc, rfl, hcw, hcf, honce, -⟩ := traceLoop_some hops h hlt (hloop p p le_rfl le_rfl)
  rw [List.nil_append, List.length_reverse, List.length_map] at hlen
  refine ⟨visited', c, ⟨⟨hc, ⟨cycleStart, hcw⟩, nodup_of_leavesOnce (rated ops) hcw hcf honce,
    fun a ha => mem_of_pred (hcf a ha)⟩, hcf⟩, hcw, hlen.trans hp, ?_⟩
  intro n fuel hn hfuel
  exact hloop n fuel (hp.trans hn) (hp.trans hfuel)

/-- The walk back from a token that can climb far enough is traced, if its cycle
    has two to four edges and was not seen before. -/
theorem traceCycle_succeeds (hops : FeesBelowOne ops) (h : Holds (size ops) st (labels ops s))
    (hlength : ∀ c, PredecessorCycle ops s c → 2 ≤ c.length ∧ c.length ≤ 4) {start : Nat}
    (hstart : start < size ops) {cycleStart : Nat}
    (hwalk : climb (parent ops s) (size ops) start = some cycleStart) {visited : List Bool}
    (hvisited : visited.getD cycleStart false = false) :
    ∃ visited' path,
      traceCycle (PriceGraph.build ops) st start visited = (visited', some path) := by
  obtain ⟨visited', c, hcycle, -, -, hloop⟩ := traceLoop_of_walkBack hops h hstart hwalk visited
  obtain ⟨htwo, hfour⟩ := hlength c hcycle
  rw [traceCycle]
  dsimp only
  rw [walkBack_eq hops h _ hstart, hwalk]
  dsimp only
  rw [hvisited, if_neg Bool.false_ne_true, hloop _ _ le_rfl (Nat.le_succ _)]
  dsimp only
  rw [List.reverse_reverse, List.length_map, if_neg (by omega)]
  exact ⟨visited', _, rfl⟩

end Trace

/-! ## The detection pass -/

section Detect

variable {F : Type} [F64 F] (g : PriceGraph F) (st : BellmanFordState F) (m : F)

/-- An edge the detection pass traces from. -/
def Triggers (e : Edge F) : Prop :=
  Edge.bfUsable e = true ∧
    F64.lt (st.distAt e.source + e.weight) (st.distAt e.dest - 1e-9) = true

theorem detectEdge_idle {e : Edge F} (h : ¬Triggers st e) (acc : List Bool × List (ArbPath F)) :
    detectEdge g st m acc e = acc := by
  rw [detectEdge]
  by_cases hu : Edge.bfUsable e = true
  · rw [if_neg (by rw [hu]; decide)]
    exact if_neg fun hlt => h ⟨hu, hlt⟩
  · rw [if_pos (by rw [Bool.eq_false_iff.mpr hu]; rfl)]

theorem detectEdge_traced {e : Edge F} (h : Triggers st e) (acc : List Bool × List (ArbPath F)) :
    detectEdge g st m acc e =
      match traceCycle g st e.dest acc.1 with
      | (visited, none) => (visited, acc.2)
      | (visited, some path) =>
          if F64.lt (1.0 + m) (cycleProfitRatio g path) then
            (visited, acc.2 ++ [buildArbPathFromEdges g path (cycleProfitRatio g path)])
          else (visited, acc.2) := by
  rw [detectEdge]
  rw [if_neg (by rw [h.1]; decide)]
  exact if_pos h.2

/-- What one edge adds to the marks and to the results. -/
theorem detectEdge_results (e : Edge F) (acc : List Bool × List (ArbPath F)) :
    MoreMarks acc.1 (detectEdge g st m acc e).1 ∧
      ((detectEdge g st m acc e).2 = acc.2 ∨
        ∃ path, traceCycle g st e.dest acc.1 = ((detectEdge g st m acc e).1, some path) ∧
          F64.lt (1.0 + m) (cycleProfitRatio g path) = true ∧
          (detectEdge g st m acc e).2 =
            acc.2 ++ [buildArbPathFromEdges g path (cycleProfitRatio g path)]) := by
  by_cases h : Triggers st e
  · rw [detectEdge_traced g st m h]
    have hmore := traceCycle_marks g st e.dest acc.1
    rcases htrace : traceCycle g st e.dest acc.1 with ⟨visited', _ | path⟩
    · rw [htrace] at hmore
      exact ⟨hmore, Or.inl rfl⟩
    · rw [htrace] at hmore
      dsimp only
      by_cases hprofit : F64.lt (1.0 + m) (cycleProfitRatio g path) = true
      · rw [if_pos hprofit]
        exact ⟨hmore, Or.inr ⟨path, rfl, hprofit, rfl⟩⟩
      -- an unprofitable cycle leaves its marks
      · rw [if_neg hprofit]
        exact ⟨hmore, Or.inl rfl⟩
  · rw [detectEdge_idle g st m h]
    exact ⟨MoreMarks.refl acc.1, Or.inl rfl⟩

/-- Results are never taken back. -/
theorem detect_ne_nil {es : List (Edge F)} {acc : List Bool × List (ArbPath F)}
    (h : acc.2 ≠ []) : (es.foldl (detectEdge g st m) acc).2 ≠ [] := by
  induction es generalizing acc with
  | nil => exact h
  | cons e es ih =>
      refine ih ?_
      rcases (detectEdge_results g st m e acc).2 with heq | ⟨path, -, -, heq⟩
      · rw [heq]
        exact h
      · rw [heq]
        exact List.append_ne_nil_of_left_ne_nil h _

/-- The ratio of a path is that of the sum of its weights. -/
theorem cycleProfitRatio_eq {c : List (Arrow F)} (hc : ∀ a ∈ c, g.edges[a.1]? = some a.2) :
    cycleProfitRatio g (c.map (·.1)) = F64.exp (-(weightSum c)) := by
  have hweights : (c.map (·.1)).filterMap (fun idx => (g.edges[idx]?).map (·.weight)) =
      c.map fun a => a.2.weight := by
    rw [List.filterMap_map, ← List.filterMap_eq_map]
    refine List.filterMap_congr ?_
    intro a ha
    show (g.edges[a.1]?).map (·.weight) = some a.2.weight
    rw [hc a ha]
    rfl
  rw [cycleProfitRatio, hweights, weightSum, List.foldl_map]

end Detect

/-! ## Results -/

/-- Profitable cycles of two to four predecessor edges, no two of which meet. -/
structure Reported (ops : List GraphOp) (s : Nat) (m : ExactF64)
    (cs : List (List (Arrow ExactF64))) : Prop where
  cycle : ∀ c ∈ cs, PredecessorCycle ops s c
  length : ∀ c ∈ cs, 2 ≤ c.length ∧ c.length ≤ 4
  profit : ∀ c ∈ cs, profitable m c = true
  apart : cs.Pairwise fun c d => ∀ a ∈ c, ∀ b ∈ d, a.2.dest ≠ b.2.dest

/-- The detection pass has reported such cycles and marked their tokens. -/
structure Detected (ops : List GraphOp) (s : Nat) (m : ExactF64)
    (acc : List Bool × List (ArbPath ExactF64)) : Prop where
  length : acc.1.length = size ops
  results : ∃ cs, Reported ops s m cs ∧ (∀ c ∈ cs, ∀ a ∈ c, Marked acc.1 a.2.dest) ∧
    acc.2 = cs.map report

section Results

variable {st : BellmanFordState ExactF64} {m : ExactF64}

/-- A cycle with an unmarked token meets none whose tokens are all marked. -/
theorem apart_of_unmarked {visited : List Bool} {c d : List (Arrow ExactF64)}
    (hc : PredecessorCycle ops s c) (hd : PredecessorCycle ops s d)
    (hmarked : ∀ a ∈ c, Marked visited a.2.dest) (hunseen : ∃ b ∈ d, ¬Marked visited b.2.dest) :
    ∀ a ∈ c, ∀ b ∈ d, a.2.dest ≠ b.2.dest := by
  intro a ha b hb hmeet
  obtain ⟨v, hv⟩ := hc.closed
  obtain ⟨w, hw⟩ := hd.closed
  obtain ⟨x, hx, hunseen⟩ := hunseen
  exact hunseen (hmarked x
    (cycle_subset_of_meet (rated ops) hw hv hd.followed hc.followed hb ha hmeet.symm x hx))

/-- One edge of the pass. -/
theorem Detected.edge (hops : FeesBelowOne ops) (h : Holds (size ops) st (labels ops s))
    {acc : List Bool × List (ArbPath ExactF64)} (hacc : Detected ops s m acc)
    {e : Edge ExactF64} (he : e.dest < size ops) :
    Detected ops s m (detectEdge (PriceGraph.build ops) st m acc e) := by
  obtain ⟨hmore, hresults⟩ := detectEdge_results (PriceGraph.build ops) st m e acc
  obtain ⟨cs, hcs, hmarked, hacc₂⟩ := hacc.results
  have hkept : ∀ c ∈ cs, ∀ a ∈ c,
      Marked (detectEdge (PriceGraph.build ops) st m acc e).1 a.2.dest :=
    fun c hc a ha => hmore.marked _ (hmarked c hc a ha)
  refine ⟨hmore.length.trans hacc.length, ?_⟩
  rcases hresults with heq | ⟨path, htrace, hprofit, heq⟩
  · exact ⟨cs, hcs, hkept, heq.trans hacc₂⟩
  · obtain ⟨d, hd, rfl, htwo, hfour, hunseen, hdmarked⟩ := traceCycle_some hops h he htrace
    rw [cycleProfitRatio_eq _ hd.edges] at hprofit heq
    refine ⟨cs ++ [d], ⟨?_, ?_, ?_, ?_⟩, ?_, ?_⟩
    · exact List.forall_mem_append.mpr ⟨hcs.cycle, List.forall_mem_singleton.mpr hd⟩
    · exact List.forall_mem_append.mpr ⟨hcs.length, List.forall_mem_singleton.mpr ⟨htwo, hfour⟩⟩
    · exact List.forall_mem_append.mpr ⟨hcs.profit, List.forall_mem_singleton.mpr hprofit⟩
    · refine List.pairwise_append.mpr ⟨hcs.apart, List.pairwise_singleton _ _, ?_⟩
      intro c hc d' hd'
      rw [List.mem_singleton.mp hd']
      exact apart_of_unmarked (hcs.cycle c hc) hd (hmarked c hc) hunseen
    · exact List.forall_mem_append.mpr
        ⟨hkept, List.forall_mem_singleton.mpr (hdmarked hacc.length)⟩
    · rw [heq, hacc₂, List.map_append, List.map_singleton,
        buildArbPath_report (PriceGraph.build ops) d hd.edges]

/-- The pass. -/
theorem Detected.pass (hops : FeesBelowOne ops) (h : Holds (size ops) st (labels ops s))
    {es : List (Edge ExactF64)} (hes : ∀ e ∈ es, e.dest < size ops)
    {acc : List Bool × List (ArbPath ExactF64)} (hacc : Detected ops s m acc) :
    Detected ops s m (es.foldl (detectEdge (PriceGraph.build ops) st m) acc) := by
  induction es generalizing acc with
  | nil => exact hacc
  | cons e es ih =>
      exact ih (fun e' he' => hes e' (List.mem_cons_of_mem e he'))
        (hacc.edge hops h (hes e List.mem_cons_self))

/-- **THE RESULTS** are the reports of such cycles. -/
theorem results_reported (hops : FeesBelowOne ops) (state : BellmanFordState ExactF64) :
    ∃ cs, Reported ops s m cs ∧
      (findArbitrageFrom (PriceGraph.build ops) s state m).2 = cs.map report := by
  have hnone : Reported ops s m [] :=
    ⟨fun _ hc => absurd hc List.not_mem_nil, fun _ hc => absurd hc List.not_mem_nil,
      fun _ hc => absurd hc List.not_mem_nil, List.Pairwise.nil⟩
  rw [findArbitrageFrom]
  dsimp only
  split
  · exact ⟨[], hnone, rfl⟩
  · rename_i hn
    have hs : s < size ops := Nat.lt_of_not_le fun h => hn (Or.inr h)
    have hstart : Detected ops s m (List.replicate (size ops) false, []) :=
      ⟨List.length_replicate, [], hnone, fun _ hc => absurd hc List.not_mem_nil, rfl⟩
    obtain ⟨cs, hcs, -, heq⟩ := (hstart.pass hops (relaxFrom_holds hops hs state)
      fun e he => (GraphInv.build ops).dest_lt_of_mem he).results
    exact ⟨cs, hcs, heq⟩

/-- **EVERY RESULT** is the report of a profitable cycle of predecessor edges. -/
theorem result_is_report (hops : FeesBelowOne ops) {state : BellmanFordState ExactF64}
    {P : ArbPath ExactF64} (hP : P ∈ (findArbitrageFrom (PriceGraph.build ops) s state m).2) :
    ∃ c, PredecessorCycle ops s c ∧ 2 ≤ c.length ∧ c.length ≤ 4 ∧ profitable m c = true ∧
      P = report c := by
  obtain ⟨cs, hcs, heq⟩ := results_reported (s := s) (m := m) hops state
  rw [heq] at hP
  obtain ⟨c, hc, rfl⟩ := List.mem_map.mp hP
  exact ⟨c, hcs.cycle c hc, (hcs.length c hc).1, (hcs.length c hc).2, hcs.profit c hc, rfl⟩

end Results

end MevTracing
