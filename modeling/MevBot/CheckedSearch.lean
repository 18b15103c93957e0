import MevBot.CycleTracing

/-! # Bellman-Ford with every index checked

    `find_arbitrage_from` indexes its buffers, its marks and the edge vector; an
    index outside panics.  This is the function with every index checked as the
    source has it.  Over a graph that keeps its invariant, with buffers that hold
    all its tokens, it returns, and returns what the unchecked one does
    (`findArbitrageFrom_ok`). -/

namespace MevChecked

open MevMachine MevTypes MevGraph MevGraphInv MevTracing
open MevSearch hiding relaxEdge relaxPass relaxPasses walkBack traceLoop traceCycle
  cycleProfitRatio buildArbPathFromEdges detectEdge relaxFrom findArbitrageFrom

/-! ## Indexing -/

/-- An index that panicked. -/
structure OutOfBounds where
  len : Nat
  index : Nat
deriving DecidableEq, Repr

/-- A computation that may index out of bounds. -/
abbrev Checked (α : Type) := Except OutOfBounds α

section Index

variable {α : Type}

/-- `xs[i]`. -/
def readAt (xs : List α) (i : Nat) : Checked α :=
  match xs[i]? with
  | some x => .ok x
  | none => .error ⟨xs.length, i⟩

/-- `xs[i] = x`. -/
def writeAt (xs : List α) (i : Nat) (x : α) : Checked (List α) :=
  if i < xs.length then .ok (xs.set i x) else .error ⟨xs.length, i⟩

/-- An index in range is read. -/
theorem readAt_some {xs : List α} {i : Nat} {x : α} (h : xs[i]? = some x) :
    readAt xs i = .ok x := by
  rw [readAt, h]

theorem readAt_getD {xs : List α} {i : Nat} (h : i < xs.length) (d : α) :
    readAt xs i = .ok (xs.getD i d) := by
  rw [readAt_some (List.getElem?_eq_getElem h), List.getD_eq_getElem?_getD,
    List.getElem?_eq_getElem h]
  rfl

/-- An index in range is written. -/
theorem writeAt_ok {xs : List α} {i : Nat} (h : i < xs.length) (x : α) :
    writeAt xs i x = .ok (xs.set i x) := if_pos h

end Index

/-- What goes on after a step that returned. -/
theorem ok_bind {α β : Type} (a : α) (f : α → Checked β) : (Except.ok a >>= f) = f a := rfl

/-! ## The source -/

section Source

variable {F : Type} [F64 F]

/-- `BellmanFordState::reset`. -/
def reset (st : BellmanFordState F) (n : Nat) : Checked (BellmanFordState F) :=
  (List.range n).foldlM (fun st i => do
    let dist ← writeAt st.dist i F64.infinity
    let predecessor ← writeAt st.predecessor i none
    return ⟨dist, predecessor⟩) (st.ensureCapacity n)

/-- One relaxation: the new buffers, and whether they changed. -/
def relaxEdge (st : BellmanFordState F) (edgeIdx : Nat) (e : Edge F) :
    Checked (BellmanFordState F × Bool) :=
  if !Edge.bfUsable e then return (st, false)
  else do
    let sourceDist ← readAt st.dist e.source
    let newDist := sourceDist + e.weight
    let destDist ← readAt st.dist e.dest
    if F64.lt newDist destDist then
      let dist ← writeAt st.dist e.dest newDist
      let predecessor ← writeAt st.predecessor e.dest (some edgeIdx)
      return (⟨dist, predecessor⟩, true)
    else return (st, false)

/-- One pass over the edges from index `edgeIdx` on. -/
def relaxPass : Nat → List (Edge F) → BellmanFordState F → Checked (BellmanFordState F × Bool)
  | _, [], st => return (st, false)
  | edgeIdx, e :: es, st => do
      let (st, changed) ← relaxEdge st edgeIdx e
      let (st, changed') ← relaxPass (edgeIdx + 1) es st
      return (st, changed || changed')

/-- Up to `k` passes, stopping early after one that changed nothing. -/
def relaxPasses (edges : List (Edge F)) : Nat → BellmanFordState F → Checked (BellmanFordState F)
  | 0, st => return st
  | k + 1, st => do
      let (st, changed) ← relaxPass 0 edges st
      if changed then relaxPasses edges k st else return st

/-- The relaxation loop of `find_arbitrage_from`. -/
def relaxFrom (g : PriceGraph F) (source : Nat) (st : BellmanFordState F) :
    Checked (BellmanFordState F) := do
  let n := g.numTokens
  let st ← reset st n
  let dist ← writeAt st.dist source 0.0
  relaxPasses g.edges (n - 1) { st with dist }

/-- The first loop of `trace_cycle`. -/
def walkBack (g : PriceGraph F) (st : BellmanFordState F) : Nat → Nat → Checked (Option Nat)
  | 0, node => return some node
  | k + 1, node => do
      match ← readAt st.predecessor node with
      | none => return none
      | some edgeIdx =>
          let edge ← readAt g.edges edgeIdx
          walkBack g st k edge.source

/-- The second loop of `trace_cycle`. -/
def traceLoop (g : PriceGraph F) (st : BellmanFordState F) (n cycleStart : Nat) :
    Nat → Nat → List Nat → List Bool → Checked (List Bool × Option (List Nat))
  | 0, _, _, visited => return (visited, none)
  | fuel + 1, current, path, visited => do
      match ← readAt st.predecessor current with
      | none => return (visited, none)
      | some edgeIdx =>
          let visited ← writeAt visited current true
          let path := path ++ [edgeIdx]
          let edge ← readAt g.edges edgeIdx
          if edge.source = cycleStart then return (visited, some path)
          else if path.length > n then return (visited, none)
          else traceLoop g st n cycleStart fuel edge.source path visited

/-- `trace_cycle`. -/
def traceCycle (g : PriceGraph F) (st : BellmanFordState F) (start : Nat)
    (visitedInCycle : List Bool) : Checked (List Bool × Option (List Nat)) := do
  let n := g.numTokens
  match ← walkBack g st n start with
  | none => return (visitedInCycle, none)
  | some cycleStart =>
      if ← readAt visitedInCycle cycleStart then return (visitedInCycle, none)
      else
        match ← traceLoop g st n cycleStart (n + 1) cycleStart [] visitedInCycle with
        | (visited, none) => return (visited, none)
        | (visited, some path) =>
            let path := path.reverse
            if path.length < 2 ∨ path.length > 4 then return (visited, none)
            else return (visited, some path)

/-- `cycle_profit_ratio`. -/
def cycleProfitRatio (g : PriceGraph F) (edgeIndices : List Nat) : Checked F := do
  let weights ← edgeIndices.mapM fun idx => do
    let edge ← readAt g.edges idx
    return edge.weight
  return F64.exp (-(weights.foldl (· + ·) 0.0))

/-- `build_arb_path_from_edges`. -/
def buildArbPathFromEdges (g : PriceGraph F) (edgeIndices : List Nat) (profitRatio : F) :
    Checked (ArbPath F) := do
  let hops ← edgeIndices.mapM fun idx => do
    let edge ← readAt g.edges idx
    return hopOf idx edge
  return { hops, profitRatio, estimatedProfitLamports := 0 }

/-- One edge of the detection pass. -/
def detectEdge (g : PriceGraph F) (st : BellmanFordState F) (minProfitRatio : F)
    (acc : List Bool × List (ArbPath F)) (e : Edge F) :
    Checked (List Bool × List (ArbPath F)) :=
  if !Edge.bfUsable e then return acc
  else do
    let sourceDist ← readAt st.dist e.source
    let newDist := sourceDist + e.weight
    let destDist ← readAt st.dist e.dest
    if F64.lt newDist (destDist - 1e-9) then
      match ← traceCycle g st e.dest acc.1 with
      | (visited, none) => return (visited, acc.2)
      | (visited, some path) =>
          let profitRatio ← cycleProfitRatio g path
          if F64.lt (1.0 + minProfitRatio) profitRatio then
            let arbPath ← buildArbPathFromEdges g path profitRatio
            return (visited, acc.2 ++ [arbPath])
          else return (visited, acc.2)
    else return acc

/-- `find_arbitrage_from`: the cycles found, and the buffers left behind. -/
def findArbitrageFrom (g : PriceGraph F) (source : Nat) (state : BellmanFordState F)
    (minProfitRatio : F) : Checked (BellmanFordState F × List (ArbPath F)) :=
  let n := g.numTokens
  if n = 0 ∨ source ≥ n then return (state, [])
  else do
    let st ← relaxFrom g source state
    let (_, cycles) ← g.edges.foldlM (detectEdge g st minProfitRatio) (List.replicate n false, [])
    return (st, cycles)

end Source

/-! ## Buffers in bounds -/

section Bounds

variable {F : Type} {g : PriceGraph F} {st : BellmanFordState F}

/-- The two buffers are of one length. -/
def Aligned (st : BellmanFordState F) : Prop := st.dist.length = st.predecessor.length

/-- The buffers hold every token, and their entries name edges of the graph. -/
structure InBounds (g : PriceGraph F) (st : BellmanFordState F) : Prop where
  aligned : Aligned st
  dist : g.numTokens ≤ st.dist.length
  stored : ∀ v < g.numTokens, ∀ i, st.predAt v = some i → ∃ e, g.edges[i]? = some e

theorem InBounds.predecessor (h : InBounds g st) : g.numTokens ≤ st.predecessor.length :=
  h.aligned ▸ h.dist

theorem readAt_predecessor {v : Nat} (h : v < st.predecessor.length) :
    readAt st.predecessor v = .ok (st.predAt v) :=
  readAt_getD h none

variable [F64 F]

theorem readAt_dist {v : Nat} (h : v < st.dist.length) : readAt st.dist v = .ok (st.distAt v) :=
  readAt_getD h F64.infinity

/-- The tables of a new state have one length. -/
theorem aligned_new (capacity : Nat) :
    Aligned (BellmanFordState.new capacity : BellmanFordState F) :=
  List.length_replicate.trans List.length_replicate.symm

/-- With room for `n` entries the buffers stay of one length. -/
theorem ensureCapacity_aligned (h : Aligned st) (n : Nat) :
    Aligned (st.ensureCapacity n) ∧ n ≤ (st.ensureCapacity n).dist.length := by
  rw [BellmanFordState.ensureCapacity]
  split
  · rename_i hlt
    have hpred : st.predecessor.length < n := h ▸ hlt
    constructor
    · show (st.dist ++ _).length = (st.predecessor.take n ++ _).length
      rw [List.length_append, List.length_append, List.length_replicate, List.length_replicate,
        List.length_take, h, Nat.min_eq_right (Nat.le_of_lt hpred)]
    · show n ≤ (st.dist ++ _).length
      rw [List.length_append, List.length_replicate]
      omega
  · rename_i hnot
    exact ⟨h, Nat.le_of_not_lt hnot⟩

/-- One step of `reset` over another. -/
theorem set_replicate {α : Type} {xs : List α} {k : Nat} (h : k < xs.length) (x : α) :
    (List.replicate k x ++ xs.drop k).set k x = List.replicate (k + 1) x ++ xs.drop (k + 1) := by
  rw [List.set_append_right _ _ (by rw [List.length_replicate]), List.length_replicate,
    Nat.sub_self, List.drop_eq_getElem_cons h, List.set_cons_zero, List.replicate_succ',
    List.append_assoc]
  rfl

/-- `reset` writes the first `n` entries. -/
theorem reset_ok (h : Aligned st) (n : Nat) : reset st n = .ok (st.reset n) := by
  obtain ⟨haligned, hdist⟩ := ensureCapacity_aligned h n
  have hpred : n ≤ (st.ensureCapacity n).predecessor.length := haligned ▸ hdist
  have hloop : ∀ k ≤ n, (List.range k).foldlM (fun st i => do
        let dist ← writeAt st.dist i F64.infinity
        let predecessor ← writeAt st.predecessor i none
        return (⟨dist, predecessor⟩ : BellmanFordState F)) (st.ensureCapacity n) =
      (.ok ⟨List.replicate k F64.infinity ++ (st.ensureCapacity n).dist.drop k,
        List.replicate k none ++ (st.ensureCapacity n).predecessor.drop k⟩ : Checked _) := by
    intro k hk
    induction k with
    | zero => rfl
    | succ k ih =>
        rw [List.range_succ, List.foldlM_append, ih (Nat.le_of_succ_le hk)]
        show (do
          let dist ← writeAt _ k _
          let predecessor ← writeAt _ k _
          return (⟨dist, predecessor⟩ : BellmanFordState F)) >>= pure = _
        rw [writeAt_ok (by simp; omega), writeAt_ok (by simp; omega)]
        show Except.ok _ = Except.ok _
        rw [set_replicate (by omega), set_replicate (by omega)]
  exact hloop n le_rfl

/-- The buffers the relaxation loop starts with. -/
theorem inBounds_start (h : Aligned st) (source : Nat) :
    InBounds g (st.startFrom g.numTokens source) := by
  obtain ⟨haligned, -⟩ := ensureCapacity_aligned h g.numTokens
  refine ⟨?_, startFrom_dist_length st _ source, ?_⟩
  · show (List.set (List.replicate _ _ ++ _) source _).length = (List.replicate _ _ ++ _).length
    rw [List.length_set, List.length_append, List.length_append, List.length_replicate,
      List.length_replicate, List.length_drop, List.length_drop, haligned]
  · intro v hv i hi
    rw [startFrom_predAt st source hv] at hi
    cases hi

/-- A relaxation of an edge of the graph. -/
theorem relaxEdge_ok (hg : GraphInv g) (h : InBounds g st) {i : Nat} {e : Edge F}
    (he : g.edges[i]? = some e) :
    relaxEdge st i e = .ok (MevSearch.relaxEdge st i e) ∧
      InBounds g (MevSearch.relaxEdge st i e).1 := by
  have hsource : e.source < st.dist.length := Nat.lt_of_lt_of_le (hg.source_lt he) h.dist
  have hdest : e.dest < st.dist.length := Nat.lt_of_lt_of_le (hg.dest_lt he) h.dist
  rw [relaxEdge, MevSearch.relaxEdge]
  by_cases hu : (!Edge.bfUsable e) = true
  · rw [if_pos hu, if_pos hu]
    exact ⟨rfl, h⟩
  · rw [if_neg hu, if_neg hu, readAt_dist hsource, readAt_dist hdest, ok_bind, ok_bind]
    dsimp only
    by_cases hlt : F64.lt (st.distAt e.source + e.weight) (st.distAt e.dest) = true
    · rw [if_pos hlt, if_pos hlt, writeAt_ok hdest, writeAt_ok (h.aligned ▸ hdest)]
      refine ⟨rfl, ?_, ?_, ?_⟩
      · show (List.set _ _ _).length = (List.set _ _ _).length
        rw [List.length_set, List.length_set]
        exact h.aligned
      · show _ ≤ (List.set _ _ _).length
        rw [List.length_set]
        exact h.dist
      -- only the entry of the end of the edge is new
      · intro v hv j hj
        rw [predAt_set (h.aligned ▸ hdest)] at hj
        split at hj
        · obtain rfl : i = j := Option.some.inj hj
          exact ⟨e, he⟩
        · exact h.stored v hv j hj
    · rw [if_neg hlt, if_neg hlt]
      exact ⟨rfl, h⟩

/-- The list holds the edges of the graph from index `i` on. -/
def EdgesFrom (g : PriceGraph F) (i : Nat) (es : List (Edge F)) : Prop :=
  ∀ j e, es[j]? = some e → g.edges[i + j]? = some e

omit [F64 F] in
/-- A pass goes over all edges. -/
theorem edgesFrom_zero (g : PriceGraph F) : EdgesFrom g 0 g.edges := by
  intro j e he
  rwa [Nat.zero_add]

omit [F64 F] in
theorem EdgesFrom.head {i : Nat} {e : Edge F} {es : List (Edge F)} (h : EdgesFrom g i (e :: es)) :
    g.edges[i]? = some e := h 0 e rfl

omit [F64 F] in
theorem EdgesFrom.tail {i : Nat} {e : Edge F} {es : List (Edge F)} (h : EdgesFrom g i (e :: es)) :
    EdgesFrom g (i + 1) es := by
  intro j e' he'
  rw [Nat.add_assoc, Nat.add_comm 1 j]
  exact h (j + 1) e' he'

/-- One pass. -/
theorem relaxPass_ok (hg : GraphInv g) {i : Nat} {es : List (Edge F)} (hes : EdgesFrom g i es)
    (h : InBounds g st) :
    relaxPass i es st = .ok (MevSearch.relaxPass i es st) ∧
      InBounds g (MevSearch.relaxPass i es st).1 := by
  induction es generalizing i st with
  | nil => exact ⟨rfl, h⟩
  | cons e es ih =>
      obtain ⟨hedge, hkept⟩ := relaxEdge_ok hg h hes.head
      obtain ⟨hpass, hkept⟩ := ih hes.tail hkept
      refine ⟨?_, hkept⟩
      rw [relaxPass, hedge, ok_bind]
      dsimp only
      rw [hpass]
      rfl

/-- All passes stay in range. -/
theorem relaxPasses_ok (hg : GraphInv g) (k : Nat) (h : InBounds g st) :
    relaxPasses g.edges k st = .ok (MevSearch.relaxPasses g.edges k st) ∧
      InBounds g (MevSearch.relaxPasses g.edges k st) := by
  induction k generalizing st with
  | zero => exact ⟨rfl, h⟩
  | succ k ih =>
      obtain ⟨hpass, hkept⟩ := relaxPass_ok hg (edgesFrom_zero g) h
      rw [relaxPasses, hpass, ok_bind, MevSearch.relaxPasses]
      dsimp only
      split
      · exact ih hkept
      · exact ⟨rfl, hkept⟩

/-- The relaxation loop. -/
theorem relaxFrom_ok (hg : GraphInv g) (h : Aligned st) {source : Nat}
    (hsource : source < g.numTokens) :
    relaxFrom g source st = .ok (MevSearch.relaxFrom g source st) ∧
      InBounds g (MevSearch.relaxFrom g source st) := by
  have hstart : InBounds g (st.startFrom g.numTokens source) := inBounds_start h source
  have hlen : source < (st.reset g.numTokens).dist.length :=
    Nat.lt_of_lt_of_le hsource (reset_dist_length st g.numTokens)
  obtain ⟨hpasses, hkept⟩ := relaxPasses_ok hg (g.numTokens - 1) hstart
  refine ⟨?_, hkept⟩
  rw [relaxFrom, reset_ok h, ok_bind, writeAt_ok hlen, ok_bind]
  exact hpasses

/-! ## Tracing -/

omit [F64 F] in
/-- The token before one of the graph is one of the graph. -/
theorem source_of_stored (hg : GraphInv g) (h : InBounds g st) {v i : Nat} (hv : v < g.numTokens)
    (hi : st.predAt v = some i) :
    ∃ e, g.edges[i]? = some e ∧ readAt g.edges i = .ok e ∧ e.source < g.numTokens := by
  obtain ⟨e, he⟩ := h.stored v hv i hi
  exact ⟨e, he, readAt_some he, hg.source_lt he⟩

omit [F64 F] in
/-- A walk back stays among the tokens. -/
theorem walkBack_ok (hg : GraphInv g) (h : InBounds g st) (k : Nat) {v : Nat}
    (hv : v < g.numTokens) :
    walkBack g st k v = .ok (MevSearch.walkBack g st k v) ∧
      ∀ u, MevSearch.walkBack g st k v = some u → u < g.numTokens := by
  induction k generalizing v with
  | zero =>
      refine ⟨rfl, ?_⟩
      intro u hu
      rwa [← Option.some.inj hu]
  | succ k ih =>
      rw [walkBack, readAt_predecessor (Nat.lt_of_lt_of_le hv h.predecessor), ok_bind]
      cases hp : st.predAt v with
      | none =>
          rw [MevSearch.walkBack, hp]
          exact ⟨rfl, fun u hu => absurd hu.symm (Option.some_ne_none u)⟩
      | some i =>
          obtain ⟨e, he, hread, hsource⟩ := source_of_stored hg h hv hp
          rw [walkBack_edge hp he]
          dsimp only
          rw [hread]
          exact ih hsource

omit [F64 F] in
/-- A trace over marks for every token; the path it returns names edges of the graph. -/
theorem traceLoop_ok (hg : GraphInv g) (h : InBounds g st) (n cycleStart fuel : Nat)
    {current : Nat} (hcurrent : current < g.numTokens) {path : List Nat}
    (hpath : ∀ i ∈ path, ∃ e, g.edges[i]? = some e) {visited : List Bool}
    (hvisited : visited.length = g.numTokens) :
    traceLoop g st n cycleStart fuel current path visited =
        .ok (MevSearch.traceLoop g st n cycleStart fuel current path visited) ∧
      ∀ p, (MevSearch.traceLoop g st n cycleStart fuel current path visited).2 = some p →
        ∀ i ∈ p, ∃ e, g.edges[i]? = some e := by
  induction fuel generalizing current path visited with
  | zero => exact ⟨rfl, fun p hp => absurd hp.symm (Option.some_ne_none p)⟩
  | succ fuel ih =>
      rw [traceLoop, readAt_predecessor (Nat.lt_of_lt_of_le hcurrent h.predecessor), ok_bind]
      cases hp : st.predAt current with
      | none =>
          rw [MevSearch.traceLoop, hp]
          exact ⟨rfl, fun p hp => absurd hp.symm (Option.some_ne_none p)⟩
      | some i =>
          obtain ⟨e, he, hread, hsource⟩ := source_of_stored hg h hcurrent hp
          have hpath' : ∀ j ∈ path ++ [i], ∃ e, g.edges[j]? = some e :=
            List.forall_mem_append.mpr ⟨hpath, List.forall_mem_singleton.mpr ⟨e, he⟩⟩
          rw [traceLoop_edge hp he]
          dsimp only
          rw [writeAt_ok (hvisited ▸ hcurrent), ok_bind, hread, ok_bind]
          split
          · refine ⟨rfl, ?_⟩
            intro p hp
            rwa [← Option.some.inj hp]
          · split
            · exact ⟨rfl, fun p hp => absurd hp.symm (Option.some_ne_none p)⟩
            · exact ih hsource hpath' (List.length_set.trans hvisited)

omit [F64 F] in
/-- A trace names edges of the graph. -/
theorem traceCycle_ok (hg : GraphInv g) (h : InBounds g st) {start : Nat}
    (hstart : start < g.numTokens) {visited : List Bool}
    (hvisited : visited.length = g.numTokens) :
    traceCycle g st start visited = .ok (MevSearch.traceCycle g st start visited) ∧
      ∀ p, (MevSearch.traceCycle g st start visited).2 = some p →
        ∀ i ∈ p, ∃ e, g.edges[i]? = some e := by
  obtain ⟨hwalk, hrange⟩ := walkBack_ok hg h g.numTokens hstart
  rw [traceCycle, MevSearch.traceCycle]
  dsimp only
  rw [hwalk, ok_bind]
  cases hback : MevSearch.walkBack g st g.numTokens start with
  | none => exact ⟨rfl, fun p hp => absurd hp.symm (Option.some_ne_none p)⟩
  | some cycleStart =>
      have hlt := hrange cycleStart hback
      dsimp only
      rw [readAt_getD (hvisited ▸ hlt) false, ok_bind]
      split
      · exact ⟨rfl, fun p hp => absurd hp.symm (Option.some_ne_none p)⟩
      · have hnil : ∀ i ∈ ([] : List Nat), ∃ e, g.edges[i]? = some e :=
          fun i hi => absurd hi List.not_mem_nil
        obtain ⟨hloop, hedges⟩ :=
          traceLoop_ok hg h g.numTokens cycleStart (g.numTokens + 1) hlt hnil hvisited
        rw [hloop, ok_bind]
        rcases hres : MevSearch.traceLoop g st g.numTokens cycleStart (g.numTokens + 1)
          cycleStart [] visited with ⟨visited', _ | path⟩
        · exact ⟨rfl, fun p hp => absurd hp.symm (Option.some_ne_none p)⟩
        · dsimp only
          split
          · exact ⟨rfl, fun p hp => absurd hp.symm (Option.some_ne_none p)⟩
          · refine ⟨rfl, ?_⟩
            intro p hp i hi
            rw [← Option.some.inj hp, List.mem_reverse] at hi
            exact hedges path (by rw [hres]) i hi

/-! ## Detection -/

omit [F64 F] in
/-- Reading the edges of a path one after the other. -/
theorem mapM_readAt {α : Type} (f : Nat → Edge F → α) {is : List Nat}
    (his : ∀ i ∈ is, ∃ e, g.edges[i]? = some e) :
    (is.mapM fun i => do
        let e ← readAt g.edges i
        return f i e) = (.ok (is.filterMap fun i => (g.edges[i]?).map (f i)) : Checked _) := by
  induction is with
  | nil => rfl
  | cons i is ih =>
      obtain ⟨⟨e, he⟩, his⟩ := List.forall_mem_cons.mp his
      rw [List.mapM_cons, ih his, readAt_some he, List.filterMap_cons, he]
      rfl

/-- The ratio reads edges of the graph. -/
theorem cycleProfitRatio_ok {path : List Nat} (h : ∀ i ∈ path, ∃ e, g.edges[i]? = some e) :
    cycleProfitRatio g path = .ok (MevSearch.cycleProfitRatio g path) := by
  rw [cycleProfitRatio, mapM_readAt (fun _ e => e.weight) h]
  rfl

omit [F64 F] in
/-- The hops are made of edges of the graph. -/
theorem buildArbPathFromEdges_ok {path : List Nat} (h : ∀ i ∈ path, ∃ e, g.edges[i]? = some e)
    (profitRatio : F) :
    buildArbPathFromEdges g path profitRatio =
      .ok (MevSearch.buildArbPathFromEdges g path profitRatio) := by
  rw [buildArbPathFromEdges, mapM_readAt hopOf h]
  rfl

/-- One edge of the detection pass. -/
theorem detectEdge_ok (hg : GraphInv g) (h : InBounds g st) (m : F)
    {acc : List Bool × List (ArbPath F)} (hacc : acc.1.length = g.numTokens) {e : Edge F}
    (he : e ∈ g.edges) :
    detectEdge g st m acc e = .ok (MevSearch.detectEdge g st m acc e) := by
  obtain ⟨i, hi⟩ := List.mem_iff_getElem?.mp he
  rw [detectEdge, MevSearch.detectEdge]
  split
  · rfl
  · rw [readAt_dist (Nat.lt_of_lt_of_le (hg.source_lt hi) h.dist),
      readAt_dist (Nat.lt_of_lt_of_le (hg.dest_lt hi) h.dist), ok_bind, ok_bind]
    dsimp only
    split
    · obtain ⟨hcycle, hedges⟩ := traceCycle_ok hg h (hg.dest_lt hi) hacc
      rw [hcycle, ok_bind]
      rcases hres : MevSearch.traceCycle g st e.dest acc.1 with ⟨visited', _ | path⟩
      · rfl
      · have hpath := hedges path (by rw [hres])
        dsimp only
        rw [cycleProfitRatio_ok hpath, ok_bind]
        split
        · rw [buildArbPathFromEdges_ok hpath, ok_bind]
          rfl
        · rfl
    · rfl

/-- The detection pass. -/
theorem detect_ok (hg : GraphInv g) (h : InBounds g st) (m : F) {es : List (Edge F)}
    (hes : ∀ e ∈ es, e ∈ g.edges) {acc : List Bool × List (ArbPath F)}
    (hacc : acc.1.length = g.numTokens) :
    es.foldlM (detectEdge g st m) acc =
      .ok (es.foldl (MevSearch.detectEdge g st m) acc) := by
  induction es generalizing acc with
  | nil => rfl
  | cons e es ih =>
      obtain ⟨he, hes⟩ := List.forall_mem_cons.mp hes
      have hmarks := (detectEdge_results g st m e acc).1.length
      rw [List.foldlM_cons, detectEdge_ok hg h m hacc he, ok_bind]
      exact ih hes (hmarks.trans hacc)

/-- **NOTHING IS INDEXED OUT OF BOUNDS**: the checked function returns what the
    unchecked one does, and leaves buffers of one length. -/
theorem findArbitrageFrom_ok (hg : GraphInv g) (h : Aligned st) (source : Nat) (m : F) :
    findArbitrageFrom g source st m = .ok (MevSearch.findArbitrageFrom g source st m) ∧
      Aligned (MevSearch.findArbitrageFrom g source st m).1 := by
  rw [findArbitrageFrom, MevSearch.findArbitrageFrom]
  dsimp only
  split
  · exact ⟨rfl, h⟩
  · rename_i hn
    have hsource : source < g.numTokens := Nat.lt_of_not_le fun hle => hn (Or.inr hle)
    obtain ⟨hrelax, hbounds⟩ := relaxFrom_ok hg h hsource
    refine ⟨?_, hbounds.aligned⟩
    rw [hrelax, ok_bind, detect_ok hg hbounds m (fun _ he => he) List.length_replicate, ok_bind]
    rfl

end Bounds

end MevChecked
