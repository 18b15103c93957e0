import MevBot.PriceGraph

/-! # The two cycle detectors

    `findCyclesDfs` is the bounded depth-first search the strategies run;
    `findArbitrageFrom` is Bellman-Ford from a source, reading its cycles off
    the predecessor edges.  The buffers and stacks the source mutates are
    threaded as state.  Reading an edge index outside the edge vector would
    panic; here it contributes nothing, and reachable graphs never do it. -/

namespace MevSearch

open MevMachine MevTypes MevGraph

variable {F : Type}

/-! ## Paths -/

/-- One hop of an arbitrage path. -/
structure ArbHop where
  poolAddress : Pubkey
  dexType : DexType
  inputMint : Pubkey
  outputMint : Pubkey
  edgeIndex : Nat
deriving DecidableEq, Repr

/-- An arbitrage path through the graph. -/
structure ArbPath (F : Type) where
  hops : List ArbHop
  profitRatio : F
  estimatedProfitLamports : Int64

/-- `ArbPath::num_hops`. -/
def ArbPath.numHops (p : ArbPath F) : Nat := p.hops.length

/-- The hop of an edge. -/
def hopOf (edgeIndex : Nat) (e : Edge F) : ArbHop :=
  { poolAddress := e.poolAddress, dexType := e.dexType,
    inputMint := e.sourceMint, outputMint := e.destMint, edgeIndex }

/-- `build_arb_path_from_edges`. -/
def buildArbPathFromEdges (g : PriceGraph F) (edgeIndices : List Nat) (profitRatio : F) :
    ArbPath F :=
  { hops := edgeIndices.filterMap fun idx => (g.edges[idx]?).map (hopOf idx)
    profitRatio
    estimatedProfitLamports := 0 }

/-! ## Depth-first search -/

/-- The stacks and the result vector of `dfs_recurse`. -/
structure DfsState (F : Type) where
  path : List Nat
  visitedPools : List Pubkey
  results : List (ArbPath F)

/-- `path.push(edge_idx); visited_pools.push(pool)`. -/
def DfsState.push (st : DfsState F) (edgeIdx : Nat) (pool : Pubkey) : DfsState F :=
  { st with path := st.path ++ [edgeIdx], visitedPools := st.visitedPools ++ [pool] }

/-- `visited_pools.pop(); path.pop()`. -/
def DfsState.pop (st : DfsState F) : DfsState F :=
  { st with path := st.path.dropLast, visitedPools := st.visitedPools.dropLast }

/-- The filter of `dfs_recurse`: finite weight, nonzero rate and liquidity. -/
def Edge.dfsUsable [F64 F] (e : Edge F) : Bool :=
  !(F64.isInfinite e.weight || F64.eq e.rate 0.0 || e.liquidity == 0)

/-- A closed cycle: push the edge, record the path if it is profitable, pop. -/
def DfsState.close [F64 F] (g : PriceGraph F) (minProfitRatio newWeight : F) (edgeIdx : Nat)
    (st : DfsState F) : DfsState F :=
  let path := st.path ++ [edgeIdx]
  let profitRatio : F := F64.exp (-newWeight)
  let results :=
    if F64.lt (1.0 + minProfitRatio) profitRatio then
      st.results ++ [buildArbPathFromEdges g path profitRatio]
    else st.results
  { st with path := path.dropLast, results }

/-- One edge of the loop of `dfs_recurse`; `recurse` is the recursive call with
    one hop less. -/
def dfsEdge [F64 F] (g : PriceGraph F) (target : Nat) (minProfitRatio : F)
    (remainingHops : Nat) (cumulativeWeight : F)
    (recurse : Nat → F → DfsState F → DfsState F) (st : DfsState F) (edgeIdx : Nat) :
    DfsState F :=
  match g.edges[edgeIdx]? with
  | none => st
  | some edge =>
      if !Edge.dfsUsable edge then st
      else if edge.poolAddress ∈ st.visitedPools then st
      else
        let newWeight := cumulativeWeight + edge.weight
        if edge.dest = target ∧ st.path ≠ [] then
          st.close g minProfitRatio newWeight edgeIdx
        else if remainingHops > 1 then
          (recurse edge.dest newWeight (st.push edgeIdx edge.poolAddress)).pop
        else st

/-- `dfs_recurse`, by recursion on the remaining hops. -/
def dfsRecurse [F64 F] (g : PriceGraph F) (target : Nat) (minProfitRatio : F) :
    Nat → Nat → F → DfsState F → DfsState F
  | 0, _, _, st => st
  | remainingHops + 1, current, cumulativeWeight, st =>
      (g.edgesFrom current).foldl
        (dfsEdge g target minProfitRatio (remainingHops + 1) cumulativeWeight
          (dfsRecurse g target minProfitRatio remainingHops)) st

/-- `find_cycles_dfs`. -/
def findCyclesDfs [F64 F] (g : PriceGraph F) (source maxHops : Nat) (minProfitRatio : F) :
    List (ArbPath F) :=
  (dfsRecurse g source minProfitRatio maxHops source 0.0 ⟨[], [], []⟩).results

/-! ## Bellman-Ford -/

/-- Pre-allocated buffers; `predecessor` holds the edge that led to a node. -/
structure BellmanFordState (F : Type) where
  dist : List F
  predecessor : List (Option Nat)

/-- `BellmanFordState::new`. -/
def BellmanFordState.new [F64 F] (capacity : Nat) : BellmanFordState F :=
  ⟨List.replicate capacity F64.infinity, List.replicate capacity none⟩

/-- `BellmanFordState::ensure_capacity`. -/
def BellmanFordState.ensureCapacity [F64 F] (st : BellmanFordState F) (n : Nat) :
    BellmanFordState F :=
  if st.dist.length < n then
    ⟨st.dist ++ List.replicate (n - st.dist.length) F64.infinity,
      st.predecessor.take n ++ List.replicate (n - st.predecessor.length) none⟩
  else st

/-- `BellmanFordState::reset`: the first `n` entries. -/
def BellmanFordState.reset [F64 F] (st : BellmanFordState F) (n : Nat) : BellmanFordState F :=
  let st := st.ensureCapacity n
  ⟨List.replicate n F64.infinity ++ st.dist.drop n,
    List.replicate n none ++ st.predecessor.drop n⟩

/-- `dist[i]`. -/
def BellmanFordState.distAt [F64 F] (st : BellmanFordState F) (i : Nat) : F :=
  st.dist.getD i F64.infinity

/-- `predecessor[i]`. -/
def BellmanFordState.predAt (st : BellmanFordState F) (i : Nat) : Option Nat :=
  st.predecessor.getD i none

/-- The filter of `find_arbitrage_from`: it does not look at the liquidity. -/
def Edge.bfUsable [F64 F] (e : Edge F) : Bool :=
  !(F64.isInfinite e.weight || F64.eq e.rate 0.0)

/-- One relaxation: the new buffers, and whether they changed. -/
def relaxEdge [F64 F] (st : BellmanFordState F) (edgeIdx : Nat) (e : Edge F) :
    BellmanFordState F × Bool :=
  if !Edge.bfUsable e then (st, false)
  else
    let newDist := st.distAt e.source + e.weight
    if F64.lt newDist (st.distAt e.dest) then
      (⟨st.dist.set e.dest newDist, st.predecessor.set e.dest (some edgeIdx)⟩, true)
    else (st, false)

/-- One pass over the edges from index `edgeIdx` on. -/
def relaxPass [F64 F] : Nat → List (Edge F) → BellmanFordState F → BellmanFordState F × Bool
  | _, [], st => (st, false)
  | edgeIdx, e :: es, st =>
      let (st, changed) := relaxEdge st edgeIdx e
      let (st, changed') := relaxPass (edgeIdx + 1) es st
      (st, changed || changed')

/-- Up to `k` passes, stopping early after one that changed nothing. -/
def relaxPasses [F64 F] (edges : List (Edge F)) : Nat → BellmanFordState F → BellmanFordState F
  | 0, st => st
  | k + 1, st =>
      let (st, changed) := relaxPass 0 edges st
      if changed then relaxPasses edges k st else st

/-- Walk back `k` predecessor edges. -/
def walkBack (g : PriceGraph F) (st : BellmanFordState F) : Nat → Nat → Option Nat
  | 0, node => some node
  | k + 1, node => do
      let edgeIdx ← st.predAt node
      let edge ← g.edges[edgeIdx]?
      walkBack g st k edge.source

/-- The second loop of `trace_cycle`: follow predecessors until `cycleStart`
    comes up again.  Returns the visited marks and the path in the order
    pushed, or no path when a predecessor is missing or more than `n` edges
    were pushed.  `fuel` bounds the pushes; `n + 1` of them are always enough. -/
def traceLoop (g : PriceGraph F) (st : BellmanFordState F) (n cycleStart : Nat) :
    Nat → Nat → List Nat → List Bool → List Bool × Option (List Nat)
  | 0, _, _, visited => (visited, none)
  | fuel + 1, current, path, visited =>
      match st.predAt current with
      | none => (visited, none)
      | some edgeIdx =>
          -- the token is marked even if the trace fails later
          let visited := visited.set current true
          let path := path ++ [edgeIdx]
          match g.edges[edgeIdx]? with
          | none => (visited, none)
          | some edge =>
              if edge.source = cycleStart then (visited, some path)
              else if path.length > n then (visited, none)
              else traceLoop g st n cycleStart fuel edge.source path visited

/-- `trace_cycle`. -/
def traceCycle (g : PriceGraph F) (st : BellmanFordState F) (start : Nat)
    (visitedInCycle : List Bool) : List Bool × Option (List Nat) :=
  let n := g.numTokens
  match walkBack g st n start with
  | none => (visitedInCycle, none)
  | some cycleStart =>
      if visitedInCycle.getD cycleStart false then (visitedInCycle, none)
      else
        match traceLoop g st n cycleStart (n + 1) cycleStart [] visitedInCycle with
        | (visited, none) => (visited, none)
        | (visited, some path) =>
            let path := path.reverse
            if path.length < 2 ∨ path.length > 4 then (visited, none)
            else (visited, some path)

/-- `cycle_profit_ratio`. -/
def cycleProfitRatio [F64 F] (g : PriceGraph F) (edgeIndices : List Nat) : F :=
  let totalWeight : F :=
    (edgeIndices.filterMap fun idx => (g.edges[idx]?).map (·.weight)).foldl (· + ·) 0.0
  F64.exp (-totalWeight)

/-- One edge of the detection pass. -/
def detectEdge [F64 F] (g : PriceGraph F) (st : BellmanFordState F) (minProfitRatio : F)
    (acc : List Bool × List (ArbPath F)) (e : Edge F) : List Bool × List (ArbPath F) :=
  if !Edge.bfUsable e then acc
  else
    let newDist := st.distAt e.source + e.weight
    if F64.lt newDist (st.distAt e.dest - 1e-9) then
      match traceCycle g st e.dest acc.1 with
      | (visited, none) => (visited, acc.2)
      | (visited, some path) =>
          let profitRatio := cycleProfitRatio g path
          if F64.lt (1.0 + minProfitRatio) profitRatio then
            (visited, acc.2 ++ [buildArbPathFromEdges g path profitRatio])
          else (visited, acc.2)
    else acc

/-- The buffers after the relaxation loop of `find_arbitrage_from`. -/
def relaxFrom [F64 F] (g : PriceGraph F) (source : Nat) (st : BellmanFordState F) :
    BellmanFordState F :=
  let n := g.numTokens
  let st := st.reset n
  relaxPasses g.edges (n - 1) { st with dist := st.dist.set source 0.0 }

/-- `find_arbitrage_from`: the cycles found, and the buffers left behind. -/
def findArbitrageFrom [F64 F] (g : PriceGraph F) (source : Nat) (state : BellmanFordState F)
    (minProfitRatio : F) : BellmanFordState F × List (ArbPath F) :=
  let n := g.numTokens
  if n = 0 ∨ source ≥ n then (state, [])
  else
    let st := relaxFrom g source state
    (st, (g.edges.foldl (detectEdge g st minProfitRatio) (List.replicate n false, [])).2)

/-! ## One predecessor back -/

section Back

variable {g : PriceGraph F} {st : BellmanFordState F} {i : Nat} {e : Edge F}

theorem walkBack_edge {node : Nat} (hp : st.predAt node = some i) (he : g.edges[i]? = some e)
    (k : Nat) : walkBack g st (k + 1) node = walkBack g st k e.source := by
  rw [walkBack, hp]
  show (g.edges[i]?).bind _ = _
  rw [he]
  rfl

theorem traceLoop_edge {current : Nat} (hp : st.predAt current = some i)
    (he : g.edges[i]? = some e) (n cycleStart fuel : Nat) (path : List Nat) (visited : List Bool) :
    traceLoop g st n cycleStart (fuel + 1) current path visited =
      if e.source = cycleStart then (visited.set current true, some (path ++ [i]))
      else if (path ++ [i]).length > n then (visited.set current true, none)
      else traceLoop g st n cycleStart fuel e.source (path ++ [i]) (visited.set current true) := by
  rw [traceLoop, hp]
  dsimp only
  rw [he]

end Back

/-! ## The buffers read back -/

theorem getD_set {α : Type} {xs : List α} {i : Nat} (h : i < xs.length) (x d : α) (v : Nat) :
    (xs.set i x).getD v d = if i = v then x else xs.getD v d := by
  rw [List.getD_eq_getElem?_getD, List.getElem?_set, if_pos h]
  split
  · rfl
  · rw [List.getD_eq_getElem?_getD]

theorem getD_replicate_append {α : Type} {n v : Nat} (hv : v < n) (x d : α) (xs : List α) :
    (List.replicate n x ++ xs).getD v d = x := by
  rw [List.getD_eq_getElem?_getD,
    List.getElem?_append_left (by rw [List.length_replicate]; exact hv), List.getElem?_replicate,
    if_pos hv]
  rfl

section Buffers

variable {st : BellmanFordState F} {n v source dest : Nat}

theorem predAt_set (h : dest < st.predecessor.length) (dist : List F) (i v : Nat) :
    BellmanFordState.predAt ⟨dist, st.predecessor.set dest (some i)⟩ v =
      if dest = v then some i else st.predAt v := getD_set h (some i) _ v

variable [F64 F]

theorem distAt_set (h : dest < st.dist.length) (predecessor : List (Option Nat)) (x : F) (v : Nat) :
    BellmanFordState.distAt ⟨st.dist.set dest x, predecessor⟩ v =
      if dest = v then x else st.distAt v := getD_set h x _ v

/-- The buffers the relaxation loop starts with. -/
def BellmanFordState.startFrom (st : BellmanFordState F) (n source : Nat) : BellmanFordState F :=
  { st.reset n with dist := (st.reset n).dist.set source 0.0 }

theorem reset_dist_length (st : BellmanFordState F) (n : Nat) : n ≤ (st.reset n).dist.length := by
  show n ≤ (List.replicate n F64.infinity ++ _).length
  rw [List.length_append, List.length_replicate]
  exact Nat.le_add_right _ _

theorem startFrom_dist_length (st : BellmanFordState F) (n source : Nat) :
    n ≤ (st.startFrom n source).dist.length := by
  show n ≤ (List.set _ source 0.0).length
  rw [List.length_set]
  exact reset_dist_length st n

theorem startFrom_pred_length (st : BellmanFordState F) (n source : Nat) :
    n ≤ (st.startFrom n source).predecessor.length := by
  show n ≤ (List.replicate n none ++ _).length
  rw [List.length_append, List.length_replicate]
  exact Nat.le_add_right _ _

theorem startFrom_distAt (st : BellmanFordState F) (hs : source < n) (hv : v < n) :
    (st.startFrom n source).distAt v = if source = v then 0.0 else F64.infinity := by
  have hlen : source < (st.reset n).dist.length := Nat.lt_of_lt_of_le hs (reset_dist_length st n)
  have hreset : (st.reset n).dist.getD v F64.infinity = F64.infinity :=
    getD_replicate_append hv _ _ _
  show (List.set (st.reset n).dist source 0.0).getD v F64.infinity = _
  rw [getD_set hlen, hreset]

theorem startFrom_predAt (st : BellmanFordState F) (source : Nat) (hv : v < n) :
    (st.startFrom n source).predAt v = none :=
  getD_replicate_append hv none none _

end Buffers

end MevSearch
