import Mathlib.Logic.Function.Basic
import MevBot.Types

/-! # The price graph

    Tokens are numbered in order of appearance; every pool direction is one
    edge, found again by `(pool_address, source_mint)` and updated in place.
    Edges are never deleted: `removePool` only makes them unusable.  Hash maps
    are the functions they look up; a vector is a list, and the index of an
    in-place write is in range on every reachable graph
    (`MevGraphInv.GraphInv`). -/

namespace MevGraph

open MevMachine MevTypes

variable {F : Type}

/-! ## Token registry -/

/-- Maps token mints to compact numeric indices. -/
structure TokenRegistry where
  mintToIndex : Pubkey → Option Nat
  indexToMint : List Pubkey

/-- `TokenRegistry::new`. -/
def TokenRegistry.new : TokenRegistry := ⟨fun _ => none, []⟩

/-- `TokenRegistry::get_or_insert`. -/
def TokenRegistry.getOrInsert (t : TokenRegistry) (mint : Pubkey) : TokenRegistry × Nat :=
  match t.mintToIndex mint with
  | some idx => (t, idx)
  | none =>
      let idx := t.indexToMint.length
      (⟨Function.update t.mintToIndex mint (some idx), t.indexToMint ++ [mint]⟩, idx)

/-- `TokenRegistry::get_index`. -/
def TokenRegistry.getIndex (t : TokenRegistry) (mint : Pubkey) : Option Nat :=
  t.mintToIndex mint

/-- `TokenRegistry::get_mint`. -/
def TokenRegistry.getMint (t : TokenRegistry) (index : Nat) : Option Pubkey :=
  t.indexToMint[index]?

/-- `TokenRegistry::len`. -/
def TokenRegistry.len (t : TokenRegistry) : Nat := t.indexToMint.length

/-! ## Edges and the graph -/

/-- A directed edge representing a swap through a pool. -/
structure Edge (F : Type) where
  source : Nat
  dest : Nat
  poolAddress : Pubkey
  dexType : DexType
  sourceMint : Pubkey
  destMint : Pubkey
  weight : F
  rate : F
  liquidity : UInt64
  lastUpdatedSlot : UInt64

/-- Adjacency-list graph over pool directions. -/
structure PriceGraph (F : Type) where
  tokens : TokenRegistry
  edges : List (Edge F)
  adjacency : List (List Nat)
  poolEdgeIndex : Pubkey × Pubkey → Option Nat

/-- `PriceGraph::new`. -/
def PriceGraph.new : PriceGraph F := ⟨TokenRegistry.new, [], [], fun _ => none⟩

/-- `PriceGraph::num_tokens`. -/
def PriceGraph.numTokens (g : PriceGraph F) : Nat := g.tokens.len

/-- `PriceGraph::num_edges`. -/
def PriceGraph.numEdges (g : PriceGraph F) : Nat := g.edges.length

/-- `PriceGraph::ensure_adjacency`. -/
def PriceGraph.ensureAdjacency (g : PriceGraph F) (node : Nat) : PriceGraph F :=
  { g with adjacency := g.adjacency ++ List.replicate (node + 1 - g.adjacency.length) [] }

/-- The four fields an in-place update writes. -/
def Edge.reprice (e : Edge F) (weight rate : F) (liquidity slot : UInt64) : Edge F :=
  { e with weight, rate, liquidity, lastUpdatedSlot := slot }

/-- `PriceGraph::upsert_edge`, the candidate edge given as a record.  An edge
    already known under its key keeps its endpoints and mints. -/
def PriceGraph.upsertEdge (g : PriceGraph F) (e : Edge F) : PriceGraph F :=
  let key := (e.poolAddress, e.sourceMint)
  match g.poolEdgeIndex key with
  | some edgeIdx =>
      let write := fun old : Edge F => old.reprice e.weight e.rate e.liquidity e.lastUpdatedSlot
      { g with edges := g.edges.modify edgeIdx write }
  | none =>
      let edgeIdx := g.edges.length
      { g with
        edges := g.edges ++ [e]
        adjacency := g.adjacency.modify e.source (· ++ [edgeIdx])
        poolEdgeIndex := Function.update g.poolEdgeIndex key (some edgeIdx) }

/-- The edge of `pool` from mint `a` (index `source`, reserve `amountIn`) to
    mint `b`: its weight is `-ln(rate * (1 - fee))`. -/
def poolEdge [F64 F] (pool : PoolState) (source dest : Nat) (a b : Pubkey)
    (amountIn amountOut : UInt64) : Edge F :=
  let feeRate : F := pool.feeRate
  let rate : F := F64.ofNat amountOut.toNat / F64.ofNat amountIn.toNat
  { source, dest, poolAddress := pool.address, dexType := pool.dexType,
    sourceMint := a, destMint := b,
    weight := -(F64.ln (rate * (1.0 - feeRate))), rate, liquidity := amountOut,
    lastUpdatedSlot := pool.slot }

/-- `PriceGraph::update_pool`: both directions of the pool, or nothing when a
    reserve is zero. -/
def PriceGraph.updatePool [F64 F] (g : PriceGraph F) (pool : PoolState) : PriceGraph F :=
  if pool.tokenAAmount = 0 ∨ pool.tokenBAmount = 0 then g
  else
    let (tokens, idxA) := g.tokens.getOrInsert pool.tokenAMint
    let (tokens, idxB) := tokens.getOrInsert pool.tokenBMint
    let g := ({ g with tokens }.ensureAdjacency idxA).ensureAdjacency idxB
    let g := g.upsertEdge
      (poolEdge pool idxA idxB pool.tokenAMint pool.tokenBMint pool.tokenAAmount pool.tokenBAmount)
    g.upsertEdge
      (poolEdge pool idxB idxA pool.tokenBMint pool.tokenAMint pool.tokenBAmount pool.tokenAAmount)

/-- `PriceGraph::edges_from`. -/
def PriceGraph.edgesFrom (g : PriceGraph F) (tokenIdx : Nat) : List Nat :=
  g.adjacency.getD tokenIdx []

/-- What `remove_pool` writes into an edge of the pool. -/
def Edge.invalidate [F64 F] (e : Edge F) : Edge F :=
  { e with weight := F64.infinity, rate := 0.0, liquidity := 0 }

/-- `PriceGraph::remove_pool`: invalidates every edge of the pool. -/
def PriceGraph.removePool [F64 F] (g : PriceGraph F) (poolAddress : Pubkey) : PriceGraph F :=
  { g with edges := g.edges.map fun e => if e.poolAddress = poolAddress then e.invalidate else e }

/-! ## Histories -/

/-- One mutation of a graph. -/
inductive GraphOp where
  | updatePool (pool : PoolState)
  | removePool (poolAddress : Pubkey)

/-- The mutation an operation names. -/
def PriceGraph.apply [F64 F] (g : PriceGraph F) : GraphOp → PriceGraph F
  | .updatePool pool => g.updatePool pool
  | .removePool poolAddress => g.removePool poolAddress

/-- The graph a history of mutations builds from `PriceGraph::new()`. -/
def PriceGraph.build [F64 F] (ops : List GraphOp) : PriceGraph F :=
  ops.foldl PriceGraph.apply PriceGraph.new

end MevGraph
