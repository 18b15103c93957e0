import Mathlib.Data.List.Induction
import MevBot.AdapterFacts
import MevBot.DfsRefinement

/-! # What the DEX strategy's graph has seen

    Whatever updates `process_update` is given, on whatever cache contents, the
    strategy's graph is the one built from the pools those updates decoded to:
    the strategy calls `update_pool` and nothing else (`run_mutableGraph`).  So
    an edge of a pool always comes from an update of that pool that decoded with
    both reserves nonzero (`edge_source`). -/

namespace MevHistory

open MevMachine MevTypes MevGraph MevGraphInv MevSearch MevDfs MevDex MevCache MevStrategy
open MevAdapterFacts

variable (F : Type) [F64 F]

/-! ## Histories -/

/-- An account update with the cache content at the moment it is processed. -/
abbrev CachedUpdate := AccountCache × AccountUpdate

/-- The pool `process_update` reads off an update, reserves filled in. -/
def decodedPool (u : CachedUpdate) : Option PoolState :=
  (decodeAny F u.2).map (populateReserves u.1)

/-- The graph operations a sequence of updates causes. -/
def historyOf (us : List CachedUpdate) : List GraphOp :=
  us.filterMap fun u => (decodedPool F u).map .updatePool

/-- An update of the pool at `p` that decodes with both reserves nonzero. -/
def Live (p : Pubkey) (u : CachedUpdate) : Prop :=
  u.2.pubkey = p ∧ ∃ pool, decodedPool F u = some pool ∧ Funded pool

variable {F}

theorem decodedPool_stamped {u : CachedUpdate} {pool : PoolState}
    (h : decodedPool F u = some pool) : pool.address = u.2.pubkey ∧ pool.slot = u.2.slot := by
  obtain ⟨decoded, hdecoded, rfl⟩ := Option.map_eq_some_iff.mp h
  obtain ⟨haddr, hslot⟩ := decodeAny_stamped hdecoded
  exact ⟨haddr, hslot⟩

/-- The strategy `s'` after `s` took in a pool. -/
structure Absorbed (s : DexArbStrategy F) (pool : PoolState) (s' : DexArbStrategy F) : Prop where
  mutableGraph : s'.mutableGraph = s.mutableGraph.updatePool pool
  maxHops : s'.maxHops = s.maxHops
  anchorMints : s'.anchorMints = s.anchorMints
  minProfitLamports : s'.minProfitLamports = s.minProfitLamports

theorem absorb_absorbed (s : DexArbStrategy F) (pool : PoolState) :
    Absorbed s pool (s.absorb pool) := by
  rw [DexArbStrategy.absorb]
  -- whether the snapshot is published makes no difference here
  split
  · exact ⟨rfl, rfl, rfl, rfl⟩
  · exact ⟨rfl, rfl, rfl, rfl⟩

/-- **ONE UPDATE** does nothing, or takes in the pool it decodes to and searches
    the graph it leaves. -/
theorem processUpdate_cases (s : DexArbStrategy F) (u : CachedUpdate) :
    (decodedPool F u = none ∧ s.processUpdate u.1 u.2 = (s, [])) ∨
      ∃ pool s', decodedPool F u = some pool ∧ Absorbed s pool s' ∧
        s.processUpdate u.1 u.2 = (s', s'.findOpportunities u.1) := by
  rw [DexArbStrategy.processUpdate, DexArbStrategy.tryDecodePool, decodedPool]
  cases decodeAny F u.2 with
  | none => exact Or.inl ⟨rfl, rfl⟩
  | some pool =>
      have h := absorb_absorbed { s with
        vaultTracker := s.vaultTracker.registerVaults pool.tokenAVault pool.tokenBVault }
        (populateReserves u.1 pool)
      exact Or.inr ⟨_, _, rfl, ⟨h.mutableGraph, h.maxHops, h.anchorMints, h.minProfitLamports⟩, rfl⟩

theorem processUpdate_mutableGraph (s : DexArbStrategy F) (u : CachedUpdate) :
    (s.processUpdate u.1 u.2).1.mutableGraph =
      ((decodedPool F u).elim s.mutableGraph s.mutableGraph.updatePool) := by
  rcases processUpdate_cases s u with ⟨hnone, heq⟩ | ⟨pool, s', hsome, habs, heq⟩
  · rw [heq, hnone]
    rfl
  · rw [heq, hsome]
    exact habs.mutableGraph

/-- What `process_update` emits is found on the state it leaves. -/
theorem processUpdate_opportunities (s : DexArbStrategy F) (u : CachedUpdate) :
    (s.processUpdate u.1 u.2).2 =
      (decodedPool F u).elim [] fun _ => (s.processUpdate u.1 u.2).1.findOpportunities u.1 := by
  rcases processUpdate_cases s u with ⟨hnone, heq⟩ | ⟨pool, s', hsome, -, heq⟩
  · rw [heq, hnone]
    rfl
  · rw [heq, hsome]
    rfl

/-- The parameters a strategy was made with never change. -/
theorem processUpdate_params (s : DexArbStrategy F) (u : CachedUpdate) :
    (s.processUpdate u.1 u.2).1.maxHops = s.maxHops ∧
      (s.processUpdate u.1 u.2).1.anchorMints = s.anchorMints ∧
      (s.processUpdate u.1 u.2).1.minProfitLamports = s.minProfitLamports := by
  rcases processUpdate_cases s u with ⟨-, heq⟩ | ⟨pool, s', -, habs, heq⟩
  · rw [heq]
    exact ⟨rfl, rfl, rfl⟩
  · rw [heq]
    exact ⟨habs.maxHops, habs.anchorMints, habs.minProfitLamports⟩

theorem run_concat (s : DexArbStrategy F) (us : List CachedUpdate) (u : CachedUpdate) :
    s.run (us ++ [u]) = ((s.run us).processUpdate u.1 u.2).1 := by
  rw [DexArbStrategy.run, List.foldl_append]
  rfl

theorem historyOf_concat (us : List CachedUpdate) (u : CachedUpdate) :
    historyOf F (us ++ [u]) = historyOf F us ++ ((decodedPool F u).map .updatePool).toList := by
  rw [historyOf, List.filterMap_append]
  cases h : decodedPool F u with
  | none => simp [h, historyOf]
  | some pool => simp [h, historyOf]

theorem historyOf_eq_filterMap (us : List CachedUpdate) :
    historyOf F us = (us.map (decodedPool F)).filterMap fun d => d.map .updatePool := by
  rw [List.filterMap_map]
  rfl

/-- **THE STRATEGY'S GRAPH** is built from the pools its updates decoded to. -/
theorem run_mutableGraph (minProfit : Int64) (maxHops : Nat) (anchors : List Pubkey)
    (us : List CachedUpdate) :
    ((DexArbStrategy.new minProfit maxHops anchors : DexArbStrategy F).run us).mutableGraph =
      PriceGraph.build (historyOf F us) := by
  induction us using List.reverseRecOn with
  | nil => rfl
  | append_singleton us u ih =>
      rw [run_concat, processUpdate_mutableGraph, ih, historyOf_concat, PriceGraph.build,
        PriceGraph.build, List.foldl_append]
      cases decodedPool F u with
      | none => rfl
      | some pool => rfl

theorem run_params (minProfit : Int64) (maxHops : Nat) (anchors : List Pubkey)
    (us : List CachedUpdate) :
    let s := (DexArbStrategy.new minProfit maxHops anchors : DexArbStrategy F).run us
    s.maxHops = maxHops ∧ s.anchorMints = anchors ∧ s.minProfitLamports = minProfit := by
  induction us using List.reverseRecOn with
  | nil => exact ⟨rfl, rfl, rfl⟩
  | append_singleton us u ih =>
      rw [run_concat]
      obtain ⟨h1, h2, h3⟩ := processUpdate_params
        ((DexArbStrategy.new minProfit maxHops anchors : DexArbStrategy F).run us) u
      exact ⟨h1.trans ih.1, h2.trans ih.2.1, h3.trans ih.2.2⟩

/-- The cycles the strategy looks at for an anchor are those of the graph it built. -/
theorem anchorCycles_run {minProfit : Int64} {maxHops : Nat} {anchors : List Pubkey}
    (us : List CachedUpdate) {anchor : Pubkey} {v : Nat}
    (hv : (PriceGraph.build (historyOf F us) : PriceGraph F).tokens.getIndex anchor = some v) :
    ((DexArbStrategy.new minProfit maxHops anchors : DexArbStrategy F).run us).anchorCycles
        anchor =
      findCyclesDfs (PriceGraph.build (historyOf F us)) v maxHops 0.0001 := by
  obtain ⟨hmax, -, -⟩ := run_params (F := F) minProfit maxHops anchors us
  rw [DexArbStrategy.anchorCycles, run_mutableGraph, hv, hmax]

/-- A cycle found from an anchor that simulates to enough profit is emitted. -/
theorem emitted_of_found {minProfit : Int64} {maxHops : Nat} {anchors : List Pubkey}
    {us : List CachedUpdate} {u : CachedUpdate} {pool : PoolState}
    (hdecoded : decodedPool F u = some pool) {anchor : Pubkey} (hanchor : anchor ∈ anchors)
    {v : Nat} (hv : (PriceGraph.build (historyOf F (us ++ [u])) :
      PriceGraph F).tokens.getIndex anchor = some v) {p : ArbPath F}
    (hp : p ∈ findCyclesDfs (PriceGraph.build (historyOf F (us ++ [u]))) v maxHops 0.0001)
    {opp : Opportunity} (hsim : DexArbStrategy.simulateCycle u.1 p = some opp)
    (hmin : opp.expectedProfitLamports ≥ minProfit) :
    opp ∈ (((DexArbStrategy.new minProfit maxHops anchors : DexArbStrategy F).run us).processUpdate
      u.1 u.2).2 := by
  obtain ⟨-, h2, h3⟩ := run_params (F := F) minProfit maxHops anchors (us ++ [u])
  -- the search runs on the graph that the update itself has left
  rw [processUpdate_opportunities, hdecoded, Option.elim_some, ← run_concat,
    DexArbStrategy.findOpportunities, List.mem_flatMap, h2]
  refine ⟨anchor, hanchor, List.mem_filterMap.mpr ⟨p, ?_, ?_⟩⟩
  · rw [anchorCycles_run (us ++ [u]) hv]
    exact hp
  · rw [h3]
    exact Option.filter_eq_some_iff.mpr ⟨hsim, decide_eq_true hmin⟩

/-- `simulate_cycle` looks at the hops of a path only. -/
theorem simulateCycle_hops {cache : AccountCache} {p q : ArbPath F} (h : p.hops = q.hops) :
    DexArbStrategy.simulateCycle cache p = DexArbStrategy.simulateCycle cache q := by
  rw [DexArbStrategy.simulateCycle, DexArbStrategy.simulateCycle, ArbPath.numHops, ArbPath.numHops,
    h]

/-- The same for a history worked out and a path with the hops of the one found. -/
theorem emitted_of_hops {minProfit : Int64} {maxHops : Nat} {anchors : List Pubkey}
    {us : List CachedUpdate} {u : CachedUpdate} {pool : PoolState}
    (hdecoded : decodedPool F u = some pool) {ops : List GraphOp}
    (hops : historyOf F (us ++ [u]) = ops) {anchor : Pubkey} (hanchor : anchor ∈ anchors)
    {v : Nat} (hv : (PriceGraph.build ops : PriceGraph F).tokens.getIndex anchor = some v)
    {q : ArbPath F}
    (hfound : ∃ p ∈ findCyclesDfs (PriceGraph.build ops : PriceGraph F) v maxHops 0.0001,
      p.hops = q.hops)
    {opp : Opportunity} (hsim : DexArbStrategy.simulateCycle u.1 q = some opp)
    (hmin : opp.expectedProfitLamports ≥ minProfit) :
    opp ∈ (((DexArbStrategy.new minProfit maxHops anchors : DexArbStrategy F).run us).processUpdate
      u.1 u.2).2 := by
  subst hops
  obtain ⟨p, hp, hhops⟩ := hfound
  exact emitted_of_found hdecoded hanchor hv hp ((simulateCycle_hops hhops).trans hsim) hmin

/-! ## Where an edge comes from -/

/-- An edge of the strategy's graph was written by a live update of its pool. -/
theorem edge_source (us : List CachedUpdate) {i : Nat} {e : Edge F}
    (he : (PriceGraph.build (historyOf F us) : PriceGraph F).edges[i]? = some e) :
    ∃ u ∈ us, Live F e.poolAddress u := by
  obtain ⟨pool, hmem, hfund, hroute⟩ := build_edge_origin _ he
  obtain ⟨u, hu, hpool⟩ := List.mem_filterMap.mp hmem
  obtain ⟨pool', hdecoded, heq⟩ := Option.map_eq_some_iff.mp hpool
  obtain rfl := GraphOp.updatePool.inj heq
  exact ⟨u, hu, (decodedPool_stamped hdecoded).1.symm.trans hroute.address, pool', hdecoded, hfund⟩

/-! ## Sample markets -/

/-- A Phoenix market account: status, mints, lot sizes and tick size; the quote
    lot size is one and the vaults are not set. -/
def phoenixData (status : UInt8) (base quote : Pubkey) (baseLot tickSize : Nat) : List UInt8 :=
  List.replicate 8 0 ++ [status] ++ List.replicate 63 0 ++ base.bytes.toList
    ++ toLeBytes 8 baseLot ++ List.replicate 40 0 ++ quote.bytes.toList
    ++ toLeBytes 8 1 ++ toLeBytes 8 tickSize ++ List.replicate 312 0

/-- An account update of a Phoenix market over two fixed mints. -/
def phoenixAccount (address status : UInt8) (baseLot tickSize : Nat) (slot : UInt64) :
    AccountUpdate :=
  { pubkey := ⟨Vector.replicate 32 address⟩, slot
    data := phoenixData status ⟨Vector.replicate 32 1⟩ ⟨Vector.replicate 32 2⟩ baseLot tickSize
    lamports := 0, owner := PHOENIX }

end MevHistory
