import MevBot.CycleSimulation
import MevBot.DfsCorrectness
import MevBot.StrategyHistory

/-! # What an emitted opportunity is worth

    Every opportunity `process_update` emits is a closed trade over distinct
    pools, chained mint by mint and amount by amount, whose advertised profit is
    the exact gain of the quoted chain (`opportunity_wellFormed`).  The mints
    come from the graph, the amounts from the cache: the well-formedness of the
    graph joins the former, the agreement of quotes and optimizer the latter. -/

namespace MevOpportunity

open MevMachine MevTypes MevMath MevGraph MevGraphInv MevSearch MevDfs MevDex MevCache
open MevStrategy MevHistory MevSimulation MevRates MevQuotes MevDfsCorrect MevExact Backtracking

section Hops

variable {F : Type} [F64 F]

/-! ## The hops of a cycle -/

/-- Hops chained mint by mint over distinct pools, from `anchor` to `anchor`. -/
structure ClosedHops (anchor : Pubkey) (hops : List ArbHop) : Prop where
  two_le : 2 ≤ hops.length
  pools : (hops.map (·.poolAddress)).Nodup
  first : hops.head?.map (·.inputMint) = some anchor
  last : hops.getLast?.map (·.outputMint) = some anchor
  joined : hops.IsChain fun a b => a.outputMint = b.inputMint

/-- The mints along a trail of the graph. -/
theorem trail_mints {g : PriceGraph F} (hg : GraphInv g) {v : Nat} {anchor : Pubkey}
    (hv : g.tokens.getMint v = some anchor) (a : Arrow F) (path : List (Arrow F))
    (h : (arrows g).Trail v (a :: path)) :
    a.2.sourceMint = anchor ∧
      g.tokens.getMint ((arrows g).endOf v (a :: path)) =
        (a :: path).getLast?.map (·.2.destMint) ∧
      (a :: path).IsChain fun a b => a.2.destMint = b.2.sourceMint := by
  obtain ⟨hs, hall, hchain⟩ := (trail_cons_iff hg v a path).mp h
  refine ⟨?_, ?_, ?_⟩
  · have hmint := hg.source a.1 a.2 (hall a List.mem_cons_self).1
    rw [hs, hv] at hmint
    exact (Option.some.inj hmint).symm
  · rw [Network.endOf, List.getLast?_eq_some_getLast (List.cons_ne_nil a path)]
    exact hg.dest _ _ (hall _ (List.getLast_mem (List.cons_ne_nil a path))).1
  · -- edges joined at a node are joined at its mint
    refine hchain.imp_of_mem_imp ?_
    intro b c hb hc hjoin
    exact (hg.registry.eq_iff_mint (hg.dest b.1 b.2 (hall b hb).1)
      (hg.source c.1 c.2 (hall c hc).1)).mp hjoin

/-- A cycle the search reports from the index of `anchor` has closed hops. -/
theorem cycle_closedHops {g : PriceGraph F} (hg : GraphInv g) {anchor : Pubkey} {v : Nat}
    (hv : g.tokens.getIndex anchor = some v) {maxHops : Nat} {m : F} {p : ArbPath F}
    (hp : p ∈ findCyclesDfs g v maxHops m) :
    ClosedHops anchor p.hops ∧ p.hops.length ≤ maxHops := by
  obtain ⟨cycle, hcycle, hlen, -, rfl⟩ := (mem_findCyclesDfs g v maxHops m p).mp hp
  have hmint := (hg.registry anchor v).mp hv
  cases cycle with
  | nil => exact absurd hcycle.two_le (by simp)
  | cons a path =>
      -- joined at the nodes, so joined at their mints
      obtain ⟨hfirst, hlast, hchain⟩ := trail_mints hg hmint a path hcycle.trail
      rw [hcycle.closed, hmint] at hlast
      refine ⟨⟨?_, ?_, ?_, ?_, ?_⟩, ?_⟩
      · exact hcycle.two_le.trans_eq (List.length_map _).symm
      · show (((a :: path).map fun a => hopOf a.1 a.2).map (·.poolAddress)).Nodup
        rw [List.map_map]
        exact hcycle.simple
      · exact congrArg some hfirst
      · show (((a :: path).map fun a => hopOf a.1 a.2).getLast?).map (·.outputMint) = _
        rw [List.getLast?_map, Option.map_map]
        exact hlast.symm
      · exact (List.isChain_map _).mpr hchain
      · exact (List.length_map _).trans_le hlen

/-- Steps made from hops inherit what the hops say. -/
theorem steps_of_hops {hops : List ArbHop} {steps : List SwapStep}
    (h : List.Forall₂ StepOf hops steps) :
    steps.length = hops.length ∧
      steps.map (fun s => (s.poolAddress, s.inputMint, s.outputMint)) =
        hops.map (fun s => (s.poolAddress, s.inputMint, s.outputMint)) ∧
      ∀ cache, steps.mapM (fun s => hopState F cache (hopOfStep s)) =
        hops.mapM (hopState F cache) := by
  induction h with
  | nil => exact ⟨rfl, rfl, fun _ => rfl⟩
  | @cons hop step hops steps hstep _ ih =>
      obtain ⟨hlen, hmap, hmapM⟩ := ih
      obtain ⟨hpool, hdex, hin, hout, -⟩ := hstep
      -- the cache is read by pool, exchange and input mint, all copied from the hop
      have hstate : ∀ cache, hopState F cache (hopOfStep step) = hopState F cache hop := by
        intro cache
        unfold hopState hopOfStep
        rw [hpool, hdex, hin]
      refine ⟨congrArg (· + 1) hlen, ?_, ?_⟩
      · rw [List.map_cons, List.map_cons, hmap, hpool, hin, hout]
      · intro cache
        rw [List.mapM_cons, List.mapM_cons, hstate, hmapM]

end Hops

/-! ## Well-formed trades -/

/-- A closed trade whose advertised profit is real on the cached pools. -/
structure WellFormedTrade (F : Type) [F64 F] (cache : AccountCache) (anchorMints : List Pubkey)
    (maxHops : Nat) (minProfitLamports : Int64) (opp : Opportunity) : Prop where
  two_le : 2 ≤ opp.path.length
  le_maxHops : opp.path.length ≤ maxHops
  pools : (opp.path.map (·.poolAddress)).Nodup
  anchored : ∃ anchor ∈ anchorMints, opp.path.head?.map (·.inputMint) = some anchor ∧
    opp.path.getLast?.map (·.outputMint) = some anchor
  joined : opp.path.IsChain fun a b => a.outputMint = b.inputMint
  /-- The amounts: in range, quoted step by step, and the profit both the
      optimizer's and the exact difference. -/
  profit : ∃ amount final states,
    opp.path.head?.map (·.amountIn) = some amount ∧
    1000000 ≤ amount.toNat ∧ amount.toNat ≤ 10000000000 ∧
    QuotedChain F cache amount opp.path final ∧
    opp.path.mapM (fun s => hopState F cache (hopOfStep s)) = some states ∧
    optimizeArbAmount (states.map (·.2)) MAX_INPUT MIN_INPUT =
      (amount, opp.expectedProfitLamports) ∧
    opp.expectedProfitLamports.toInt = (final.toNat : Int) - amount.toNat
  positive : 0 < opp.expectedProfitLamports.toInt
  enough : minProfitLamports ≤ opp.expectedProfitLamports

variable {F : Type} [F64 F]

/-- A simulated cycle with closed hops is a well-formed trade. -/
theorem wellFormed_of_simulated {cache : AccountCache} {anchorMints : List Pubkey}
    {maxHops : Nat} {minProfit : Int64} {hops : List ArbHop} {opp : Opportunity}
    {amount final : UInt64} {anchor : Pubkey} (hanchor : anchor ∈ anchorMints)
    (hclosed : ClosedHops anchor hops) (hlen : hops.length ≤ maxHops)
    (hsim : Simulated F cache hops opp amount final)
    (henough : minProfit ≤ opp.expectedProfitLamports) :
    WellFormedTrade F cache anchorMints maxHops minProfit opp := by
  obtain ⟨hlength, hmap, hmapM⟩ := steps_of_hops (F := F) hsim.steps
  have hpools : opp.path.map (·.poolAddress) = hops.map (·.poolAddress) := by
    have h := congrArg (List.map (·.1)) hmap
    rwa [List.map_map, List.map_map] at h
  have hfirst : opp.path.head?.map (·.inputMint) = hops.head?.map (·.inputMint) := by
    have h := congrArg (fun xs => (List.head? xs).map (·.2.1)) hmap
    simp only [List.head?_map, Option.map_map] at h
    exact h
  have hlast : opp.path.getLast?.map (·.outputMint) = hops.getLast?.map (·.outputMint) := by
    have h := congrArg (fun xs => (List.getLast? xs).map (·.2.2)) hmap
    simp only [List.getLast?_map, Option.map_map] at h
    exact h
  have hjoined : opp.path.IsChain fun a b => a.outputMint = b.inputMint := by
    have hmints := (List.isChain_map (R := fun a b : Pubkey × Pubkey × Pubkey => a.2.2 = b.2.1)
      (fun s : ArbHop => (s.poolAddress, s.inputMint, s.outputMint))).mpr hclosed.joined
    rw [← hmap] at hmints
    exact (List.isChain_map _).mp hmints
  obtain ⟨states, hstates, hopt⟩ := hsim.optimal
  refine ⟨hlength ▸ hclosed.two_le, hlength ▸ hlen, hpools ▸ hclosed.pools,
    ⟨anchor, hanchor, hfirst.trans hclosed.first, hlast.trans hclosed.last⟩, hjoined,
    ⟨amount, final, states, ?_, UInt64.le_iff_toNat_le.mp hsim.amount_ge,
      UInt64.le_iff_toNat_le.mp hsim.amount_le, hsim.chain, (hmapM cache).trans hstates, hopt,
      hsim.exact⟩, hsim.positive, henough⟩
  have hchain := hsim.chain
  cases hpath : opp.path with
  | nil =>
      rw [hpath, List.length_nil] at hlength
      exact absurd (List.eq_nil_of_length_eq_zero hlength.symm) hsim.nonempty
  | cons step steps =>
      rw [hpath] at hchain
      exact congrArg some hchain.1

/-- The opportunities of a strategy whose graph is well formed. -/
theorem findOpportunities_wellFormed {s : DexArbStrategy F} (hg : GraphInv s.mutableGraph)
    {cache : AccountCache} {opp : Opportunity} (h : opp ∈ s.findOpportunities cache) :
    WellFormedTrade F cache s.anchorMints s.maxHops s.minProfitLamports opp := by
  obtain ⟨anchor, hanchor, h⟩ := List.mem_flatMap.mp h
  obtain ⟨cycle, hcycle, h⟩ := List.mem_filterMap.mp h
  obtain ⟨hsim, henough⟩ := Option.filter_eq_some_iff.mp h
  obtain ⟨amount, final, hsim⟩ := simulateCycle_spec hsim
  rw [DexArbStrategy.anchorCycles] at hcycle
  -- an anchor mint that no pool trades has no index and no cycles
  split at hcycle
  · rename_i v hv
    obtain ⟨hclosed, hlen⟩ := cycle_closedHops hg hv hcycle
    exact wellFormed_of_simulated hanchor hclosed hlen hsim (of_decide_eq_true henough)
  · exact absurd hcycle List.not_mem_nil

/-- The graph of a reachable strategy is well formed, also after one more update. -/
theorem reachable_graphInv (minProfit : Int64) (maxHops : Nat) (anchors : List Pubkey)
    (us : List CachedUpdate) :
    GraphInv ((DexArbStrategy.new minProfit maxHops anchors :
      DexArbStrategy F).run us).mutableGraph := by
  rw [run_mutableGraph]
  exact GraphInv.build _

/-- Whatever `process_update` emits from a reachable state is a well-formed trade. -/
theorem emitted_wellFormed {minProfit : Int64} {maxHops : Nat} {anchors : List Pubkey}
    {us : List CachedUpdate} {u : CachedUpdate} {opp : Opportunity}
    (h : opp ∈ (((DexArbStrategy.new minProfit maxHops anchors :
      DexArbStrategy F).run us).processUpdate u.1 u.2).2) :
    WellFormedTrade F u.1 anchors maxHops minProfit opp := by
  rw [processUpdate_opportunities, ← run_concat] at h
  obtain ⟨hmax, hanchors, hmin⟩ := run_params (F := F) minProfit maxHops anchors (us ++ [u])
  cases hdecoded : decodedPool F u with
  | none =>
      rw [hdecoded] at h
      exact absurd h List.not_mem_nil
  | some pool =>
      rw [hdecoded] at h
      have hwell := findOpportunities_wellFormed (reachable_graphInv minProfit maxHops anchors _) h
      rwa [hmax, hanchors, hmin] at hwell

/-! ## An emitted opportunity -/

/-- Two deep Phoenix markets of one pair that disagree by a factor of two. -/
def firstMarket : AccountUpdate := phoenixAccount 101 1 1000000000 2000000000 1

def secondMarket : AccountUpdate := phoenixAccount 102 1 1000000000 1000000000 2

/-- The cache holds both. -/
def marketCache : AccountCache := (AccountCache.new.update firstMarket).update secondMarket

/-- The pool such a market decodes to. -/
def marketPool (address : UInt8) (amountB slot : UInt64) : PoolState :=
  { address := keyOf address, dexType := .phoenix, tokenAMint := keyOf 1, tokenBMint := keyOf 2,
    tokenAVault := Pubkey.default, tokenBVault := Pubkey.default,
    tokenAAmount := 1000000000000, tokenBAmount := amountB,
    feeNumerator := 4, feeDenominator := 10000, slot }

def marketHistory : List GraphOp :=
  [.updatePool (marketPool 101 2000000000000 1), .updatePool (marketPool 102 1000000000000 2)]

theorem markets_decoded :
    decodedPool ExactF64 (AccountCache.new, firstMarket) =
        some (marketPool 101 2000000000000 1) ∧
      decodedPool ExactF64 (marketCache, secondMarket) =
        some (marketPool 102 1000000000000 2) := by
  decide +kernel

theorem marketHistory_fees : FeesBelowOne marketHistory :=
  feesBelowOne_pair (by decide) (by decide)

theorem marketHistory_edges :
    (PriceGraph.build marketHistory).edges.map edgeRow =
      [(0, 1, sampleHop 101 .phoenix 1 2), (1, 0, sampleHop 101 .phoenix 2 1),
        (0, 1, sampleHop 102 .phoenix 1 2), (1, 0, sampleHop 102 .phoenix 2 1)] := by
  decide

omit [F64 F] in
/-- A simulation that is checked to reach a profit. -/
theorem exists_of_any {o : Option Opportunity} {profit : Int64}
    (h : (o.any fun opp => decide (opp.expectedProfitLamports ≥ profit)) = true) :
    ∃ opp, o = some opp ∧ opp.expectedProfitLamports ≥ profit := by
  obtain ⟨opp, hopp, hprofit⟩ := (Option.any_eq_true _ _).mp h
  exact ⟨opp, hopp, of_decide_eq_true hprofit⟩

/-- Buying in the first market and selling in the second simulates to a profit. -/
theorem marketCycle_simulates :
    ∃ opp, DexArbStrategy.simulateCycle marketCache
        (⟨[{ sampleHop 101 .phoenix 1 2 with edgeIndex := 0 },
          { sampleHop 102 .phoenix 2 1 with edgeIndex := 3 }], .nan, 0⟩ : ArbPath ExactF64) =
          some opp ∧ opp.expectedProfitLamports ≥ 1 := by
  refine exists_of_any ?_
  decide +kernel

theorem markets_history :
    historyOf ExactF64 ([(AccountCache.new, firstMarket)] ++ [(marketCache, secondMarket)]) =
      marketHistory := by
  obtain ⟨h1, h2⟩ := markets_decoded
  rw [historyOf_eq_filterMap, List.map_append, List.map_singleton, List.map_singleton, h1, h2]
  rfl

/-- Out through the first market at 2, back through the second at 1. -/
def marketLegs : List Leg :=
  [⟨0, 0, 1, sampleHop 101 .phoenix 1 2, some ⟨1000000000000, 2000000000000, 4, 10000, 1⟩⟩,
    ⟨3, 1, 0, sampleHop 102 .phoenix 2 1, some ⟨1000000000000, 1000000000000, 4, 10000, 2⟩⟩]

theorem marketCycle_found :
    ∃ p ∈ findCyclesDfs (PriceGraph.build marketHistory) 0 4 (0.0001 : ExactF64),
      p.hops = [{ sampleHop 101 .phoenix 1 2 with edgeIndex := 0 },
        { sampleHop 102 .phoenix 2 1 with edgeIndex := 3 }] :=
  found_of_legs marketHistory_fees marketHistory_edges marketLegs (by decide) (by decide)
    (m := 0.0001)
    (by
      simp only [marketLegs, List.map_cons, List.map_nil, List.prod_cons, List.prod_nil, Leg.rate,
        Option.elim_some, effectiveRate, spotRate, keptShare, UInt64.reduceToNat]
      norm_num)

/-- The second market's update makes the strategy emit a trade. -/
theorem marketTrade_emitted :
    ∃ opp, opp ∈ (((DexArbStrategy.new 1 4 [keyOf 1] : DexArbStrategy ExactF64).run
      [(AccountCache.new, firstMarket)]).processUpdate marketCache secondMarket).2 := by
  obtain ⟨opp, hopp, hprofit⟩ := marketCycle_simulates
  exact ⟨opp, emitted_of_hops markets_decoded.2 markets_history List.mem_cons_self (by decide)
    marketCycle_found hopp hprofit⟩

/-! ## The theorem -/

/-- **EVERY EMITTED OPPORTUNITY IS A WELL-FORMED TRADE**, in every reachable state,
    on every cache content and for every update. -/
theorem opportunity_wellFormed (minProfit : Int64) (maxHops : Nat) (anchors : List Pubkey)
    (us : List CachedUpdate) (cache : AccountCache) (update : AccountUpdate) (opp : Opportunity)
    (h : opp ∈ (((DexArbStrategy.new minProfit maxHops anchors :
      DexArbStrategy F).run us).processUpdate cache update).2) :
    WellFormedTrade F cache anchors maxHops minProfit opp :=
  emitted_wellFormed (u := (cache, update)) h

/-- The emitted trade is well formed. -/
theorem marketTrade_wellFormed :
    ∃ opp, WellFormedTrade ExactF64 marketCache [keyOf 1] 4 1 opp := by
  obtain ⟨opp, hopp⟩ := marketTrade_emitted
  exact ⟨opp, opportunity_wellFormed 1 4 [keyOf 1] [(AccountCache.new, firstMarket)] marketCache
    secondMarket opp hopp⟩

end MevOpportunity
