import MevBot.DuplicateCycles
import MevBot.RoundingBound

/-! # What the coarse filter discards

    The search keeps a cycle when the product of its effective rates passes a
    threshold of 0.01%, before any amount is simulated.  On a graph that agrees
    with the cache this is the whole difference between the cycles simulation
    accepts and the ones returned (`screened_exactly`).  The threshold is
    relative and the profit wanted is absolute, so the filter does discard
    profit (`deep_profit_discarded`): at most a ten-thousandth of the largest
    input, and what the rounded-down fees are worth. -/

namespace MevCoarseFilter

open MevMachine MevTypes MevMath MevGraph MevGraphInv MevQuotes MevSearch MevDfs MevDex MevCache
open MevStrategy MevHistory MevSimulation MevOpportunity MevDfsCorrect MevDuplicates
open MevExact ExactF64 Backtracking
open MevRates hiding effectiveRate spotRate
open MevRounding

/-! ## The cached price of a hop -/

/-- The price at which the cache offers a hop; the slot prices nothing. -/
def cachedPrice (p : HopParams) : EdgePrice :=
  ⟨p.reserveIn, p.reserveOut, p.feeNumerator, p.feeDenominator, 0⟩

/-- Every edge shows the rate and the fee of the cached pool and vaults, as far as the
    cache has them. -/
def Agrees (g : PriceGraph ExactF64) (cache : AccountCache) : Prop :=
  ∀ (i : Nat) (e : Edge ExactF64), g.edges[i]? = some e →
    ∀ pool p, hopState ExactF64 cache (hopOf i e) = some (pool, p) →
      e.rate = (cachedPrice p).rate ∧ e.weight = (cachedPrice p).weight

/-- The optimizer's rate of a hop is the graph's. -/
theorem effectiveRate_cast (p : HopParams) :
    (effectiveRate p : ℝ) = MevRates.effectiveRate (cachedPrice p) := by
  rw [effectiveRate, spotRate, feeShare, MevRates.effectiveRate, MevRates.spotRate, keptShare]
  push_cast
  rfl

/-- The rate the cache has for an edge. -/
noncomputable def cachedRate (cache : AccountCache) (a : Arrow ExactF64) : ℝ :=
  (hopState ExactF64 cache (hopOf a.1 a.2)).elim 0 fun s => (effectiveRate s.2 : ℝ)

section Cycle

variable {g : PriceGraph ExactF64} {cache : AccountCache}

/-- An edge that agrees with the cache is a sound hop weighed by its rate. -/
theorem Agrees.weighed (h : Agrees g cache) {a : Arrow ExactF64} (he : g.edges[a.1]? = some a.2)
    (hu : Usable a.2) {pool : PoolState} {p : HopParams}
    (hstate : hopState ExactF64 cache (hopOf a.1 a.2) = some (pool, p)) :
    SoundHop p ∧ a.2.weight = fin (-Real.log (cachedRate cache a)) ∧ 0 < cachedRate cache a := by
  obtain ⟨hin, hout, -⟩ := hopState_spec hstate
  obtain ⟨-, hweight⟩ := h a.1 a.2 he pool p hstate
  obtain ⟨w, hw⟩ := hu.weight
  have hsound : Sound (cachedPrice p) := sound_of_weight hin hout (hweight.symm.trans hw)
  have hrate : cachedRate cache a = MevRates.effectiveRate (cachedPrice p) := by
    rw [cachedRate, hstate]
    exact effectiveRate_cast p
  rw [hrate]
  exact ⟨⟨hin, hout, hsound.fee⟩, hweight.trans hsound.weight_eq, hsound.effectiveRate_pos⟩

/-- A cycle of usable edges that the cache prices: its hops are sound, and its weights those
    of their rates. -/
theorem Agrees.cycle (h : Agrees g cache) {cycle : List (Arrow ExactF64)}
    {states : List (PoolState × HopParams)}
    (hedges : ∀ a ∈ cycle, g.edges[a.1]? = some a.2 ∧ Usable a.2)
    (hstates : (cycle.map fun a => hopOf a.1 a.2).mapM (hopState ExactF64 cache) = some states) :
    (∀ p ∈ states.map (·.2), SoundHop p) ∧ WeighedBy (cachedRate cache) cycle ∧
      (cycle.map (cachedRate cache)).prod =
        (((states.map (·.2)).map effectiveRate).prod : ℚ) := by
  induction cycle generalizing states with
  | nil =>
      obtain rfl := Option.some.inj hstates
      exact ⟨fun _ hp => absurd hp List.not_mem_nil, fun _ ha => absurd ha List.not_mem_nil,
        Rat.cast_one.symm⟩
  | cons a cycle ih =>
      obtain ⟨⟨pool, p⟩, rest, rfl, hstate, hrest⟩ := mapM_cons_some hstates
      obtain ⟨he, hu⟩ := hedges a List.mem_cons_self
      obtain ⟨hsound, hweight⟩ := h.weighed he hu hstate
      obtain ⟨hsounds, hweights, hprod⟩ :=
        ih (fun b hb => hedges b (List.mem_cons_of_mem a hb)) hrest
      refine ⟨?_, ?_, ?_⟩
      · intro q hq
        rcases List.mem_cons.mp hq with rfl | hq
        · exact hsound
        · exact hsounds q hq
      · intro b hb
        rcases List.mem_cons.mp hb with rfl | hb
        · exact hweight
        · exact hweights b hb
      · rw [List.map_cons, List.prod_cons, hprod, cachedRate, hstate, List.map_cons,
          List.map_cons, List.prod_cons, Rat.cast_mul]
        rfl

/-- The search keeps such a cycle when the product of its rates passes 1.0001. -/
theorem Agrees.profitable_iff (h : Agrees g cache) {cycle : List (Arrow ExactF64)}
    {states : List (PoolState × HopParams)}
    (hedges : ∀ a ∈ cycle, g.edges[a.1]? = some a.2 ∧ Usable a.2)
    (hstates : (cycle.map fun a => hopOf a.1 a.2).mapM (hopState ExactF64 cache) = some states) :
    profitable (0.0001 : ExactF64) cycle = true ↔
      1.0001 < ((states.map (·.2)).map effectiveRate).prod := by
  obtain ⟨-, hweights, hprod⟩ := h.cycle hedges hstates
  rw [fin_scientific, hweights.profitable_iff, hprod]
  constructor
  · intro hlt
    refine (Rat.cast_lt (K := ℝ)).mp (lt_of_eq_of_lt ?_ hlt)
    norm_num
  · intro hlt
    refine lt_of_eq_of_lt ?_ ((Rat.cast_lt (K := ℝ)).mpr hlt)
    norm_num

end Cycle

/-! ## The filter -/

/-- **WHAT FIND_OPPORTUNITIES RETURNS OF A CYCLE**: the opportunity simulated for it, when
    the search keeps it. -/
theorem mem_findOpportunities_iff {F : Type} [F64 F] {s : DexArbStrategy F}
    (hg : GraphInv s.mutableGraph) {cache : AccountCache} {anchor : Pubkey}
    (hanchor : anchor ∈ s.anchorMints) {v : Nat}
    (hv : s.mutableGraph.tokens.getIndex anchor = some v) {cycle : List (Arrow F)}
    (hc : (arrows s.mutableGraph).Cycle v cycle) (hlen : cycle.length ≤ s.maxHops)
    {opp : Opportunity} (hsim : DexArbStrategy.simulateCycle cache (report cycle) = some opp)
    (hmin : s.minProfitLamports ≤ opp.expectedProfitLamports) :
    opp ∈ s.findOpportunities cache ↔ profitable (0.0001 : F) cycle = true := by
  constructor
  · intro h
    obtain ⟨anchor', -, h⟩ := List.mem_flatMap.mp h
    obtain ⟨v', cycle', -, hprofit, hc', hsim'⟩ := mem_found h
    -- the hops of the opportunity tell the cycle it was simulated for
    have hkeys := (hopKeys_of_simulated hsim).symm.trans (hopKeys_of_simulated hsim')
    rwa [cycle_eq_of_keys hg hc hc' hkeys]
  · intro hprofit
    refine List.mem_flatMap.mpr ⟨anchor, hanchor, List.mem_filterMap.mpr ⟨report cycle, ?_, ?_⟩⟩
    · rw [DexArbStrategy.anchorCycles, hv]
      exact (mem_findCyclesDfs _ _ _ _ _).mpr ⟨cycle, hc, hlen, hprofit, rfl⟩
    · exact Option.filter_eq_some_iff.mpr ⟨hsim, decide_eq_true hmin⟩

/-- What simulation finds in a cycle is bounded by the product of its rates: a part of the
    largest input, and the dropped fees. -/
theorem simulated_profit_le {F : Type} [F64 F] {cache : AccountCache} {path : ArbPath F}
    {opp : Opportunity} (hsim : DexArbStrategy.simulateCycle cache path = some opp)
    {states : List (PoolState × HopParams)}
    (hstates : path.hops.mapM (hopState F cache) = some states)
    (hsound : ∀ p ∈ states.map (·.2), SoundHop p) {gain : ℚ} (hgain : 0 ≤ gain)
    (hrate : ((states.map (·.2)).map effectiveRate).prod ≤ 1 + gain) :
    (opp.expectedProfitLamports.toInt : ℚ) ≤
      gain * 10000000000 + droppedBound (states.map (·.2)) := by
  obtain ⟨amount, final, hspec⟩ := simulateCycle_spec hsim
  obtain ⟨states', hstates', hopt⟩ := hspec.optimal
  obtain rfl := Option.some.inj (hstates.symm.trans hstates')
  have hle : amount.toNat ≤ 10000000000 := UInt64.le_iff_toNat_le.mp hspec.amount_le
  have hsearch := optimizeArbAmount_spec (states.map (·.2)) MAX_INPUT MIN_INPUT
    (by decide) (by decide)
  rw [hopt] at hsearch
  rcases hsearch with hzero | ⟨-, -, hprofit⟩
  -- without a search there is no profit
  · obtain ⟨-, hzero⟩ := Prod.mk.inj hzero
    have hpos := hspec.positive
    rw [hzero] at hpos
    exact absurd hpos (by decide)
  · have hbound := simulateCycle_le hsound hgain hrate (Nat.lt_of_le_of_lt hle (by decide))
    rw [← show opp.expectedProfitLamports = _ from hprofit] at hbound
    have hinput := mul_le_mul_of_nonneg_left (Nat.cast_le (α := ℚ).mpr hle) hgain
    have hdropped := droppedValue_le_bound hsound amount
    push_cast at hinput
    linarith

/-- **WHAT THE COARSE FILTER DISCARDS**, in every reachable state whose graph agrees with the
    cache: of the cycles that simulation accepts exactly those whose effective rates multiply
    to at most 1.0001, and with them at most a million lamports and the value of the
    rounded-down fees. -/
theorem screened_exactly (minProfit : Int64) (maxHops : Nat) (anchors : List Pubkey)
    (us : List CachedUpdate) (cache : AccountCache)
    (hagree : Agrees ((DexArbStrategy.new minProfit maxHops anchors :
      DexArbStrategy ExactF64).run us).mutableGraph cache)
    {anchor : Pubkey} (hanchor : anchor ∈ anchors) {v : Nat}
    (hv : ((DexArbStrategy.new minProfit maxHops anchors :
      DexArbStrategy ExactF64).run us).mutableGraph.tokens.getIndex anchor = some v)
    {cycle : List (Arrow ExactF64)}
    (hcycle : ArbCycle ((DexArbStrategy.new minProfit maxHops anchors :
      DexArbStrategy ExactF64).run us).mutableGraph v maxHops cycle)
    {opp : Opportunity} (hsim : DexArbStrategy.simulateCycle cache (report cycle) = some opp)
    (hmin : minProfit ≤ opp.expectedProfitLamports) :
    ∃ states, (report cycle).hops.mapM (hopState ExactF64 cache) = some states ∧
      (opp ∈ ((DexArbStrategy.new minProfit maxHops anchors :
          DexArbStrategy ExactF64).run us).findOpportunities cache ↔
        1.0001 < ((states.map (·.2)).map effectiveRate).prod) ∧
      (opp ∉ ((DexArbStrategy.new minProfit maxHops anchors :
          DexArbStrategy ExactF64).run us).findOpportunities cache →
        (opp.expectedProfitLamports.toInt : ℚ) ≤ 1000000 + droppedBound (states.map (·.2))) := by
  have hg := reachable_graphInv (F := ExactF64) minProfit maxHops anchors us
  obtain ⟨hmax, hanchors, hprofit⟩ := run_params (F := ExactF64) minProfit maxHops anchors us
  obtain ⟨amount, final, hspec⟩ := simulateCycle_spec hsim
  obtain ⟨states, hstates, -⟩ := hspec.optimal
  have hedges := fun a ha => And.intro (hcycle.edges a ha) (hcycle.usable a ha)
  have hreturned := (mem_findOpportunities_iff hg (hanchors.symm ▸ hanchor) hv
    (hcycle.network hg) (hmax.symm ▸ hcycle.le_maxHops) hsim
    (hprofit.symm ▸ hmin)).trans (hagree.profitable_iff hedges hstates)
  refine ⟨states, hstates, hreturned, ?_⟩
  intro hdiscarded
  have hrate := not_lt.mp (fun h => hdiscarded (hreturned.mpr h))
  have hbound := simulated_profit_le hsim hstates (hagree.cycle hedges hstates).1
    (show (0 : ℚ) ≤ 0.0001 by norm_num) (hrate.trans_eq (by norm_num))
  exact hbound.trans_eq (by norm_num)

/-! ## Profit below the threshold -/

/-- Two markets so deep that ten thousand million units hardly move them, priced 0.085%
    apart; each charges 4 basis points. -/
def deepFirst : AccountUpdate := phoenixAccount 101 1 1000000000000000 1000850000000000 1

def deepSecond : AccountUpdate := phoenixAccount 102 1 1000000000000000 1000000000000000 2

/-- The cache holds both. -/
def deepCache : AccountCache := (AccountCache.new.update deepFirst).update deepSecond

def deepUpdates : List CachedUpdate := [(AccountCache.new, deepFirst), (deepCache, deepSecond)]

/-- The pool such a market decodes to. -/
def deepPool (address : UInt8) (amountB slot : UInt64) : PoolState :=
  { marketPool address amountB slot with tokenAAmount := 1000000000000000000 }

def deepHistory : List GraphOp :=
  [.updatePool (deepPool 101 1000850000000000000 1),
    .updatePool (deepPool 102 1000000000000000000 2)]

/-- The strategy after both updates, asked for a hundred thousand lamports. -/
noncomputable def deepStrategy : DexArbStrategy ExactF64 :=
  (DexArbStrategy.new 100000 4 [keyOf 1]).run deepUpdates

theorem deepUpdates_history : historyOf ExactF64 deepUpdates = deepHistory := by
  have h1 : decodedPool ExactF64 (AccountCache.new, deepFirst) =
      some (deepPool 101 1000850000000000000 1) := by
    decide +kernel
  have h2 : decodedPool ExactF64 (deepCache, deepSecond) =
      some (deepPool 102 1000000000000000000 2) := by
    decide +kernel
  rw [historyOf_eq_filterMap, deepUpdates, List.map_cons, List.map_singleton, h1, h2]
  rfl

theorem deepHistory_fees : FeesBelowOne deepHistory := feesBelowOne_pair (by decide) (by decide)

theorem deepHistory_edges :
    (PriceGraph.build deepHistory).edges.map edgeRow =
      [(0, 1, sampleHop 101 .phoenix 1 2), (1, 0, sampleHop 101 .phoenix 2 1),
        (0, 1, sampleHop 102 .phoenix 1 2), (1, 0, sampleHop 102 .phoenix 2 1)] := by
  decide

/-- A graph agrees with a cache that offers each of its rows at the price of the table. -/
theorem agrees_of_rows {ops : List GraphOp} {rows : List (Nat × Nat × ArbHop)}
    (hrows : (PriceGraph.build ops).edges.map edgeRow = rows) {cache : AccountCache}
    (h : ∀ r ∈ rows, (hopState ExactF64 cache r.2.2).map (fun s => cachedPrice s.2) =
      (quotesOf ops (r.2.2.poolAddress, r.2.2.inputMint)).map fun x => { x with slot := 0 }) :
    Agrees (PriceGraph.build ops) cache := by
  intro i e he pool p hstate
  have hrow := h (edgeRow e) (hrows ▸ List.mem_map_of_mem (List.mem_of_getElem? he))
  have hstate' : hopState ExactF64 cache (hopOf 0 e) = some (pool, p) := hstate
  rw [show (edgeRow e).2.2 = hopOf 0 e from rfl, hstate', Option.map_some] at hrow
  obtain ⟨x, hx, hprice⟩ := Option.map_eq_some_iff.mp hrow.symm
  -- the edge shows the table's price, and the slot prices nothing
  have hshown := (build_represents ops).shown i e he
  rw [show quotesOf ops (e.poolAddress, e.sourceMint) = some x from hx] at hshown
  obtain ⟨hweight, hrate, -⟩ := hshown
  rw [← hprice]
  exact ⟨hrate, hweight⟩

theorem deep_agrees : Agrees deepStrategy.mutableGraph deepCache := by
  rw [deepStrategy, run_mutableGraph, deepUpdates_history]
  refine agrees_of_rows deepHistory_edges ?_
  decide +kernel

/-- Buying in the first deep market and selling in the second simulates to almost half a
    million lamports. -/
theorem deepCycle_simulates :
    ∃ opp, DexArbStrategy.simulateCycle deepCache
        (⟨[{ sampleHop 101 .phoenix 1 2 with edgeIndex := 0 },
          { sampleHop 102 .phoenix 2 1 with edgeIndex := 3 }], .nan, 0⟩ : ArbPath ExactF64) =
          some opp ∧ opp.expectedProfitLamports ≥ 100000 := by
  refine exists_of_any ?_
  decide +kernel

/-- Out through the first deep market, back through the second. -/
def deepLegs : List Leg :=
  [⟨0, 0, 1, sampleHop 101 .phoenix 1 2,
      some ⟨1000000000000000000, 1000850000000000000, 4, 10000, 1⟩⟩,
    ⟨3, 1, 0, sampleHop 102 .phoenix 2 1,
      some ⟨1000000000000000000, 1000000000000000000, 4, 10000, 2⟩⟩]

/-- The cycle through both deep markets, below the threshold. -/
theorem deepCycle_cases :
    ∃ cycle opp, deepStrategy.mutableGraph.tokens.getIndex (keyOf 1) = some 0 ∧
      ArbCycle deepStrategy.mutableGraph 0 4 cycle ∧
      DexArbStrategy.simulateCycle deepCache (report cycle) = some opp ∧
      100000 ≤ opp.expectedProfitLamports ∧ profitable (0.0001 : ExactF64) cycle = false := by
  obtain ⟨opp, hopp, hprofit⟩ := deepCycle_simulates
  obtain ⟨cycle, hlegs, hall⟩ := exists_legs deepHistory_edges
    (by decide : ∀ leg ∈ deepLegs, leg.Offered deepHistory _)
  have hcycle : ArbCycle (PriceGraph.build deepHistory) 0 4 cycle :=
    arbCycle_of_legs deepHistory_fees hall (by rw [hlegs]; decide)
  have hgraph : deepStrategy.mutableGraph = PriceGraph.build deepHistory := by
    rw [deepStrategy, run_mutableGraph, deepUpdates_history]
  rw [hgraph]
  refine ⟨cycle, opp, by decide, hcycle, ?_, hprofit, ?_⟩
  · rw [← hopp]
    refine simulateCycle_hops ?_
    show cycle.map (fun a => hopOf a.1 a.2) = _
    rw [hops_legs deepHistory, hlegs]
    rfl
  · -- 1.00085 * 0.9996 * 0.9996 is above one and below 1.0001
    rw [Bool.eq_false_iff, fin_scientific]
    intro h
    have hlt := (MevRates.profitable_iff (hcycle.weighed deepHistory_fees) _).mp h
    rw [pathRate_legs, hlegs] at hlt
    simp only [deepLegs, List.map_cons, List.map_nil, List.prod_cons, List.prod_nil, Leg.rate,
      Option.elim_some, MevRates.effectiveRate, MevRates.spotRate, keptShare,
      UInt64.reduceToNat] at hlt
    norm_num at hlt

/-- **A PROFIT THE COARSE FILTER DISCARDS**: the cycle simulates to far more than the minimum
    profit and is not returned. -/
theorem deep_profit_discarded :
    ∃ cycle opp, Agrees deepStrategy.mutableGraph deepCache ∧
      deepStrategy.mutableGraph.tokens.getIndex (keyOf 1) = some 0 ∧
      ArbCycle deepStrategy.mutableGraph 0 4 cycle ∧
      DexArbStrategy.simulateCycle deepCache (report cycle) = some opp ∧
      100000 ≤ opp.expectedProfitLamports ∧ opp ∉ deepStrategy.findOpportunities deepCache := by
  obtain ⟨cycle, opp, hindex, hcycle, hsim, hprofit, hbelow⟩ := deepCycle_cases
  refine ⟨cycle, opp, deep_agrees, hindex, hcycle, hsim, hprofit, ?_⟩
  rw [deepStrategy] at hindex hcycle ⊢
  have hg := reachable_graphInv (F := ExactF64) 100000 4 [keyOf 1] deepUpdates
  obtain ⟨hmax, hanchors, hmin⟩ := run_params (F := ExactF64) 100000 4 [keyOf 1] deepUpdates
  have hanchor : keyOf 1 ∈ [keyOf 1] := List.mem_cons_self
  have hreturned := mem_findOpportunities_iff hg (hanchors.symm ▸ hanchor) hindex
    (hcycle.network hg) (hmax.symm ▸ hcycle.le_maxHops) hsim (hmin.symm ▸ hprofit)
  intro h
  exact absurd (hreturned.mp h) (by simp [hbelow])

/-- What the filter discards of the deep markets. -/
theorem deep_screened :
    ∃ (cycle : List (Arrow ExactF64)) (opp : Opportunity) (states : List (PoolState × HopParams)),
      DexArbStrategy.simulateCycle deepCache (report cycle) = some opp ∧
      (report cycle).hops.mapM (hopState ExactF64 deepCache) = some states ∧
      (opp ∈ deepStrategy.findOpportunities deepCache ↔
        1.0001 < ((states.map (·.2)).map effectiveRate).prod) ∧
      (opp ∉ deepStrategy.findOpportunities deepCache →
        (opp.expectedProfitLamports.toInt : ℚ) ≤ 1000000 + droppedBound (states.map (·.2))) := by
  obtain ⟨cycle, opp, hindex, hcycle, hsim, hprofit, -⟩ := deepCycle_cases
  have hanchor : keyOf 1 ∈ [keyOf 1] := List.mem_cons_self
  rw [deepStrategy] at hindex hcycle
  obtain ⟨states, hscreened⟩ := screened_exactly 100000 4 [keyOf 1] deepUpdates deepCache
    deep_agrees hanchor hindex hcycle hsim hprofit
  exact ⟨cycle, opp, states, hsim, hscreened⟩

end MevCoarseFilter
