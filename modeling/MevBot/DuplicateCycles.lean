import MevBot.DfsCorrectness
import MevBot.GraphStructure
import MevBot.OpportunityLaws

/-! # One cycle, several opportunities

    `find_opportunities` searches from every anchor on its own, and nothing
    compares what the searches return.  A cycle through two anchors is found
    from both, and emitted twice (`same_hops_emitted_twice`).  From one anchor
    no sequence of hops is found twice; and a cycle that visits no mint twice is
    known by its hops, so it comes up once for each anchor it passes through,
    as rotations of one another (`emitted_once`). -/

namespace MevDuplicates

open MevMachine MevTypes MevGraph MevGraphInv MevGraphStructure MevSearch MevDfs MevCache
open MevStrategy MevHistory MevSimulation MevOpportunity MevRates MevQuotes MevDfsCorrect
open MevExact Backtracking

variable {F : Type} [F64 F]

/-! ## The hops of an opportunity -/

/-- The pools an opportunity trades with, and what it pays in. -/
def hopKeys (opp : Opportunity) : List (Pubkey × Pubkey) :=
  opp.path.map fun step => (step.poolAddress, step.inputMint)

/-- The same hops, in whatever order. -/
def SameHops (opp opp' : Opportunity) : Prop := ∀ key, key ∈ hopKeys opp ↔ key ∈ hopKeys opp'

/-- No mint is visited twice. -/
def VisitsOnce (opp : Opportunity) : Prop := ((hopKeys opp).map Prod.snd).Nodup

/-- The mint an opportunity starts with. -/
def startMint (opp : Opportunity) : Option Pubkey := (hopKeys opp).head?.map Prod.snd

theorem SameHops.symm {opp opp' : Opportunity} (h : SameHops opp opp') : SameHops opp' opp :=
  fun key => (h key).symm

/-- The keys of a cycle of the graph. -/
def cycleKeys (cycle : List (Arrow F)) : List (Pubkey × Pubkey) :=
  cycle.map fun a => edgeKey a.2

/-- An opportunity has the hops of the path it was simulated for. -/
theorem hopKeys_of_path {cache : AccountCache} {p : ArbPath F} {opp : Opportunity}
    (h : DexArbStrategy.simulateCycle cache p = some opp) :
    hopKeys opp = p.hops.map fun hop => (hop.poolAddress, hop.inputMint) := by
  obtain ⟨amount, final, hsim⟩ := simulateCycle_spec h
  obtain ⟨-, hmap, -⟩ := steps_of_hops (F := F) hsim.steps
  have hkeys := congrArg (List.map fun r : Pubkey × Pubkey × Pubkey => (r.1, r.2.1)) hmap
  rw [List.map_map, List.map_map] at hkeys
  exact hkeys

theorem hopKeys_of_simulated {cache : AccountCache} {cycle : List (Arrow F)} {opp : Opportunity}
    (h : DexArbStrategy.simulateCycle cache (report cycle) = some opp) :
    hopKeys opp = cycleKeys cycle := by
  refine (hopKeys_of_path h).trans ?_
  show ((cycle.map fun a => hopOf a.1 a.2).map _) = _
  rw [List.map_map]
  rfl

/-! ## Cycles with the same hops -/

section Cycles

variable {g : PriceGraph F} {v v' : Nat} {cycle cycle' : List (Arrow F)}

omit [F64 F] in
/-- An edge is known by its pool and its source mint. -/
theorem arrow_of_key (hg : GraphInv g) {a b : Arrow F} (ha : g.edges[a.1]? = some a.2)
    (hb : g.edges[b.1]? = some b.2) (h : edgeKey a.2 = edgeKey b.2) : a = b := by
  obtain ⟨hpool, hmint⟩ := Prod.mk.inj h
  have hindex := hg.key_inj ha hb hpool hmint
  rw [hindex, hb] at ha
  exact Prod.ext hindex (Option.some.inj ha).symm

theorem mem_of_key (hg : GraphInv g) (hc : (arrows g).Cycle v cycle)
    (hc' : (arrows g).Cycle v' cycle') {a : Arrow F} (ha : a ∈ cycle)
    (hkey : edgeKey a.2 ∈ cycleKeys cycle') : a ∈ cycle' := by
  obtain ⟨b, hb, heq⟩ := List.mem_map.mp hkey
  rwa [arrow_of_key hg (trail_edges hg hc.trail ha).1 (trail_edges hg hc'.trail hb).1 heq.symm]

theorem cycle_nodup (hc : (arrows g).Cycle v cycle) : cycle.Nodup := List.Nodup.of_map _ hc.simple

omit [F64 F] in
/-- Edges with the same keys in the same order are the same. -/
theorem arrows_of_keys (hg : GraphInv g) {c c' : List (Arrow F)}
    (hc : ∀ a ∈ c, g.edges[a.1]? = some a.2) (hc' : ∀ a ∈ c', g.edges[a.1]? = some a.2)
    (h : cycleKeys c = cycleKeys c') : c = c' := by
  induction c generalizing c' with
  | nil => exact (List.map_eq_nil_iff.mp h.symm).symm
  | cons a c ih =>
      cases c' with
      | nil => cases h
      | cons b c' =>
          obtain ⟨hkey, hrest⟩ := List.cons.inj h
          obtain rfl := arrow_of_key hg (hc a List.mem_cons_self) (hc' b List.mem_cons_self) hkey
          rw [ih (fun x hx => hc x (List.mem_cons_of_mem a hx))
            (fun x hx => hc' x (List.mem_cons_of_mem a hx)) hrest]

theorem cycle_eq_of_keys (hg : GraphInv g) (hc : (arrows g).Cycle v cycle)
    (hc' : (arrows g).Cycle v' cycle') (h : cycleKeys cycle = cycleKeys cycle') :
    cycle = cycle' :=
  arrows_of_keys hg (fun _ ha => (trail_edges hg hc.trail ha).1)
    (fun _ ha => (trail_edges hg hc'.trail ha).1) h

/-- A cycle that visits no mint twice leaves no token twice. -/
theorem oneOut_of_mints (hg : GraphInv g) (hmints : ((cycleKeys cycle).map Prod.snd).Nodup) :
    (arrows g).OneOut cycle := by
  rw [cycleKeys, List.map_map] at hmints
  intro w a ha b hb hout hout'
  obtain ⟨he, hs, -⟩ := (mem_arrows_out hg w a).mp hout
  obtain ⟨he', hs', -⟩ := (mem_arrows_out hg w b).mp hout'
  have hmint := hg.source _ _ he
  rw [hs, ← hs', hg.source _ _ he'] at hmint
  exact List.inj_on_of_nodup_map hmints ha hb (Option.some.inj hmint).symm

/-- **CYCLES WITH THE SAME HOPS** that visit no mint twice are rotations of one another,
    and the same from the same token. -/
theorem rotated_of_keys (hg : GraphInv g) (hc : (arrows g).Cycle v cycle)
    (hc' : (arrows g).Cycle v' cycle')
    (hsame : ∀ key, key ∈ cycleKeys cycle ↔ key ∈ cycleKeys cycle')
    (hmints : ((cycleKeys cycle).map Prod.snd).Nodup) :
    cycle.IsRotated cycle' ∧ (v = v' → cycle = cycle') := by
  have hperm : cycle.Perm cycle' := by
    refine (List.perm_ext_iff_of_nodup (cycle_nodup hc) (cycle_nodup hc')).mpr ?_
    intro a
    constructor
    · intro ha
      exact mem_of_key hg hc hc' ha ((hsame _).mp (List.mem_map_of_mem ha))
    · intro ha
      exact mem_of_key hg hc' hc ha ((hsame _).mpr (List.mem_map_of_mem ha))
  exact rotated_of_perm hc hc' hperm (oneOut_of_mints hg hmints)

/-- A cycle starts with the mint of its token. -/
theorem cycleKeys_head (hg : GraphInv g) (hc : (arrows g).Cycle v cycle) {anchor : Pubkey}
    (hv : g.tokens.getIndex anchor = some v) :
    (cycleKeys cycle).head?.map Prod.snd = some anchor := by
  cases cycle with
  | nil => exact absurd hc.two_le (by simp)
  | cons a path =>
      exact congrArg some (trail_mints hg ((hg.registry anchor v).mp hv) a path hc.trail).1

end Cycles

/-! ## One update -/

/-- How two of the opportunities of one update are told apart: by the order of their
    hops; and, where the hops are the same and visit no mint twice, by where they
    start. -/
def ToldApart (opp opp' : Opportunity) : Prop :=
  hopKeys opp ≠ hopKeys opp' ∧
    (SameHops opp opp' → VisitsOnce opp →
      startMint opp ≠ startMint opp' ∧ (hopKeys opp).IsRotated (hopKeys opp'))

/-- An opportunity made of a cycle from the anchor. -/
def MadeFrom (g : PriceGraph F) (cache : AccountCache) (v : Nat) (cycle : List (Arrow F))
    (opp : Opportunity) : Prop :=
  (arrows g).Cycle v cycle ∧ DexArbStrategy.simulateCycle cache (report cycle) = some opp

/-- Opportunities of different cycles from one anchor. -/
theorem toldApart_cycles {g : PriceGraph F} (hg : GraphInv g) {cache : AccountCache} {v : Nat}
    {cycle cycle' : List (Arrow F)} {opp opp' : Opportunity} (h : MadeFrom g cache v cycle opp)
    (h' : MadeFrom g cache v cycle' opp') (hne : cycle ≠ cycle') : ToldApart opp opp' := by
  obtain ⟨hc, hsim⟩ := h
  obtain ⟨hc', hsim'⟩ := h'
  have hkeys := hopKeys_of_simulated hsim
  have hkeys' := hopKeys_of_simulated hsim'
  refine ⟨?_, ?_⟩
  · rw [hkeys, hkeys']
    exact fun heq => hne (cycle_eq_of_keys hg hc hc' heq)
  · intro hsame honce
    rw [SameHops, hkeys, hkeys'] at hsame
    rw [VisitsOnce, hkeys] at honce
    exact absurd ((rotated_of_keys hg hc hc' hsame honce).2 rfl) hne

/-- Opportunities from different anchors. -/
theorem toldApart_anchors {g : PriceGraph F} (hg : GraphInv g) {cache : AccountCache}
    {v v' : Nat} {anchor anchor' : Pubkey} (hv : g.tokens.getIndex anchor = some v)
    (hv' : g.tokens.getIndex anchor' = some v') {cycle cycle' : List (Arrow F)}
    {opp opp' : Opportunity} (h : MadeFrom g cache v cycle opp)
    (h' : MadeFrom g cache v' cycle' opp') (hne : anchor ≠ anchor') : ToldApart opp opp' := by
  obtain ⟨hc, hsim⟩ := h
  obtain ⟨hc', hsim'⟩ := h'
  have hkeys := hopKeys_of_simulated hsim
  have hkeys' := hopKeys_of_simulated hsim'
  have hstart : startMint opp ≠ startMint opp' := by
    rw [startMint, startMint, hkeys, hkeys', cycleKeys_head hg hc hv, cycleKeys_head hg hc' hv']
    exact fun heq => hne (Option.some.inj heq)
  refine ⟨fun heq => hstart (congrArg (fun keys => (List.head? keys).map Prod.snd) heq), ?_⟩
  intro hsame honce
  refine ⟨hstart, ?_⟩
  rw [SameHops, hkeys, hkeys'] at hsame
  rw [VisitsOnce, hkeys] at honce
  rw [hkeys, hkeys']
  exact (rotated_of_keys hg hc hc' hsame honce).1.map _

/-- The opportunities found from an anchor, by the cycles they are made of. -/
theorem mem_found {s : DexArbStrategy F} {cache : AccountCache} {anchor : Pubkey}
    {opp : Opportunity}
    (h : opp ∈ (s.anchorCycles anchor).filterMap fun cycle =>
      (DexArbStrategy.simulateCycle cache cycle).filter fun opp =>
        decide (opp.expectedProfitLamports ≥ s.minProfitLamports)) :
    ∃ v cycle, s.mutableGraph.tokens.getIndex anchor = some v ∧
      profitable (0.0001 : F) cycle = true ∧ MadeFrom s.mutableGraph cache v cycle opp := by
  obtain ⟨p, hp, h⟩ := List.mem_filterMap.mp h
  rw [DexArbStrategy.anchorCycles] at hp
  split at hp
  · rename_i v hv
    obtain ⟨cycle, hcycle, -, hprofit, rfl⟩ := (mem_findCyclesDfs _ _ _ _ _).mp hp
    exact ⟨v, cycle, hv, hprofit, hcycle, (Option.filter_eq_some_iff.mp h).1⟩
  · exact absurd hp List.not_mem_nil

/-- The opportunities of a strategy are told apart, pair by pair. -/
theorem findOpportunities_toldApart {s : DexArbStrategy F} (hg : GraphInv s.mutableGraph)
    (hanchors : s.anchorMints.Nodup) (cache : AccountCache) :
    (s.findOpportunities cache).Pairwise ToldApart := by
  rw [DexArbStrategy.findOpportunities, List.pairwise_flatMap]
  constructor
  · intro anchor _
    rw [DexArbStrategy.anchorCycles]
    split
    · rename_i v hv
      -- the search from one anchor repeats no cycle
      rw [findCyclesDfs_eq, reports, List.pairwise_filterMap, List.pairwise_map]
      have hnodup := (closures_nodup _ (arrows_out_nodup hg) v s.maxHops v []).filter
        (profitable 0.0001)
      refine List.Pairwise.imp_of_mem ?_ hnodup
      intro cycle cycle' hmem hmem' hne opp hopp opp' hopp'
      have hc := ((mem_closures_iff_cycle _ _ _ _).mp (List.mem_filter.mp hmem).1).1
      have hc' := ((mem_closures_iff_cycle _ _ _ _).mp (List.mem_filter.mp hmem').1).1
      exact toldApart_cycles hg ⟨hc, (Option.filter_eq_some_iff.mp hopp).1⟩
        ⟨hc', (Option.filter_eq_some_iff.mp hopp').1⟩ hne
    · exact List.Pairwise.nil
  · refine List.Pairwise.imp ?_ hanchors
    intro anchor anchor' hne opp hopp opp' hopp'
    obtain ⟨v, cycle, hv, -, hmade⟩ := mem_found hopp
    obtain ⟨v', cycle', hv', -, hmade'⟩ := mem_found hopp'
    exact toldApart_anchors hg hv hv' hmade hmade' hne

/-- **HOW OFTEN A CYCLE IS EMITTED**, in every reachable state, for distinct anchors and on
    any cache: every opportunity starts at an anchor; no two have the same sequence of
    hops; and two with the same hops, where no mint is visited twice, start at different
    anchors and are rotations of one another. -/
theorem emitted_once (minProfit : Int64) (maxHops : Nat) (anchors : List Pubkey)
    (hanchors : anchors.Nodup) (us : List CachedUpdate) (u : CachedUpdate) :
    ((((DexArbStrategy.new minProfit maxHops anchors : DexArbStrategy F).run us).processUpdate
      u.1 u.2).2.Pairwise ToldApart) ∧
    ∀ opp ∈ (((DexArbStrategy.new minProfit maxHops anchors :
      DexArbStrategy F).run us).processUpdate u.1 u.2).2,
      ∃ anchor ∈ anchors, startMint opp = some anchor := by
  constructor
  · rw [processUpdate_opportunities, ← run_concat]
    cases decodedPool F u with
    | none => exact List.Pairwise.nil
    | some pool =>
        obtain ⟨-, hparams, -⟩ := run_params (F := F) minProfit maxHops anchors (us ++ [u])
        exact findOpportunities_toldApart (reachable_graphInv minProfit maxHops anchors _)
          (hparams.symm ▸ hanchors) u.1
  · intro opp hopp
    obtain ⟨anchor, hmem, hfirst, -⟩ := (emitted_wellFormed hopp).anchored
    refine ⟨anchor, hmem, ?_⟩
    rw [startMint, hopKeys, List.head?_map, Option.map_map]
    exact hfirst

/-! ## A cycle through two anchors -/

/-- The cycle of the two sample markets from its other mint. -/
theorem marketCycle_found_back :
    ∃ p ∈ findCyclesDfs (PriceGraph.build marketHistory) 1 4 (0.0001 : ExactF64),
      p.hops = [{ sampleHop 102 .phoenix 2 1 with edgeIndex := 3 },
        { sampleHop 101 .phoenix 1 2 with edgeIndex := 0 }] :=
  found_of_legs marketHistory_fees marketHistory_edges marketLegs.reverse (by decide) (by decide)
    (m := 0.0001)
    (by
      simp only [marketLegs, List.reverse_cons, List.reverse_nil, List.nil_append, List.cons_append,
        List.map_cons, List.map_nil, List.prod_cons, List.prod_nil, Leg.rate, Option.elim_some,
        effectiveRate, spotRate, keptShare, UInt64.reduceToNat]
      norm_num)

theorem marketCycle_simulates_back :
    ∃ opp, DexArbStrategy.simulateCycle marketCache
        (⟨[{ sampleHop 102 .phoenix 2 1 with edgeIndex := 3 },
          { sampleHop 101 .phoenix 1 2 with edgeIndex := 0 }], .nan, 0⟩ : ArbPath ExactF64) =
          some opp ∧ opp.expectedProfitLamports ≥ 1 := by
  refine exists_of_any ?_
  decide +kernel

/-- The second market's update makes the strategy emit both rotations when both mints are
    anchors. -/
theorem rotations_emitted :
    ∃ opp opp', opp ∈ (((DexArbStrategy.new 1 4 [keyOf 1, keyOf 2] :
        DexArbStrategy ExactF64).run [(AccountCache.new, firstMarket)]).processUpdate
          marketCache secondMarket).2 ∧
      opp' ∈ (((DexArbStrategy.new 1 4 [keyOf 1, keyOf 2] :
        DexArbStrategy ExactF64).run [(AccountCache.new, firstMarket)]).processUpdate
          marketCache secondMarket).2 ∧
      hopKeys opp = [(keyOf 101, keyOf 1), (keyOf 102, keyOf 2)] ∧
      hopKeys opp' = [(keyOf 102, keyOf 2), (keyOf 101, keyOf 1)] := by
  obtain ⟨opp, hopp, hprofit⟩ := marketCycle_simulates
  obtain ⟨opp', hopp', hprofit'⟩ := marketCycle_simulates_back
  have hfirst : keyOf 1 ∈ [keyOf 1, keyOf 2] := List.mem_cons_self
  have hsecond : keyOf 2 ∈ [keyOf 1, keyOf 2] := List.mem_cons_of_mem _ List.mem_cons_self
  refine ⟨opp, opp', ?_, ?_, hopKeys_of_path hopp, hopKeys_of_path hopp'⟩
  · exact emitted_of_hops markets_decoded.2 markets_history hfirst (by decide) marketCycle_found
      hopp hprofit
  · exact emitted_of_hops markets_decoded.2 markets_history hsecond (by decide)
      marketCycle_found_back hopp' hprofit'

/-! ## A cycle through two loops at one mint -/

/-- A Phoenix market that trades the second mint against itself. -/
def loopMarket (address : UInt8) (slot : UInt64) : AccountUpdate :=
  { pubkey := keyOf address, slot
    data := phoenixData 1 (keyOf 2) (keyOf 2) 1000000000 1000000000
    lamports := 0, owner := PHOENIX }

/-- The pool it decodes to. -/
def loopPool (address : UInt8) (slot : UInt64) : PoolState :=
  { marketPool address 1000000000000 slot with tokenAMint := keyOf 2 }

/-- The cache holds two of them and both sample markets. -/
def loopCache : AccountCache :=
  (((AccountCache.new.update firstMarket).update (loopMarket 103 1)).update
    (loopMarket 104 1)).update secondMarket

def loopUpdates : List CachedUpdate :=
  [(AccountCache.new, firstMarket), (AccountCache.new, loopMarket 103 1),
    (AccountCache.new, loopMarket 104 1)]

def loopHistory : List GraphOp :=
  [.updatePool (marketPool 101 2000000000000 1), .updatePool (loopPool 103 1),
    .updatePool (loopPool 104 1), .updatePool (marketPool 102 1000000000000 2)]

theorem loops_decoded :
    decodedPool ExactF64 (AccountCache.new, loopMarket 103 1) = some (loopPool 103 1) ∧
      decodedPool ExactF64 (AccountCache.new, loopMarket 104 1) = some (loopPool 104 1) ∧
      decodedPool ExactF64 (loopCache, secondMarket) =
        some (marketPool 102 1000000000000 2) := by
  decide +kernel

theorem loops_history :
    historyOf ExactF64 (loopUpdates ++ [(loopCache, secondMarket)]) = loopHistory := by
  obtain ⟨h2, h3, h4⟩ := loops_decoded
  rw [historyOf_eq_filterMap, loopUpdates]
  simp only [List.cons_append, List.nil_append, List.map_cons, List.map_nil, markets_decoded.1,
    h2, h3, h4]
  rfl

theorem loopHistory_fees : FeesBelowOne loopHistory :=
  feesBelowOne_cons (by decide) (feesBelowOne_cons (by decide)
    (feesBelowOne_pair (by decide) (by decide)))

theorem loopHistory_edges :
    (PriceGraph.build loopHistory).edges.map edgeRow =
      [(0, 1, sampleHop 101 .phoenix 1 2), (1, 0, sampleHop 101 .phoenix 2 1),
        (1, 1, sampleHop 103 .phoenix 2 2), (1, 1, sampleHop 104 .phoenix 2 2),
        (0, 1, sampleHop 102 .phoenix 1 2), (1, 0, sampleHop 102 .phoenix 2 1)] := by
  decide

/-- Out through the first market, around both loops, back through the second. -/
def loopLegs (j k : Nat) (a b : UInt8) : List Leg :=
  [⟨0, 0, 1, sampleHop 101 .phoenix 1 2, some ⟨1000000000000, 2000000000000, 4, 10000, 1⟩⟩,
    ⟨j, 1, 1, sampleHop a .phoenix 2 2, some ⟨1000000000000, 1000000000000, 4, 10000, 1⟩⟩,
    ⟨k, 1, 1, sampleHop b .phoenix 2 2, some ⟨1000000000000, 1000000000000, 4, 10000, 1⟩⟩,
    ⟨5, 1, 0, sampleHop 102 .phoenix 2 1, some ⟨1000000000000, 1000000000000, 4, 10000, 2⟩⟩]

theorem loopCycle_found {j k : Nat} {a b : UInt8}
    (h : (j, k, a, b) ∈ [(2, 3, 103, 104), (3, 2, 104, 103)]) :
    ∃ p ∈ findCyclesDfs (PriceGraph.build loopHistory) 0 4 (0.0001 : ExactF64),
      p.hops = (loopLegs j k a b).map Leg.arbHop := by
  have hrate : (1 : ℝ) + 0.0001 < ((loopLegs j k a b).map Leg.rate).prod := by
    simp only [loopLegs, List.map_cons, List.map_nil, List.prod_cons, List.prod_nil, Leg.rate,
      Option.elim_some, effectiveRate, spotRate, keptShare, UInt64.reduceToNat]
    norm_num
  simp only [List.mem_cons, List.not_mem_nil, or_false, Prod.mk.injEq] at h
  rcases h with ⟨rfl, rfl, rfl, rfl⟩ | ⟨rfl, rfl, rfl, rfl⟩
  · exact found_of_legs loopHistory_fees loopHistory_edges _ (by decide) (by decide) hrate
  · exact found_of_legs loopHistory_fees loopHistory_edges _ (by decide) (by decide) hrate

/-- Either order of the loops simulates to a profit. -/
theorem loopCycle_simulates {j k : Nat} {a b : UInt8}
    (h : (j, k, a, b) ∈ [(2, 3, 103, 104), (3, 2, 104, 103)]) :
    ∃ opp, DexArbStrategy.simulateCycle loopCache
        (⟨[{ sampleHop 101 .phoenix 1 2 with edgeIndex := 0 },
          { sampleHop a .phoenix 2 2 with edgeIndex := j },
          { sampleHop b .phoenix 2 2 with edgeIndex := k },
          { sampleHop 102 .phoenix 2 1 with edgeIndex := 5 }], .nan, 0⟩ : ArbPath ExactF64) =
          some opp ∧ opp.expectedProfitLamports ≥ 1 := by
  have hall : ∀ r ∈ ([(2, 3, 103, 104), (3, 2, 104, 103)] : List (Nat × Nat × UInt8 × UInt8)),
      (DexArbStrategy.simulateCycle loopCache
        (⟨[{ sampleHop 101 .phoenix 1 2 with edgeIndex := 0 },
          { sampleHop r.2.2.1 .phoenix 2 2 with edgeIndex := r.1 },
          { sampleHop r.2.2.2 .phoenix 2 2 with edgeIndex := r.2.1 },
          { sampleHop 102 .phoenix 2 1 with edgeIndex := 5 }], .nan, 0⟩ : ArbPath ExactF64)).any
          (fun opp => decide (opp.expectedProfitLamports ≥ 1)) = true := by
    decide +kernel
  obtain ⟨opp, hopp, hprofit⟩ := (Option.any_eq_true _ _).mp (hall _ h)
  exact ⟨opp, hopp, of_decide_eq_true hprofit⟩

/-- What the second market's update makes the strategy emit from the first mint alone. -/
noncomputable def loopTrades : List Opportunity :=
  (((DexArbStrategy.new 1 4 [keyOf 1] : DexArbStrategy ExactF64).run loopUpdates).processUpdate
    loopCache secondMarket).2

/-- It emits either order of the loops. -/
theorem loopTrade_emitted {j k : Nat} {a b : UInt8}
    (h : (j, k, a, b) ∈ [(2, 3, 103, 104), (3, 2, 104, 103)]) :
    ∃ opp ∈ loopTrades, hopKeys opp =
      [(keyOf 101, keyOf 1), (keyOf a, keyOf 2), (keyOf b, keyOf 2), (keyOf 102, keyOf 2)] := by
  obtain ⟨opp, hopp, hprofit⟩ := loopCycle_simulates h
  refine ⟨opp, ?_, hopKeys_of_path hopp⟩
  exact emitted_of_hops loops_decoded.2.2 loops_history List.mem_cons_self (by decide)
    (loopCycle_found h) hopp hprofit

/-! ## Twice from one update -/

/-- Two opportunities with the same hops in different orders are not told apart by
    their hops. -/
theorem not_pairwise_of_reordered {opps : List Opportunity} {opp opp' : Opportunity}
    (hopp : opp ∈ opps) (hopp' : opp' ∈ opps) (hne : hopKeys opp ≠ hopKeys opp')
    (hperm : (hopKeys opp).Perm (hopKeys opp')) :
    ¬opps.Pairwise fun opp opp' => ¬SameHops opp opp' := by
  intro hpairwise
  have hsymm : Std.Symm fun opp opp' : Opportunity => ¬SameHops opp opp' :=
    ⟨fun _ _ h hsame => h hsame.symm⟩
  refine hpairwise.forall hopp hopp' (fun heq => hne (congrArg hopKeys heq)) ?_
  exact fun key => hperm.mem_iff

/-- **THE SAME HOPS, TWICE FROM ONE UPDATE**: as rotations from two anchors, and from one
    anchor where a mint is visited twice. -/
theorem same_hops_emitted_twice :
    ([keyOf 1, keyOf 2].Nodup ∧
      ¬(((DexArbStrategy.new 1 4 [keyOf 1, keyOf 2] : DexArbStrategy ExactF64).run
        [(AccountCache.new, firstMarket)]).processUpdate marketCache secondMarket).2.Pairwise
          fun opp opp' => ¬SameHops opp opp') ∧
      ¬loopTrades.Pairwise fun opp opp' => ¬SameHops opp opp' := by
  refine ⟨⟨by decide, ?_⟩, ?_⟩
  · obtain ⟨opp, opp', hopp, hopp', hkeys, hkeys'⟩ := rotations_emitted
    refine not_pairwise_of_reordered hopp hopp' ?_ ?_
    · rw [hkeys, hkeys']
      decide
    · rw [hkeys, hkeys']
      exact List.Perm.swap _ _ _
  · obtain ⟨opp, hopp, hkeys⟩ := loopTrade_emitted (j := 2) (k := 3) (a := 103) (b := 104)
      (by decide)
    obtain ⟨opp', hopp', hkeys'⟩ := loopTrade_emitted (j := 3) (k := 2) (a := 104) (b := 103)
      (by decide)
    refine not_pairwise_of_reordered hopp hopp' ?_ ?_
    · rw [hkeys, hkeys']
      decide
    · rw [hkeys, hkeys']
      exact (List.Perm.swap _ _ _).cons _

/-- What the second market's update makes the strategy emit from both mints. -/
noncomputable def marketTrades : List Opportunity :=
  (((DexArbStrategy.new 1 4 [keyOf 1, keyOf 2] : DexArbStrategy ExactF64).run
    [(AccountCache.new, firstMarket)]).processUpdate marketCache secondMarket).2

/-- Two of them are the same cycle, which visits no mint twice, and all are told apart. -/
theorem emitted_once_market :
    marketTrades.Pairwise ToldApart ∧
      ∃ opp ∈ marketTrades, ∃ opp' ∈ marketTrades,
        SameHops opp opp' ∧ VisitsOnce opp ∧ startMint opp ≠ startMint opp' := by
  refine ⟨(emitted_once 1 4 [keyOf 1, keyOf 2] (by decide) [(AccountCache.new, firstMarket)]
    (marketCache, secondMarket)).1, ?_⟩
  obtain ⟨opp, opp', hopp, hopp', hkeys, hkeys'⟩ := rotations_emitted
  refine ⟨opp, hopp, opp', hopp', fun key => ?_, ?_, ?_⟩
  · rw [hkeys, hkeys']
    exact (List.Perm.swap _ _ _).mem_iff
  · rw [VisitsOnce, hkeys]
    decide
  · rw [startMint, startMint, hkeys, hkeys']
    decide

end MevDuplicates
