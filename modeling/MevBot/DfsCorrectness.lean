import MevBot.ExactRates

/-! # The depth-first search is exact

    On every reachable graph whose pools charge fees below one, and with exact
    weights, `find_cycles_dfs` returns each profitable pool-simple cycle through
    its source exactly once, and nothing else (`findCyclesDfs_exact`). -/

namespace MevDfsCorrect

open MevMachine MevTypes MevGraph MevGraphInv MevSearch MevDfs MevQuotes MevRates MevExact
open ExactF64 Backtracking

/-- An arbitrage cycle of at most `maxHops` edges through `source`. -/
structure ArbCycle (g : PriceGraph ExactF64) (source maxHops : Nat)
    (cycle : List (Arrow ExactF64)) : Prop where
  two_le : 2 ≤ cycle.length
  le_maxHops : cycle.length ≤ maxHops
  edges : ∀ a ∈ cycle, g.edges[a.1]? = some a.2
  usable : ∀ a ∈ cycle, Usable a.2
  starts : cycle.head?.map (·.2.source) = some source
  ends : cycle.getLast?.map (·.2.dest) = some source
  joined : cycle.IsChain fun a b => a.2.dest = b.2.source
  pools : (cycle.map (·.2.poolAddress)).Nodup
  interior : ∀ a ∈ cycle.tail.dropLast, a.2.dest ≠ source

/-- `x` passes the profit threshold. -/
def Exceeds (minProfitRatio : ExactF64) (x : ℝ) : Prop :=
  F64.lt (1.0 + minProfitRatio) (fin x) = true

theorem exceeds_fin (m x : ℝ) : Exceeds (fin m) x ↔ 1 + m < x := by
  rw [Exceeds, fin_one, fin_add, lt_fin]

/-! ## Cycles of the network -/

section Cycles

variable {g : PriceGraph ExactF64} {source maxHops : Nat} {cycle : List (Arrow ExactF64)}

theorem endOf_eq_iff {a : Arrow ExactF64} {path : List (Arrow ExactF64)} :
    (arrows g).endOf source (a :: path) = source ↔
      (a :: path).getLast?.map (·.2.dest) = some source := by
  rw [Network.endOf, List.getLast?_eq_some_getLast (List.cons_ne_nil a path)]
  exact Option.some_inj.symm

/-- An arbitrage cycle is a cycle of the search's network. -/
theorem ArbCycle.network (hg : GraphInv g) (h : ArbCycle g source maxHops cycle) :
    (arrows g).Cycle source cycle := by
  cases cycle with
  | nil => exact absurd h.two_le (by simp)
  | cons a path =>
      have htrail := (trail_cons_iff hg source a path).mpr ⟨Option.some.inj h.starts,
        fun b hb => ⟨h.edges b hb, (h.usable b hb).dfsUsable⟩, h.joined⟩
      exact ⟨h.two_le, htrail, endOf_eq_iff.mpr h.ends, h.pools, h.interior⟩

/-- A cycle of the network over edges of finite weight is an arbitrage cycle. -/
theorem arbCycle_of_network (hg : GraphInv g) (h : (arrows g).Cycle source cycle)
    (hlen : cycle.length ≤ maxHops) (hu : ∀ a ∈ cycle, Usable a.2) :
    ArbCycle g source maxHops cycle := by
  cases cycle with
  | nil => exact absurd h.two_le (by simp)
  | cons a path =>
      obtain ⟨hstart, hall, hchain⟩ := (trail_cons_iff hg source a path).mp h.trail
      exact ⟨h.two_le, hlen, fun b hb => (hall b hb).1, hu, congrArg some hstart,
        endOf_eq_iff.mp h.closed, hchain, h.simple, h.interior⟩

end Cycles

variable {ops : List GraphOp}

/-- The cycles of the network are the arbitrage cycles of the graph. -/
theorem cycle_iff (hops : FeesBelowOne ops) (source maxHops : Nat)
    (cycle : List (Arrow ExactF64)) :
    (arrows (PriceGraph.build ops)).Cycle source cycle ∧ cycle.length ≤ maxHops ↔
      ArbCycle (PriceGraph.build ops) source maxHops cycle := by
  have hg : GraphInv (PriceGraph.build ops : PriceGraph ExactF64) := GraphInv.build ops
  constructor
  · rintro ⟨h, hlen⟩
    refine arbCycle_of_network hg h hlen ?_
    intro a ha
    obtain ⟨he, hu⟩ := trail_edges hg h.trail ha
    exact (usable_iff hops he).1.mpr ((usable_iff hops he).2.1.mp hu)
  · intro h
    exact ⟨h.network hg, h.le_maxHops⟩

theorem ArbCycle.weighed (hops : FeesBelowOne ops) {source maxHops : Nat}
    {cycle : List (Arrow ExactF64)} (h : ArbCycle (PriceGraph.build ops) source maxHops cycle) :
    Weighed ops cycle := by
  intro a ha
  exact weight_of_usable hops (h.edges a ha)
    ((usable_iff hops (h.edges a ha)).1.mp (h.usable a ha))

/-! ## The theorem -/

/-- The path a cycle is returned as. -/
noncomputable def arbPathOf (ops : List GraphOp) (cycle : List (Arrow ExactF64)) :
    ArbPath ExactF64 :=
  { hops := cycle.map fun a => hopOf a.1 a.2
    profitRatio := fin (pathRate ops cycle)
    estimatedProfitLamports := 0 }

/-- **`find_cycles_dfs` IS EXACT**: its results are the arbitrage cycles above the
    threshold, each once, with their hops and the product of their rates. -/
theorem findCyclesDfs_exact (ops : List GraphOp) (hops : FeesBelowOne ops)
    (source maxHops : Nat) (minProfitRatio : ExactF64) :
    ∃ cycles : List (List (Arrow ExactF64)),
      cycles.Nodup ∧
      (∀ cycle, cycle ∈ cycles ↔
        ArbCycle (PriceGraph.build ops) source maxHops cycle ∧
          Exceeds minProfitRatio (pathRate ops cycle)) ∧
      findCyclesDfs (PriceGraph.build ops) source maxHops minProfitRatio =
        cycles.map (arbPathOf ops) := by
  have hg : GraphInv (PriceGraph.build ops : PriceGraph ExactF64) := GraphInv.build ops
  have hmem : ∀ cycle, cycle ∈ closures (arrows (PriceGraph.build ops)) source maxHops source [] ↔
      ArbCycle (PriceGraph.build ops) source maxHops cycle := by
    intro cycle
    rw [mem_closures_iff_cycle, cycle_iff hops]
  refine ⟨(closures (arrows (PriceGraph.build ops)) source maxHops source []).filter
    (profitable minProfitRatio), ?_, ?_, ?_⟩
  · exact (closures_nodup _ (arrows_out_nodup hg) source maxHops source []).filter _
  · intro cycle
    rw [List.mem_filter, hmem]
    refine and_congr_right ?_
    intro hcycle
    -- the reported ratio is the product of the rates, so the tests agree
    rw [profitable, exp_weightSum (hcycle.weighed hops)]
    exact Iff.rfl
  · rw [findCyclesDfs_eq, reports]
    refine List.map_congr_left ?_
    intro cycle hcycle
    have hcycle := (hmem cycle).mp (List.mem_filter.mp hcycle).1
    rw [report, exp_weightSum (hcycle.weighed hops)]
    rfl

/-! ## Cycles by the table of the edges -/

/-- What a cycle shows of one of its edges: the row of the table, its index and the price on
    offer. -/
structure Leg where
  index : Nat
  source : Nat
  dest : Nat
  hop : ArbHop
  price : Option EdgePrice

def legOf (ops : List GraphOp) (a : Arrow ExactF64) : Leg :=
  ⟨a.1, a.2.source, a.2.dest, hopOf 0 a.2, priceOf ops a.2⟩

noncomputable def Leg.rate (leg : Leg) : ℝ := leg.price.elim 0 effectiveRate

/-- The hop a path reports. -/
def Leg.arbHop (leg : Leg) : ArbHop := { leg.hop with edgeIndex := leg.index }

/-- The row is in the table and has the price on offer. -/
def Leg.Offered (ops : List GraphOp) (rows : List (Nat × Nat × ArbHop)) (leg : Leg) : Prop :=
  rows[leg.index]? = some (leg.source, leg.dest, leg.hop) ∧
    leg.price = quotesOf ops (leg.hop.poolAddress, leg.hop.inputMint) ∧ leg.price ≠ none

/-- The legs lead from `source` back to it for the first time, each through another pool. -/
def RoundTrip (source maxHops : Nat) (legs : List Leg) : Prop :=
  2 ≤ legs.length ∧ legs.length ≤ maxHops ∧ legs.head?.map (·.source) = some source ∧
    legs.getLast?.map (·.dest) = some source ∧
    legs.IsChain (fun leg leg' => leg.dest = leg'.source) ∧
    (legs.map (·.hop.poolAddress)).Nodup ∧ ∀ leg ∈ legs.tail.dropLast, leg.dest ≠ source

section Legs

variable {rows : List (Nat × Nat × ArbHop)} {legs : List Leg} {cycle : List (Arrow ExactF64)}

instance (leg : Leg) : Decidable (leg.Offered ops rows) := inferInstanceAs (Decidable (_ ∧ _))

instance (source maxHops : Nat) : Decidable (RoundTrip source maxHops legs) :=
  inferInstanceAs (Decidable (_ ∧ _))

theorem pathRate_legs (cycle : List (Arrow ExactF64)) :
    pathRate ops cycle = ((cycle.map (legOf ops)).map Leg.rate).prod := by
  rw [List.map_map]
  rfl

theorem hops_legs (ops : List GraphOp) (cycle : List (Arrow ExactF64)) :
    cycle.map (fun a => hopOf a.1 a.2) = (cycle.map (legOf ops)).map Leg.arbHop := by
  rw [List.map_map]
  rfl

/-- Legs on offer are edges of the graph. -/
theorem exists_legs (hrows : (PriceGraph.build ops).edges.map edgeRow = rows)
    (h : ∀ leg ∈ legs, leg.Offered ops rows) :
    ∃ cycle : List (Arrow ExactF64), cycle.map (legOf ops) = legs ∧
      ∀ a ∈ cycle, (PriceGraph.build ops).edges[a.1]? = some a.2 ∧ priceOf ops a.2 ≠ none := by
  induction legs with
  | nil => exact ⟨[], rfl, fun a ha => absurd ha List.not_mem_nil⟩
  | cons leg legs ih =>
      obtain ⟨⟨hrow, hprice, hsome⟩, hrest⟩ := List.forall_mem_cons.mp h
      obtain ⟨cycle, hcycle, hall⟩ := ih hrest
      obtain ⟨x, hx⟩ := Option.ne_none_iff_exists'.mp hsome
      obtain ⟨e, he, hs, hd, hhop, hoffer, -⟩ := exists_edge hrows hrow (hprice.symm.trans hx)
      refine ⟨(leg.index, e) :: cycle, ?_, ?_⟩
      · rw [List.map_cons, hcycle, legOf, hs, hd, hhop, hoffer, ← hx]
      · refine List.forall_mem_cons.mpr ⟨⟨he, ?_⟩, hall⟩
        rw [hoffer]
        exact Option.some_ne_none x

/-- The edges of a round trip are an arbitrage cycle. -/
theorem arbCycle_of_legs (hops : FeesBelowOne ops) {source maxHops : Nat}
    (h : ∀ a ∈ cycle, (PriceGraph.build ops).edges[a.1]? = some a.2 ∧ priceOf ops a.2 ≠ none)
    (htrip : RoundTrip source maxHops (cycle.map (legOf ops))) :
    ArbCycle (PriceGraph.build ops) source maxHops cycle := by
  obtain ⟨htwo, hmax, hstart, hend, hchain, hpools, hinterior⟩ := htrip
  rw [List.length_map] at htwo hmax
  rw [List.head?_map, Option.map_map] at hstart
  rw [List.getLast?_map, Option.map_map] at hend
  rw [List.map_map] at hpools
  refine ⟨htwo, hmax, fun a ha => (h a ha).1, ?_, hstart, hend, (List.isChain_map _).mp hchain,
    hpools, ?_⟩
  · intro a ha
    exact (usable_iff hops (h a ha).1).1.mpr (Option.ne_none_iff_exists'.mp (h a ha).2)
  · intro a ha
    refine hinterior (legOf ops a) ?_
    rw [← List.map_tail, ← List.map_dropLast]
    exact List.mem_map_of_mem ha

/-- A round trip whose rates multiply past the threshold is found. -/
theorem found_of_legs (hops : FeesBelowOne ops)
    (hrows : (PriceGraph.build ops).edges.map edgeRow = rows) (legs : List Leg)
    (h : ∀ leg ∈ legs, leg.Offered ops rows) {source maxHops : Nat}
    (htrip : RoundTrip source maxHops legs) {m : ℝ} (hm : 1 + m < (legs.map Leg.rate).prod) :
    ∃ p ∈ findCyclesDfs (PriceGraph.build ops) source maxHops (fin m),
      p.hops = legs.map Leg.arbHop := by
  obtain ⟨cycle, rfl, hall⟩ := exists_legs hrows h
  have hcycle := arbCycle_of_legs hops hall htrip
  have hprofit : profitable (fin m) cycle = true := by
    rwa [profitable_iff (hcycle.weighed hops), pathRate_legs]
  obtain ⟨hnetwork, hlen⟩ := (cycle_iff hops source maxHops cycle).mpr hcycle
  exact ⟨report cycle, (mem_findCyclesDfs _ _ _ _ _).mpr ⟨cycle, hnetwork, hlen, hprofit, rfl⟩,
    hops_legs ops cycle⟩

end Legs

/-- Out through the first sample pool, back through the second. -/
def twoPoolsLegs : List Leg :=
  [⟨0, 0, 1, sampleHop 101 .raydiumAmm 1 2, some ⟨1000, 2000, 25, 10000, 1⟩⟩,
    ⟨3, 1, 0, sampleHop 102 .raydiumAmm 2 1, some ⟨1000, 1000, 25, 10000, 1⟩⟩]

/-- On the two sample pools the search returns the cycle out through the first
    and back through the second. -/
theorem findCyclesDfs_twoPools :
    ∃ p ∈ findCyclesDfs (PriceGraph.build twoPools) 0 4 (fin 0),
      p.hops.map (·.poolAddress) = [keyOf 101, keyOf 102] := by
  obtain ⟨cycles, -, hmem, hresults⟩ := findCyclesDfs_exact twoPools twoPools_fees 0 4 (fin 0)
  obtain ⟨cycle, hlegs, hall⟩ := exists_legs twoPools_edges
    (by decide : ∀ leg ∈ twoPoolsLegs, leg.Offered twoPools _)
  have hcycle : ArbCycle (PriceGraph.build twoPools) 0 4 cycle :=
    arbCycle_of_legs twoPools_fees hall (by rw [hlegs]; decide)
  have hexceeds : Exceeds (fin 0) (pathRate twoPools cycle) := by
    rw [exceeds_fin, pathRate_legs, hlegs]
    simp only [twoPoolsLegs, List.map_cons, List.map_nil, List.prod_cons, List.prod_nil, Leg.rate,
      Option.elim_some, effectiveRate, spotRate, keptShare, UInt64.reduceToNat]
    norm_num
  refine ⟨arbPathOf twoPools cycle, ?_, ?_⟩
  · rw [hresults]
    exact List.mem_map_of_mem ((hmem _).mpr ⟨hcycle, hexceeds⟩)
  · show (cycle.map fun a => hopOf a.1 a.2).map (·.poolAddress) = _
    rw [hops_legs twoPools, hlegs]
    rfl

end MevDfsCorrect
