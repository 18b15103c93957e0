import MevBot.DfsCorrectness
import MevBot.StrategyHistory

/-! # Pools that die

    A pool whose account stops decoding, or decodes with an empty reserve,
    should leave the search.  `process_update` never calls `remove_pool`, and
    `update_pool` returns before touching the edges when a reserve is zero, so
    the edges of an EARLIER live update stay in the graph at their old price.
    The pool stays out of every path only in runs where each such update comes
    before the pool's first live one (`retired_unused`). -/

namespace MevStale

open MevMachine MevTypes MevGraph MevGraphInv MevSearch MevDfs MevDex MevCache MevStrategy
open MevHistory MevRates MevDfsCorrect MevExact ExactF64 MevQuotes

section Runs

variable (F : Type) [F64 F]

/-- An update of the account at `p`, owned by a DEX program, that shows no pool
    with both reserves nonzero. -/
structure Dead (p : Pubkey) (u : CachedUpdate) : Prop where
  account : u.2.pubkey = p
  owned : ∃ adapter ∈ dexArbAdapters F, u.2.owner = adapter.programId
  notLive : ∀ pool, decodedPool F u = some pool → ¬Funded pool

/-- `p` died in the run and has not come back. -/
def Retired (p : Pubkey) (us : List CachedUpdate) : Prop :=
  ∃ pre u post, us = pre ++ u :: post ∧ Dead F p u ∧ ∀ v ∈ post, ¬Live F p v

/-- No path of the search uses `p`. -/
def Unused (p : Pubkey) (g : PriceGraph F) : Prop :=
  ∀ source maxHops m, ∀ path ∈ findCyclesDfs g source maxHops m, ∀ hop ∈ path.hops,
    hop.poolAddress ≠ p

/-- Every update that shows a pool dead comes before the pool's first live one. -/
def DeadBeforeLive (us : List CachedUpdate) : Prop :=
  ∀ pre u post p, us = pre ++ u :: post → Dead F p u → ∀ v ∈ pre, ¬Live F p v

variable {F}

/-- A pool with no live update is on no path. -/
theorem unused_of_not_live {us : List CachedUpdate} {p : Pubkey} (h : ∀ v ∈ us, ¬Live F p v) :
    Unused F p (PriceGraph.build (historyOf F us)) := by
  intro source maxHops m path hpath hop hhop hp
  obtain ⟨cycle, hcycle, -, -, rfl⟩ := (mem_findCyclesDfs _ _ _ _ _).mp hpath
  obtain ⟨a, ha, rfl⟩ := List.mem_map.mp hhop
  obtain ⟨he, -⟩ := trail_edges (GraphInv.build _) hcycle.trail ha
  -- every edge on a path was written by a live update of its pool
  obtain ⟨u, hu, hlive⟩ := edge_source us he
  have hpool : a.2.poolAddress = p := hp
  rw [hpool] at hlive
  exact h u hu hlive

end Runs

/-! ## Sample runs -/

/-- An update of a sample market, on an empty cache. -/
def phoenixUpdate (address status : UInt8) (tickSize : Nat) (slot : UInt64) : CachedUpdate :=
  (AccountCache.new, phoenixAccount address status 1 tickSize slot)

/-- The pool a live `phoenixUpdate` decodes to. -/
def phoenixPool (address : UInt8) (tickSize : Nat) (slot : UInt64) : PoolState :=
  { address := keyOf address, dexType := .phoenix, tokenAMint := keyOf 1, tokenBMint := keyOf 2,
    tokenAVault := Pubkey.default, tokenBVault := Pubkey.default,
    tokenAAmount := 1000, tokenBAmount := UInt64.ofNat (tickSize * 1000),
    feeNumerator := 4, feeDenominator := 10000, slot }

/-- Two live markets, then the first one closes. -/
def closingRun : List CachedUpdate :=
  [phoenixUpdate 101 1 2 1, phoenixUpdate 102 1 1 2, phoenixUpdate 101 0 2 3]

theorem closingRun_decoded :
    closingRun.map (decodedPool ExactF64) =
      [some (phoenixPool 101 2 1), some (phoenixPool 102 1 2), none] := by
  decide +kernel

/-- A market that is closed before the run's live markets are seen. -/
def closedFirstRun : List CachedUpdate :=
  [phoenixUpdate 101 0 2 1, phoenixUpdate 102 1 2 2, phoenixUpdate 103 1 1 3]

theorem closedFirstRun_decoded :
    closedFirstRun.map (decodedPool ExactF64) =
      [none, some (phoenixPool 102 2 2), some (phoenixPool 103 1 3)] := by
  decide +kernel

/-- What the closing run leaves the graph: both pools at their live prices. -/
def closingHistory : List GraphOp :=
  [.updatePool (phoenixPool 101 2 1), .updatePool (phoenixPool 102 1 2)]

theorem closingRun_history : historyOf ExactF64 closingRun = closingHistory := by
  rw [historyOf_eq_filterMap, closingRun_decoded]
  rfl

theorem closingHistory_fees : FeesBelowOne closingHistory :=
  feesBelowOne_pair (by decide) (by decide)

theorem closingHistory_edges :
    (PriceGraph.build closingHistory).edges.map edgeRow =
      [(0, 1, sampleHop 101 .phoenix 1 2), (1, 0, sampleHop 101 .phoenix 2 1),
        (0, 1, sampleHop 102 .phoenix 1 2), (1, 0, sampleHop 102 .phoenix 2 1)] := by
  decide

/-- Out through the closed market at 2, back through the open one at 1. -/
def closingLegs : List Leg :=
  [⟨0, 0, 1, sampleHop 101 .phoenix 1 2, some ⟨1000, 2000, 4, 10000, 1⟩⟩,
    ⟨3, 1, 0, sampleHop 102 .phoenix 2 1, some ⟨1000, 1000, 4, 10000, 2⟩⟩]

/-- The search still trades through the closed market. -/
theorem closingHistory_used : ¬Unused ExactF64 (keyOf 101) (PriceGraph.build closingHistory) := by
  intro hunused
  obtain ⟨p, hp, hhops⟩ := found_of_legs closingHistory_fees closingHistory_edges closingLegs
    (by decide) (by decide : RoundTrip 0 2 closingLegs) (m := 0)
    (by
      simp only [closingLegs, List.map_cons, List.map_nil, List.prod_cons, List.prod_nil, Leg.rate,
        Option.elim_some, effectiveRate, spotRate, keptShare, UInt64.reduceToNat]
      norm_num)
  refine hunused 0 2 _ p hp { sampleHop 101 .phoenix 1 2 with edgeIndex := 0 } ?_ rfl
  rw [hhops]
  exact List.mem_cons_self

/-! ## The theorem -/

section Runs

variable {F : Type} [F64 F]

/-- **DEAD POOLS STAY UNUSED** in every run in which each update that shows a pool
    dead comes before the pool's first live one, and so in every state of it. -/
theorem retired_unused (minProfit : Int64) (maxHops : Nat) (anchors : List Pubkey)
    (us : List CachedUpdate) (hus : DeadBeforeLive F us) (p : Pubkey) (hp : Retired F p us) :
    Unused F p
      ((DexArbStrategy.new minProfit maxHops anchors : DexArbStrategy F).run us).mutableGraph := by
  rw [run_mutableGraph]
  obtain ⟨pre, u, post, rfl, hdead, hpost⟩ := hp
  refine unused_of_not_live ?_
  intro v hv
  -- before the death the order forbids a live update, after it the pool is retired
  rcases List.mem_append.mp hv with hv | hv
  · exact hus pre u post p rfl hdead v hv
  · rcases List.mem_cons.mp hv with rfl | hv
    · rintro ⟨-, pool, hpool, hfund⟩
      exact hdead.notLive pool hpool hfund
    · exact hpost v hv

end Runs

/-- A pool that is closed before it was ever live stays out. -/
theorem closedFirstRun_unused :
    Unused ExactF64 (keyOf 101)
      ((DexArbStrategy.new 1 4 [keyOf 1] : DexArbStrategy ExactF64).run
        closedFirstRun).mutableGraph := by
  obtain ⟨h0, h1, h2⟩ : decodedPool ExactF64 (phoenixUpdate 101 0 2 1) = none ∧
      decodedPool ExactF64 (phoenixUpdate 102 1 2 2) = some (phoenixPool 102 2 2) ∧
      decodedPool ExactF64 (phoenixUpdate 103 1 1 3) = some (phoenixPool 103 1 3) := by
    have h := closedFirstRun_decoded
    simpa only [closedFirstRun, List.map_cons, List.map_nil, List.cons.injEq, and_true] using h
  refine retired_unused 1 4 [keyOf 1] closedFirstRun ?_ (keyOf 101)
    ⟨[], _, _, rfl, ⟨rfl, ⟨PhoenixAdapter, by simp [dexArbAdapters], rfl⟩, ?_⟩, ?_⟩
  · intro pre u post p hsplit hdead v hv
    cases pre with
    | nil => exact absurd hv List.not_mem_nil
    | cons w pre =>
        -- a later update of this run is live, so it shows no pool dead
        have hu : u ∈ [phoenixUpdate 102 1 2 2, phoenixUpdate 103 1 1 3] := by
          rw [(List.cons.inj hsplit).2]
          exact List.mem_append_right _ List.mem_cons_self
        simp only [List.mem_cons, List.not_mem_nil, or_false] at hu
        rcases hu with rfl | rfl
        · exact absurd (by decide) (hdead.notLive _ h1)
        · exact absurd (by decide) (hdead.notLive _ h2)
  · intro pool hpool
    rw [h0] at hpool
    cases hpool
  · intro v hv
    simp only [List.mem_cons, List.not_mem_nil, or_false] at hv
    rcases hv with rfl | rfl
    · exact fun h => absurd (show phoenixUpdate 102 1 2 2 |>.2.pubkey = _ from h.1) (by decide)
    · exact fun h => absurd (show phoenixUpdate 103 1 1 3 |>.2.pubkey = _ from h.1) (by decide)

/-- **THE CODE KEEPS A DEAD POOL'S PRICE**: after the closing run the search
    returns a path through the closed market. -/
theorem closed_market_used :
    Retired ExactF64 (keyOf 101) closingRun ∧
      ¬Unused ExactF64 (keyOf 101)
        ((DexArbStrategy.new 1 4 [keyOf 1] : DexArbStrategy ExactF64).run
          closingRun).mutableGraph := by
  refine ⟨⟨closingRun.take 2, phoenixUpdate 101 0 2 3, [], rfl, ⟨rfl, ?_, ?_⟩, ?_⟩, ?_⟩
  · exact ⟨PhoenixAdapter, by simp [dexArbAdapters], rfl⟩
  · intro pool hpool
    have hnone : decodedPool ExactF64 (phoenixUpdate 101 0 2 3) = none := by decide +kernel
    rw [hnone] at hpool
    cases hpool
  · intro v hv
    exact absurd hv List.not_mem_nil
  · rw [run_mutableGraph, closingRun_history]
    exact closingHistory_used

end MevStale
