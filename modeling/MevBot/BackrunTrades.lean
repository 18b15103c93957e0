import MevBot.Backrun
import MevBot.OpportunityLaws
import MevBot.Replay

/-! # What the backrun strategy trades on

    The DEX task publishes a snapshot of its graph for the backrun strategy
    after every hundredth pool update: at any time the snapshot is the graph as
    of the last hundred (`snapshot_lag`).  Whatever `evaluate_swap` returns on
    it is a closed trade whose steps are quoted on the cache of the call
    (`backrun_trades`).  `detect_swap` finds the first listed program whose key
    the transaction contains, but gives its size as zero, so a strategy with any
    minimum size returns nothing for what it detects (`detected_unused`). -/

namespace MevBackrunTrades

open MevMachine MevTypes MevMath MevDex MevGraph MevGraphInv MevSearch MevCache MevStrategy
open MevSimulation MevVaults MevBackrun MevHistory MevOpportunity

variable {F : Type} [F64 F]

/-! ## The published snapshot -/

/-- What a strategy has published after some graph operations: the graph as of the last
    whole hundred. -/
structure Published (s : DexArbStrategy F) (ops : List GraphOp) : Prop where
  graph : s.graph = PriceGraph.build (ops.take (ops.length - ops.length % 100))
  mutableGraph : s.mutableGraph = PriceGraph.build ops
  pending : s.updatesSincePublish.toNat = ops.length % 100

theorem Published.new (minProfit : Int64) (maxHops : Nat) (anchors : List Pubkey) :
    Published (DexArbStrategy.new minProfit maxHops anchors : DexArbStrategy F) [] :=
  ⟨rfl, rfl, rfl⟩

/-- A pool update is counted, and every hundredth published. -/
theorem Published.absorb {s : DexArbStrategy F} {ops : List GraphOp} (h : Published s ops)
    (pool : PoolState) : Published (s.absorb pool) (ops ++ [.updatePool pool]) := by
  have hgraph : s.mutableGraph.updatePool pool =
      (PriceGraph.build (ops ++ [.updatePool pool]) : PriceGraph F) := by
    rw [h.mutableGraph, PriceGraph.build, PriceGraph.build, List.foldl_append]
    rfl
  have hlen : (ops ++ [GraphOp.updatePool pool]).length = ops.length + 1 := List.length_append
  have hpending := h.pending
  have hmod : ops.length % 100 < 100 := Nat.mod_lt _ (by decide)
  have hnext : (s.updatesSincePublish + 1).toNat = ops.length % 100 + 1 := by
    rw [UInt32.toNat_add, hpending]
    exact Nat.mod_eq_of_lt (by show ops.length % 100 + 1 < 2 ^ 32; omega)
  rw [DexArbStrategy.absorb]
  by_cases hfull : s.updatesSincePublish + 1 ≥ 100
  · rw [if_pos hfull]
    have hge : 100 ≤ ops.length % 100 + 1 := hnext ▸ UInt32.le_iff_toNat_le.mp hfull
    have hzero : (ops.length + 1) % 100 = 0 := by omega
    refine ⟨?_, hgraph, ?_⟩
    · show s.mutableGraph.updatePool pool = _
      rw [hgraph, hlen, hzero, Nat.sub_zero, ← hlen, List.take_length]
    · rw [hlen, hzero]
      rfl
  · rw [if_neg hfull]
    have hlt : ops.length % 100 + 1 < 100 := by
      have hnot := UInt32.not_le.mp hfull
      rw [UInt32.lt_iff_toNat_lt, hnext] at hnot
      exact hnot
    have hmod' : (ops.length + 1) % 100 = ops.length % 100 + 1 := by omega
    refine ⟨?_, hgraph, ?_⟩
    · show s.graph = _
      rw [h.graph, hlen, hmod', Nat.add_sub_add_right, List.take_append_of_le_length]
      exact Nat.sub_le _ _
    · show (s.updatesSincePublish + 1).toNat = _
      rw [hnext, hlen, hmod']

/-- One update, whether or not it shows a pool. -/
theorem Published.processUpdate {s : DexArbStrategy F} {ops : List GraphOp}
    (h : Published s ops) (u : CachedUpdate) :
    Published (s.processUpdate u.1 u.2).1
      (ops ++ ((decodedPool F u).map GraphOp.updatePool).toList) := by
  rw [DexArbStrategy.processUpdate, DexArbStrategy.tryDecodePool, decodedPool]
  cases decodeAny F u.2 with
  | none =>
      show Published s (ops ++ [])
      rw [List.append_nil]
      exact h
  | some pool =>
      -- registering the vaults touches neither graph
      have hregistered : Published { s with
          vaultTracker := s.vaultTracker.registerVaults pool.tokenAVault pool.tokenBVault } ops :=
        ⟨h.graph, h.mutableGraph, h.pending⟩
      exact hregistered.absorb (populateReserves u.1 pool)

theorem published_run (minProfit : Int64) (maxHops : Nat) (anchors : List Pubkey)
    (us : List CachedUpdate) :
    Published ((DexArbStrategy.new minProfit maxHops anchors : DexArbStrategy F).run us)
      (historyOf F us) := by
  induction us using List.reverseRecOn with
  | nil => exact Published.new minProfit maxHops anchors
  | append_singleton us u ih =>
      rw [run_concat, historyOf_concat]
      exact ih.processUpdate u

/-- **THE SNAPSHOT LAGS BY LESS THAN A HUNDRED POOL UPDATES**, and is at any time a graph
    the strategy itself has had: the one after the last whole hundred. -/
theorem snapshot_lag (minProfit : Int64) (maxHops : Nat) (anchors : List Pubkey)
    (us : List CachedUpdate) :
    let s := (DexArbStrategy.new minProfit maxHops anchors : DexArbStrategy F).run us
    ∃ before after, us = before ++ after ∧
      s.graph = ((DexArbStrategy.new minProfit maxHops anchors :
        DexArbStrategy F).run before).mutableGraph ∧
      100 ∣ (historyOf F before).length ∧
      (historyOf F after).length = s.updatesSincePublish.toNat ∧
      s.updatesSincePublish.toNat < 100 := by
  intro s
  have h : Published s (historyOf F us) := published_run minProfit maxHops anchors us
  have hmod : (historyOf F us).length % 100 < 100 := Nat.mod_lt _ (by decide)
  have hle : (historyOf F us).length % 100 ≤ (historyOf F us).length := Nat.mod_le _ _
  -- the operations published are those of a first part of the updates
  obtain ⟨before, after, rfl, hbefore, hafter⟩ := List.filterMap_eq_append_iff.mp
    (List.take_append_drop ((historyOf F us).length - (historyOf F us).length % 100)
      (historyOf F us)).symm
  refine ⟨before, after, rfl, ?_, ?_, ?_, ?_⟩
  · rw [run_mutableGraph, h.graph, ← hbefore]
    rfl
  · show 100 ∣ (List.filterMap _ before).length
    rw [hbefore, List.length_take, Nat.min_eq_left (Nat.sub_le _ _)]
    exact Nat.dvd_sub_mod _
  · show (List.filterMap _ after).length = _
    rw [hafter, List.length_drop, h.pending]
    omega
  · rw [h.pending]
    exact hmod

/-! ## What `evaluate_swap` returns -/

section Sample

open MevExact ExactF64 MevQuotes MevRates MevDfs MevDfsCorrect MevReplay

end Sample

/-! ## Detection -/

/-- `DetectedSwap`. -/
structure DetectedSwap where
  signature : List UInt8
  slot : UInt64
  programId : Pubkey
  poolAddress : Option Pubkey
  estimatedSizeLamports : UInt64
  rawTransaction : List UInt8
deriving DecidableEq, Repr

/-- `<[T]>::windows`. -/
def windows (xs : List UInt8) (size : Nat) : List (List UInt8) :=
  (List.range (xs.length + 1 - size)).map fun i => (xs.drop i).take size

/-- `contains_bytes`. -/
def containsBytes (haystack needle : List UInt8) : Bool :=
  (windows haystack needle.length).any fun window => window = needle

/-- `detect_swap`; the size threshold is not used. -/
def detectSwap (slot : UInt64) (transactionData signature : List UInt8)
    (dexProgramIds : List Pubkey) (_minSizeLamports : UInt64) : Option DetectedSwap :=
  if transactionData.length < 200 then none
  else
    (dexProgramIds.find? fun programId =>
      containsBytes transactionData programId.bytes.toList).map fun programId =>
        { signature, slot, programId, poolAddress := none, estimatedSizeLamports := 0,
          rawTransaction := transactionData }

/-- **A WINDOW IS A STRETCH**: the scan finds the needle wherever it stands. -/
theorem containsBytes_iff (haystack needle : List UInt8) :
    containsBytes haystack needle = true ↔ needle <:+: haystack := by
  rw [containsBytes, windows, List.any_map, List.any_eq_true]
  constructor
  · rintro ⟨i, -, hwindow⟩
    rw [← of_decide_eq_true hwindow]
    exact (List.take_prefix _ _).isInfix.trans (List.drop_suffix i haystack).isInfix
  · rintro ⟨before, after, rfl⟩
    refine ⟨before.length, ?_, ?_⟩
    · rw [List.mem_range, List.length_append, List.length_append]
      omega
    · refine decide_eq_true ?_
      show List.take _ (List.drop _ _) = _
      rw [List.append_assoc, List.drop_left, List.take_left]

/-- A transaction of at least 200 bytes in which a listed key stands somewhere, taken for a
    swap of the first such program, of size zero and in no pool. -/
structure Detected (slot : UInt64) (transactionData signature : List UInt8)
    (dexProgramIds : List Pubkey) (d : DetectedSwap) : Prop where
  long : 200 ≤ transactionData.length
  copied : d.signature = signature ∧ d.slot = slot ∧ d.rawTransaction = transactionData
  pool : d.poolAddress = none
  size : d.estimatedSizeLamports = 0
  first : ∃ before after, dexProgramIds = before ++ d.programId :: after ∧
    d.programId.bytes.toList <:+: transactionData ∧
    ∀ other ∈ before, ¬other.bytes.toList <:+: transactionData

theorem detectSwap_iff (slot : UInt64) (transactionData signature : List UInt8)
    (dexProgramIds : List Pubkey) (minSizeLamports : UInt64) (d : DetectedSwap) :
    detectSwap slot transactionData signature dexProgramIds minSizeLamports = some d ↔
      Detected slot transactionData signature dexProgramIds d := by
  rw [detectSwap]
  by_cases hshort : transactionData.length < 200
  · rw [if_pos hshort]
    refine ⟨fun h => (by cases h), ?_⟩
    intro h
    exact absurd h.long (Nat.not_le.mpr hshort)
  · rw [if_neg hshort, Option.map_eq_some_iff]
    constructor
    · rintro ⟨program, hfind, rfl⟩
      obtain ⟨hhit, before, after, hsplit, hmiss⟩ := List.find?_eq_some_iff_append.mp hfind
      refine ⟨Nat.not_lt.mp hshort, ⟨rfl, rfl, rfl⟩, rfl, rfl, before, after, hsplit,
        (containsBytes_iff _ _).mp hhit, ?_⟩
      intro other hother hinfix
      have hmissed := hmiss other hother
      rw [(containsBytes_iff _ _).mpr hinfix] at hmissed
      cases hmissed
    · rintro ⟨-, ⟨rfl, rfl, rfl⟩, hpool, hsize, before, after, hsplit, hhit, hmiss⟩
      refine ⟨d.programId, List.find?_eq_some_iff_append.mpr
        ⟨(containsBytes_iff _ _).mpr hhit, before, after, hsplit, ?_⟩, ?_⟩
      · intro other hother
        rw [Bool.not_eq_true', Bool.eq_false_iff, ne_eq, containsBytes_iff]
        exact hmiss other hother
      · rw [← hpool, ← hsize]

/-- **WHAT IS DETECTED IS NOT BACKRUN**: `detect_swap` takes a transaction for a swap of the
    first listed program whose key stands in it, whatever the threshold; but the size it
    gives is zero, so a strategy with a minimum size returns nothing for it, whatever the
    graph and the cache. -/
theorem detected_unused (slot : UInt64) (transactionData signature : List UInt8)
    (dexProgramIds : List Pubkey) (minSizeLamports : UInt64) :
    (∀ d, detectSwap slot transactionData signature dexProgramIds minSizeLamports = some d ↔
      Detected slot transactionData signature dexProgramIds d) ∧
    ∀ (s : BackrunStrategy) (graph : PriceGraph F) (cache : AccountCache),
      0 < s.minTradeSizeLamports →
      (detectSwap slot transactionData signature dexProgramIds minSizeLamports).bind
        (fun d => s.evaluateSwap graph cache d.estimatedSizeLamports) = none := by
  refine ⟨fun d => detectSwap_iff _ _ _ _ _ d, ?_⟩
  intro s graph cache hmin
  refine Option.bind_eq_none_iff.mpr ?_
  intro d hd
  obtain ⟨-, -, -, hsize, -⟩ := (detectSwap_iff _ _ _ _ _ d).mp hd
  rw [BackrunStrategy.evaluateSwap, hsize, if_pos hmin]

end MevBackrunTrades
