import MevBot.Library.StampedStore
import MevBot.OpportunityLaws

/-! # The cache updater and the DEX strategy

    Both tasks consume the same broadcast updates in order, each at its own
    pace.  The strategy prices an update from the message and simulates on the
    cache, and nothing makes it wait for the cache updater.  So a simulation
    reads the newest state of a pool among the updates the CACHE UPDATER has
    consumed (`cycle_reads_newest`), which may be older than the update that
    triggered it (`lagging_read`). -/

namespace MevReceivers

open MevMachine MevTypes MevGraph MevSearch MevDfs MevCache MevStrategy MevHistory MevRates
open MevOpportunity MevDfsCorrect MevExact StampedStore

/-! ## The cache after a sequence of updates -/

/-- The cache after a sequence of updates. -/
def cacheAfter (us : List AccountUpdate) : AccountCache :=
  us.foldl AccountCache.update AccountCache.new

/-- The last update is applied to what the others left. -/
theorem cacheAfter_concat (us : List AccountUpdate) (u : AccountUpdate) :
    cacheAfter (us ++ [u]) = (cacheAfter us).update u := by
  rw [cacheAfter, List.foldl_append]
  rfl

/-- The slot of an update, as the stamp that gates it. -/
def slotOf (u : AccountUpdate) : Nat := u.slot.toNat

/-- **THE CACHE IS A STAMPED STORE** of the updates it was given. -/
theorem cacheAfter_inner (us : List AccountUpdate) (p : Pubkey) :
    (cacheAfter us).inner p = (after AccountUpdate.pubkey slotOf us p).map entryOf := by
  induction us using List.reverseRecOn generalizing p with
  | nil => rfl
  | append_singleton us u ih =>
      rw [cacheAfter_concat, after_concat, AccountCache.update, put, ih u.pubkey]
      dsimp only
      by_cases hp : p = u.pubkey
      · subst hp
        rw [Function.update_self, Function.update_self]
        cases after AccountUpdate.pubkey slotOf us u.pubkey with
        | none => rfl
        | some current =>
            have hslot : u.slot ≥ (entryOf current).slot ↔ slotOf current ≤ slotOf u :=
              UInt64.le_iff_toNat_le
            simp only [Option.map_some, keep, hslot]
            split
            · rfl
            · rfl
      · rw [Function.update_of_ne hp, Function.update_of_ne hp]
        exact ih p

/-! ## The two tasks -/

variable {F : Type} [F64 F]

/-- The shared cache, the strategy, and how many updates each task has consumed. -/
structure Tasks (F : Type) where
  cache : AccountCache
  cacheNext : Nat
  strategy : DexArbStrategy F
  strategyNext : Nat

/-- Which task takes the next step. -/
inductive Task where
  /-- `run_cache_updater`. -/
  | cacheUpdater
  /-- The strategy task of `main`. -/
  | dexArb

/-- Before either task has consumed anything. -/
def Tasks.start (strategy : DexArbStrategy F) : Tasks F := ⟨AccountCache.new, 0, strategy, 0⟩

/-- One task receives its next update, if there is one, and processes it. -/
def step (us : List AccountUpdate) (t : Tasks F) : Task → Tasks F
  | .cacheUpdater =>
      match us[t.cacheNext]? with
      | some u => { t with cache := t.cache.update u, cacheNext := t.cacheNext + 1 }
      | none => t
  | .dexArb =>
      match us[t.strategyNext]? with
      | some u =>
          { t with strategy := (t.strategy.processUpdate t.cache u).1,
                   strategyNext := t.strategyNext + 1 }
      | none => t

/-- A turn of the cache updater applies the next update. -/
theorem step_cacheUpdater {us : List AccountUpdate} {t : Tasks F} {u : AccountUpdate}
    (hu : us[t.cacheNext]? = some u) :
    step us t .cacheUpdater =
      { t with cache := t.cache.update u, cacheNext := t.cacheNext + 1 } := by
  rw [step, hu]

/-- A turn of the strategy searches after the next update, on the cache as it is. -/
theorem step_dexArb {us : List AccountUpdate} {t : Tasks F} {u : AccountUpdate}
    (hu : us[t.strategyNext]? = some u) :
    step us t .dexArb =
      { t with strategy := (t.strategy.processUpdate t.cache u).1,
               strategyNext := t.strategyNext + 1 } := by
  rw [step, hu]

/-- The tasks after a schedule of steps. -/
def runTasks (us : List AccountUpdate) (t : Tasks F) (schedule : List Task) : Tasks F :=
  schedule.foldl (step us) t

/-- The cache holds what the cache updater has consumed. -/
def Synced (us : List AccountUpdate) (t : Tasks F) : Prop :=
  t.cache = cacheAfter (us.take t.cacheNext)

theorem Synced.step {us : List AccountUpdate} {t : Tasks F} (h : Synced us t) (task : Task) :
    Synced us (step us t task) := by
  cases task with
  | cacheUpdater =>
      rw [MevReceivers.step]
      split
      · rename_i u hu
        rw [Synced, List.take_add_one, hu, Option.toList_some, cacheAfter_concat, ← h]
      · exact h
  | dexArb =>
      rw [MevReceivers.step]
      split
      · exact h
      · exact h

/-- In every schedule both tasks have received a prefix of the updates. -/
theorem synced_run (us : List AccountUpdate) (strategy : DexArbStrategy F)
    (schedule : List Task) : Synced us (runTasks us (Tasks.start strategy) schedule) := by
  induction schedule using List.reverseRecOn with
  | nil => rfl
  | append_singleton schedule task ih =>
      rw [runTasks, List.foldl_append]
      exact ih.step task

/-! ## What a simulation reads -/

variable (F) in
/-- The first loop of `simulate_cycle` gets to a hop through the pool at `p` and
    reads these bytes of its account. -/
def Reads (cache : AccountCache) (hops : List ArbHop) (p : Pubkey) (data : List UInt8) : Prop :=
  ∃ before hop behind, hops = before ++ hop :: behind ∧
    (∀ h ∈ before, hopState F cache h ≠ none) ∧ hop.poolAddress = p ∧ cache.getData p = some data

/-- Processing the pool update, the strategy evaluates a cycle through the pool and
    reads these bytes of its account. -/
structure CycleRead (t : Tasks F) (u : AccountUpdate) (data : List UInt8) : Prop where
  decoded : ∃ pool, decodeAny F u = some pool
  read : ∃ anchor ∈ (t.strategy.processUpdate t.cache u).1.anchorMints,
    ∃ cycle ∈ (t.strategy.processUpdate t.cache u).1.anchorCycles anchor,
      Reads F t.cache cycle.hops u.pubkey data

omit [F64 F] in
/-- What a cached entry of the tasks' cache is. -/
theorem Synced.newest {us : List AccountUpdate} {t : Tasks F} (h : Synced us t) {p : Pubkey}
    {data : List UInt8} (hdata : t.cache.getData p = some data) :
    ∃ v, Newest AccountUpdate.pubkey slotOf (us.take t.cacheNext) p v ∧
      t.cache.get p = some (entryOf v) ∧ v.data = data := by
  obtain ⟨entry, hentry, rfl⟩ := Option.map_eq_some_iff.mp hdata
  have hkept := hentry
  rw [h, cacheAfter_inner] at hkept
  obtain ⟨v, hv, rfl⟩ := Option.map_eq_some_iff.mp hkept
  exact ⟨v, after_iff.mp hv, hentry, rfl⟩

/-- **A SIMULATION READS THE NEWEST CONSUMED STATE**, in every interleaving of the two
    tasks: the bytes are those of the newest update of the pool that the cache
    updater has consumed.  They are from the slot of the triggering update or a
    later one exactly when the cache updater has consumed such an update, and so
    whenever it has consumed the triggering update itself. -/
theorem cycle_reads_newest (us : List AccountUpdate) (strategy : DexArbStrategy F)
    (schedule : List Task) {u : AccountUpdate} {data : List UInt8}
    (hu : us[(runTasks us (Tasks.start strategy) schedule).strategyNext]? = some u)
    (hread : CycleRead (runTasks us (Tasks.start strategy) schedule) u data) :
    let t := runTasks us (Tasks.start strategy) schedule
    ∃ v, Newest AccountUpdate.pubkey slotOf (us.take t.cacheNext) u.pubkey v ∧
      t.cache.get u.pubkey = some (entryOf v) ∧ v.data = data ∧
      (u.slot ≤ v.slot ↔ ∃ w ∈ us.take t.cacheNext, w.pubkey = u.pubkey ∧ u.slot ≤ w.slot) ∧
      (t.strategyNext < t.cacheNext → u.slot ≤ v.slot) := by
  intro t
  obtain ⟨anchor, -, cycle, -, before, hop, behind, -, -, -, hdata⟩ := hread.read
  obtain ⟨v, hnewest, hentry, hbytes⟩ := (synced_run us strategy schedule).newest hdata
  have hiff : u.slot ≤ v.slot ↔
      ∃ w ∈ us.take t.cacheNext, w.pubkey = u.pubkey ∧ u.slot ≤ w.slot := by
    refine ⟨fun h => ⟨v, hnewest.mem, hnewest.key_eq, h⟩, ?_⟩
    rintro ⟨w, hw, hkey, hslot⟩
    exact UInt64.le_trans hslot (UInt64.le_iff_toNat_le.mpr (hnewest.stamp_le hw hkey))
  refine ⟨v, hnewest, hentry, hbytes, hiff, fun hahead => ?_⟩
  have hconsumed : u ∈ us.take t.cacheNext := by
    refine List.mem_of_getElem? (i := t.strategyNext) ?_
    rw [List.getElem?_take_of_lt hahead]
    exact hu
  exact hiff.mpr ⟨u, hconsumed, rfl, UInt64.le_refl _⟩

/-! ## A lagging cache updater -/

/-- A cycle found on the graph that the update leaves is evaluated. -/
theorem cycleRead_of_found {minProfit : Int64} {maxHops : Nat} {anchors : List Pubkey}
    {seen : List CachedUpdate} {cache : AccountCache} {cacheNext strategyNext : Nat}
    {u : AccountUpdate} {data : List UInt8} {pool : PoolState}
    (hpool : decodedPool F (cache, u) = some pool) {anchor : Pubkey}
    (hanchor : anchor ∈ anchors) {v : Nat}
    (hv : (PriceGraph.build (historyOf F (seen ++ [(cache, u)])) :
      PriceGraph F).tokens.getIndex anchor = some v) {p : ArbPath F}
    (hp : p ∈ findCyclesDfs (PriceGraph.build (historyOf F (seen ++ [(cache, u)]))) v maxHops
      0.0001)
    (hreads : Reads F cache p.hops u.pubkey data) :
    CycleRead ⟨cache, cacheNext,
      (DexArbStrategy.new minProfit maxHops anchors : DexArbStrategy F).run seen, strategyNext⟩
      u data := by
  obtain ⟨-, hanchors, -⟩ := run_params (F := F) minProfit maxHops anchors (seen ++ [(cache, u)])
  obtain ⟨decoded, hdecoded, -⟩ := Option.map_eq_some_iff.mp hpool
  refine ⟨⟨decoded, hdecoded⟩, anchor, ?_, p, ?_, hreads⟩
  · rw [← run_concat (F := F) _ seen (cache, u), hanchors]
    exact hanchor
  · rw [← run_concat (F := F) _ seen (cache, u), anchorCycles_run _ hv]
    exact hp

/-- Out through the market at 101, back through the market at 102. -/
theorem reads_second {cache : AccountCache} {data : List UInt8} {i j : Nat}
    (hfirst : hopState ExactF64 cache { sampleHop 101 .phoenix 1 2 with edgeIndex := i } ≠ none)
    (hdata : cache.getData secondMarket.pubkey = some data) :
    Reads ExactF64 cache [{ sampleHop 101 .phoenix 1 2 with edgeIndex := i },
      { sampleHop 102 .phoenix 2 1 with edgeIndex := j }] secondMarket.pubkey data :=
  ⟨[_], _, [], rfl, fun _ h => List.mem_singleton.mp h ▸ hfirst, rfl, hdata⟩

/-- The strategy runs ahead of the cache updater once, and behind it afterwards. -/
theorem promptTasks :
    runTasks [firstMarket, secondMarket]
        (Tasks.start (DexArbStrategy.new 1 4 [keyOf 1] : DexArbStrategy ExactF64))
        [.dexArb, .cacheUpdater, .cacheUpdater] =
      ⟨marketCache, 2, (DexArbStrategy.new 1 4 [keyOf 1]).run [(AccountCache.new, firstMarket)],
        1⟩ := by
  rw [runTasks, List.foldl_cons, step_dexArb (u := firstMarket) rfl, List.foldl_cons,
    step_cacheUpdater (u := firstMarket) rfl, List.foldl_cons,
    step_cacheUpdater (u := secondMarket) rfl, List.foldl_nil]
  simp only [Tasks.start, marketCache, DexArbStrategy.run, List.foldl_cons, List.foldl_nil]

theorem prompt_read :
    CycleRead
      ⟨marketCache, 2, (DexArbStrategy.new 1 4 [keyOf 1] : DexArbStrategy ExactF64).run
        [(AccountCache.new, firstMarket)], 1⟩ secondMarket secondMarket.data := by
  obtain ⟨p, hp, hhops⟩ := marketCycle_found
  refine cycleRead_of_found markets_decoded.2 List.mem_cons_self (v := 0) ?_ (p := p) ?_ ?_
  · rw [markets_history]
    decide
  · rw [markets_history]
    exact hp
  · rw [hhops]
    exact reads_second (by decide +kernel) (by decide +kernel)

/-- The cache updater has consumed the triggering update: its slot is read. -/
theorem prompt_reads_newest :
    let t := runTasks [firstMarket, secondMarket]
      (Tasks.start (DexArbStrategy.new 1 4 [keyOf 1] : DexArbStrategy ExactF64))
      [.dexArb, .cacheUpdater, .cacheUpdater]
    ∃ v, t.cache.get secondMarket.pubkey = some (entryOf v) ∧ secondMarket.slot ≤ v.slot := by
  intro t
  have ht : t = _ := promptTasks
  have hread : CycleRead t secondMarket secondMarket.data := by
    rw [ht]
    exact prompt_read
  obtain ⟨v, -, hentry, -, -, hslot⟩ := cycle_reads_newest [firstMarket, secondMarket]
    (DexArbStrategy.new 1 4 [keyOf 1]) [.dexArb, .cacheUpdater, .cacheUpdater]
    (by rw [promptTasks]; rfl) hread
  refine ⟨v, hentry, hslot ?_⟩
  rw [promptTasks]
  exact Nat.one_lt_two

/-- The market at 102, earlier and at another price. -/
def oldMarket : AccountUpdate := phoenixAccount 102 1 1000000000 4000000000 1

/-- The cache has seen the old market and the first one. -/
def oldCache : AccountCache := (AccountCache.new.update oldMarket).update firstMarket

/-- The updates of the graph in this run. -/
def oldHistory : List GraphOp :=
  [.updatePool (marketPool 102 4000000000000 1), .updatePool (marketPool 101 2000000000000 1),
    .updatePool (marketPool 102 1000000000000 2)]

/-- The pools the three updates show. -/
theorem old_decoded :
    decodedPool ExactF64 (oldCache, oldMarket) = some (marketPool 102 4000000000000 1) ∧
      decodedPool ExactF64 (oldCache, firstMarket) = some (marketPool 101 2000000000000 1) ∧
      decodedPool ExactF64 (oldCache, secondMarket) = some (marketPool 102 1000000000000 2) := by
  decide +kernel

/-- Each update shows one pool. -/
theorem old_history :
    historyOf ExactF64 ([(oldCache, oldMarket), (oldCache, firstMarket)] ++
      [(oldCache, secondMarket)]) = oldHistory := by
  obtain ⟨h1, h2, h3⟩ := old_decoded
  rw [historyOf_eq_filterMap, List.map_append, List.map_cons, List.map_singleton,
    List.map_singleton, h1, h2, h3]
  rfl

/-- All three charge the Phoenix fee. -/
theorem oldHistory_fees : FeesBelowOne oldHistory :=
  feesBelowOne_cons (by decide) (feesBelowOne_pair (by decide) (by decide))

/-- The second market's edges come first: its old account was decoded first. -/
theorem oldHistory_edges :
    (PriceGraph.build oldHistory).edges.map edgeRow =
      [(0, 1, sampleHop 102 .phoenix 1 2), (1, 0, sampleHop 102 .phoenix 2 1),
        (0, 1, sampleHop 101 .phoenix 1 2), (1, 0, sampleHop 101 .phoenix 2 1)] := by
  decide

/-- Out through the first market, back through the second, in a graph that met the second
    first. -/
def oldLegs : List Leg :=
  [⟨2, 0, 1, sampleHop 101 .phoenix 1 2, some ⟨1000000000000, 2000000000000, 4, 10000, 1⟩⟩,
    ⟨1, 1, 0, sampleHop 102 .phoenix 2 1, some ⟨1000000000000, 1000000000000, 4, 10000, 2⟩⟩]

/-- The cycle is found at the new price. -/
theorem oldCycle_found :
    ∃ p ∈ findCyclesDfs (PriceGraph.build oldHistory) 0 4 (0.0001 : ExactF64),
      p.hops = [{ sampleHop 101 .phoenix 1 2 with edgeIndex := 2 },
        { sampleHop 102 .phoenix 2 1 with edgeIndex := 1 }] :=
  found_of_legs oldHistory_fees oldHistory_edges oldLegs (by decide) (by decide) (m := 0.0001)
    (by
      simp only [oldLegs, List.map_cons, List.map_nil, List.prod_cons, List.prod_nil, Leg.rate,
        Option.elim_some, effectiveRate, spotRate, keptShare, UInt64.reduceToNat]
      norm_num)

/-- The strategy has overtaken the cache updater. -/
theorem laggingTasks :
    runTasks [oldMarket, firstMarket, secondMarket]
        (Tasks.start (DexArbStrategy.new 1 4 [keyOf 1] : DexArbStrategy ExactF64))
        [.cacheUpdater, .cacheUpdater, .dexArb, .dexArb] =
      ⟨oldCache, 2, (DexArbStrategy.new 1 4 [keyOf 1]).run
        [(oldCache, oldMarket), (oldCache, firstMarket)], 2⟩ := by
  rw [runTasks, List.foldl_cons, step_cacheUpdater (u := oldMarket) rfl, List.foldl_cons,
    step_cacheUpdater (u := firstMarket) rfl, List.foldl_cons, step_dexArb (u := oldMarket) rfl,
    List.foldl_cons, step_dexArb (u := firstMarket) rfl, List.foldl_nil]
  simp only [Tasks.start, oldCache, DexArbStrategy.run, List.foldl_cons, List.foldl_nil]

/-- **A READ FROM AN OLDER SLOT**: the update of slot 2 triggers a search that finds a
    cycle through its pool, and the simulation reads the pool as of slot 1. -/
theorem lagging_read :
    let t := runTasks [oldMarket, firstMarket, secondMarket]
      (Tasks.start (DexArbStrategy.new 1 4 [keyOf 1] : DexArbStrategy ExactF64))
      [.cacheUpdater, .cacheUpdater, .dexArb, .dexArb]
    [oldMarket, firstMarket, secondMarket][t.strategyNext]? = some secondMarket ∧
      CycleRead t secondMarket oldMarket.data ∧
      t.cache.get secondMarket.pubkey = some (entryOf oldMarket) ∧
      (entryOf oldMarket).slot < secondMarket.slot := by
  intro t
  have ht : t = ⟨oldCache, 2, (DexArbStrategy.new 1 4 [keyOf 1]).run
      [(oldCache, oldMarket), (oldCache, firstMarket)], 2⟩ := laggingTasks
  rw [ht]
  refine ⟨rfl, ?_, by decide +kernel, by decide +kernel⟩
  obtain ⟨p, hp, hhops⟩ := oldCycle_found
  refine cycleRead_of_found old_decoded.2.2 List.mem_cons_self (v := 0) ?_ (p := p) ?_ ?_
  · rw [old_history]
    decide
  · rw [old_history]
    exact hp
  · rw [hhops]
    exact reads_second (by decide +kernel) (by decide +kernel)

end MevReceivers
