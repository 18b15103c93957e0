import MevBot.DataFeed
import MevBot.GraphStructure
import MevBot.Library.Overwrites
import MevBot.StrategyHistory

/-! # After a reconnection

    The stream is subscribed with replay: when it reconnects, it brings again
    what it had brought last.  An edge of the graph is a cell that a pool update
    overwrites, and the cache is gated by slots, so both are in the end as if
    nothing had come twice (`replay_graph`, `replay_cache`).  But the strategy
    searches after every update, changed or not, so it also emits its
    opportunities again. -/

namespace MevReplay

open MevMachine MevTypes MevGraph MevGraphInv MevGraphStructure MevCache MevStrategy MevPipeline
open MevReceivers MevCacheLaws MevLedger MevFeed StampedStore Overwrites
open MevHistory hiding run_concat

/-! ## Pool updates as overwrites -/

section Graph

variable {F : Type}

/-- What an upsert writes into an edge: its own four fields, under its own key. -/
def overwrite (e old : Edge F) : Edge F :=
  if edgeKey old = edgeKey e then old.reprice e.weight e.rate e.liquidity e.lastUpdatedSlot
  else old

theorem overwrite_key (e old : Edge F) : edgeKey (overwrite e old) = edgeKey old := by
  rw [overwrite]
  split
  · rfl
  · rfl

theorem overwrite_self (e : Edge F) : overwrite e e = e := if_pos rfl

/-- **AN UPSERT IS AN OVERWRITE.** -/
theorem overwriting : Overwriting (fun e old : Edge F => edgeKey old = edgeKey e) overwrite where
  kept := fun e old hne => if_neg hne
  hits_write := fun e e' old => by rw [overwrite_key]
  absorbs := by
    intro e e' old hkey
    rw [overwrite, overwrite_key, if_pos hkey, overwrite, overwrite, if_pos hkey]
    split
    · rfl
    · rfl

/-- An upsert of a known key overwrites the edges in place. -/
theorem upsertEdge_overwrites {g : PriceGraph F} (h : GraphInv g) {e : Edge F} {i : Nat}
    (hkey : g.poolEdgeIndex (edgeKey e) = some i) :
    g.upsertEdge e = { g with edges := g.edges.map (overwrite e) } := by
  rw [upsertEdge_known hkey]
  have hedges : (g.edges.modify i fun old =>
      old.reprice e.weight e.rate e.liquidity e.lastUpdatedSlot) = g.edges.map (overwrite e) := by
    refine List.ext_getElem? ?_
    intro j
    rw [List.getElem?_modify, List.getElem?_map, Option.map_eq_map]
    refine Option.map_congr ?_
    intro old hold
    -- only the edge at the index has the key
    have hiff : i = j ↔ edgeKey old = edgeKey e := by
      obtain ⟨at', hat, hpool, hmint⟩ := (h.index _ _ i).mp hkey
      constructor
      · rintro rfl
        obtain rfl := Option.some.inj (hat.symm.trans hold)
        exact Prod.ext hpool hmint
      · intro heq
        obtain ⟨hpool', hmint'⟩ := Prod.mk.inj heq
        exact h.key_inj hat hold (hpool.trans hpool'.symm) (hmint.trans hmint'.symm)
    rw [overwrite]
    by_cases hij : i = j
    · rw [if_pos hij, if_pos (hiff.mp hij)]
    · rw [if_neg hij, if_neg fun heq => hij (hiff.mpr heq)]
  rw [hedges]

variable [F64 F]

/-- The two edges a pool update writes, if it writes any; their indices do not matter. -/
def sidesOf (pool : PoolState) : List (Edge F) :=
  if Funded pool then
    [poolEdge pool 0 0 pool.tokenAMint pool.tokenBMint pool.tokenAAmount pool.tokenBAmount,
      poolEdge pool 0 0 pool.tokenBMint pool.tokenAMint pool.tokenBAmount pool.tokenAAmount]
  else []

/-- Both edges of the pool are in the graph. -/
def Known (g : PriceGraph F) (pool : PoolState) : Prop :=
  Funded pool → (∃ i, g.poolEdgeIndex (pool.address, pool.tokenAMint) = some i) ∧
    ∃ i, g.poolEdgeIndex (pool.address, pool.tokenBMint) = some i

omit [F64 F] in
theorem ensureAdjacency_known {g : PriceGraph F} {node : Nat} (h : node < g.adjacency.length) :
    g.ensureAdjacency node = g := by
  rw [PriceGraph.ensureAdjacency, Nat.sub_eq_zero_of_le h, List.replicate_zero, List.append_nil]

omit [F64 F] in
/-- Registering mints that edges already have changes nothing. -/
theorem registerMints_known {g : PriceGraph F} (h : GraphInv g) {p a b : Pubkey}
    (ha : ∃ i, g.poolEdgeIndex (p, a) = some i) (hb : ∃ i, g.poolEdgeIndex (p, b) = some i) :
    registerMints g a b = g := by
  have hknown : ∀ m, (∃ i, g.poolEdgeIndex (p, m) = some i) →
      ∃ v, g.tokens.mintToIndex m = some v ∧ v < g.adjacency.length := by
    rintro m ⟨i, hi⟩
    obtain ⟨e, he, -, rfl⟩ := (h.index p m i).mp hi
    exact ⟨e.source, (h.registry _ _).mpr (h.source i e he), (h.source_lt he).trans_le h.lists⟩
  obtain ⟨v, hv, hvlt⟩ := hknown a ha
  obtain ⟨w, hw, hwlt⟩ := hknown b hb
  simp only [registerMints, TokenRegistry.getOrInsert, hv, hw]
  rw [ensureAdjacency_known hvlt, ensureAdjacency_known hwlt]

/-- **AN UPDATE OF A KNOWN POOL OVERWRITES ITS EDGES**, and nothing else of the graph. -/
theorem updatePool_known {g : PriceGraph F} (h : GraphInv g) {pool : PoolState}
    (hknown : Known g pool) :
    g.updatePool pool =
      { g with edges := g.edges.map (Overwrites.run overwrite (sidesOf pool)) } := by
  by_cases hfund : Funded pool
  · obtain ⟨⟨i, hi⟩, j, hj⟩ := hknown hfund
    have hmints := registerMints_known h ⟨i, hi⟩ ⟨j, hj⟩
    obtain ⟨-, hA, hB⟩ := h.registerMints pool.tokenAMint pool.tokenBMint
    rw [hmints] at hA hB
    have hAB : GraphInv (g.upsertEdge (edgeAB g pool)) := h.upsertEdge hA hB
    have hfirst : g.upsertEdge (edgeAB g pool) =
        { g with edges := g.edges.map (overwrite (edgeAB g pool)) } :=
      upsertEdge_overwrites h hi
    have hindex : (g.upsertEdge (edgeAB g pool)).poolEdgeIndex (edgeKey (edgeBA g pool)) =
        some j := by
      rw [hfirst]
      exact hj
    rw [updatePool_funded g hfund, hmints, upsertEdge_overwrites hAB hindex, hfirst, sidesOf,
      if_pos hfund]
    show { g with edges := (g.edges.map _).map _ } = { g with edges := g.edges.map _ }
    rw [List.map_map]
    rfl
  · rw [updatePool_unfunded g hfund, sidesOf, if_neg hfund]
    show g = { g with edges := g.edges.map fun e => e }
    rw [List.map_id']

/-! ## Steady graphs -/

omit [F64 F] in
/-- An upsert keeps the keys of the graph and adds its own. -/
theorem upsertEdge_indexed {g : PriceGraph F} (e : Edge F) {key : Pubkey × Pubkey}
    (h : (∃ i, g.poolEdgeIndex key = some i) ∨ key = edgeKey e) :
    ∃ i, (g.upsertEdge e).poolEdgeIndex key = some i := by
  cases hkey : g.poolEdgeIndex (edgeKey e) with
  | some k =>
      rw [upsertEdge_known hkey]
      rcases h with h | rfl
      · exact h
      · exact ⟨k, hkey⟩
  | none =>
      rw [upsertEdge_unknown hkey]
      show ∃ i, Function.update g.poolEdgeIndex (edgeKey e) _ key = some i
      by_cases heq : key = edgeKey e
      · rw [heq, Function.update_self]
        exact ⟨_, rfl⟩
      · rw [Function.update_of_ne heq]
        exact h.resolve_right heq

omit [F64 F] in
/-- One more upsert settles the edges of a settled graph for one write more. -/
theorem upsertEdge_settled {g : PriceGraph F} (h : GraphInv g) {writes : List (Edge F)}
    (hsettled : ∀ old ∈ g.edges, Settled overwrite writes old) (e : Edge F) :
    ∀ old ∈ (g.upsertEdge e).edges, Settled overwrite (writes ++ [e]) old := by
  cases hkey : g.poolEdgeIndex (edgeKey e) with
  | some k =>
      rw [upsertEdge_overwrites h hkey]
      intro old hold
      obtain ⟨before, hbefore, rfl⟩ := List.mem_map.mp hold
      exact overwriting.settled_write (hsettled before hbefore) e
  | none =>
      rw [upsertEdge_unknown hkey]
      intro old hold
      rcases List.mem_append.mp hold with hold | hold
      · -- no edge of the graph has the new key
        obtain ⟨i, hi⟩ := List.mem_iff_getElem?.mp hold
        have hne : edgeKey old ≠ edgeKey e := by
          intro heq
          exact h.not_under hkey hi (Prod.mk.inj heq)
        have hwritten := overwriting.settled_write (hsettled old hold) e
        rwa [overwriting.kept e old hne] at hwritten
      · rw [List.mem_singleton.mp hold]
        exact overwriting.settled_new rfl (overwrite_self e) writes

/-- A graph that the updates of some pools have been written to, and would not change. -/
structure Steady (g : PriceGraph F) (pools : List PoolState) : Prop where
  inv : GraphInv g
  known : ∀ pool ∈ pools, Known g pool
  settled : ∀ e ∈ g.edges, Settled overwrite (pools.flatMap sidesOf) e

/-- One more pool. -/
theorem Steady.updatePool {g : PriceGraph F} {pools : List PoolState} (h : Steady g pools)
    (pool : PoolState) : Steady (g.updatePool pool) (pools ++ [pool]) := by
  have hwrites : (pools ++ [pool]).flatMap (sidesOf (F := F)) =
      pools.flatMap sidesOf ++ sidesOf pool := by
    rw [List.flatMap_append, List.flatMap_singleton]
  by_cases hfund : Funded pool
  · obtain ⟨hreg, hA, hB⟩ := h.inv.registerMints pool.tokenAMint pool.tokenBMint
    have hAB := hreg.upsertEdge (e := edgeAB g pool) hA hB
    have hsettled := upsertEdge_settled hreg
      (fun e he => (h.settled e he : Settled overwrite (pools.flatMap sidesOf) e))
      (edgeAB g pool)
    have hsettled' := upsertEdge_settled hAB hsettled (edgeBA g pool)
    have hindexed : ∀ key, ((∃ i, g.poolEdgeIndex key = some i) ∨
        key = (pool.address, pool.tokenAMint) ∨ key = (pool.address, pool.tokenBMint)) →
        ∃ i, (g.updatePool pool).poolEdgeIndex key = some i := by
      intro key hkey
      rw [updatePool_funded g hfund]
      refine upsertEdge_indexed (edgeBA g pool) ?_
      rcases hkey with hkey | hkey | hkey
      · exact Or.inl (upsertEdge_indexed (edgeAB g pool) (Or.inl hkey))
      · exact Or.inl (upsertEdge_indexed (edgeAB g pool) (Or.inr hkey))
      · exact Or.inr hkey
    refine ⟨h.inv.updatePool pool, ?_, ?_⟩
    · intro pool' hpool' hfund'
      rcases List.mem_append.mp hpool' with hpool' | hpool'
      · obtain ⟨ha, hb⟩ := h.known pool' hpool' hfund'
        exact ⟨hindexed _ (Or.inl ha), hindexed _ (Or.inl hb)⟩
      · rw [List.mem_singleton.mp hpool']
        exact ⟨hindexed _ (Or.inr (Or.inl rfl)), hindexed _ (Or.inr (Or.inr rfl))⟩
    · intro e he
      rw [updatePool_funded g hfund] at he
      rw [hwrites, sidesOf, if_pos hfund]
      -- the indices the edges were written with do not matter
      refine Eq.trans (run_congr ?_ e) (hsettled' e he)
      rw [List.map_append, List.map_append, List.map_append, List.append_assoc]
      rfl
  · rw [updatePool_unfunded g hfund]
    refine ⟨h.inv, ?_, ?_⟩
    · intro pool' hpool'
      rcases List.mem_append.mp hpool' with hpool' | hpool'
      · exact h.known pool' hpool'
      · rw [List.mem_singleton.mp hpool']
        exact fun hfund' => absurd hfund' hfund
    · rw [hwrites, sidesOf, if_neg hfund, List.append_nil]
      exact h.settled

theorem Steady.updatePools {g : PriceGraph F} {before : List PoolState} (h : Steady g before)
    (pools : List PoolState) : Steady (pools.foldl PriceGraph.updatePool g) (before ++ pools) := by
  induction pools using List.reverseRecOn with
  | nil =>
      rw [List.append_nil]
      exact h
  | append_singleton pools pool ih =>
      rw [List.foldl_append, ← List.append_assoc]
      exact ih.updatePool pool

/-- Updates of known pools overwrite the edges, one after another. -/
theorem updatePools_known {g : PriceGraph F} (h : GraphInv g) {pools : List PoolState}
    (hknown : ∀ pool ∈ pools, Known g pool) :
    pools.foldl PriceGraph.updatePool g =
      { g with edges := g.edges.map (Overwrites.run overwrite (pools.flatMap sidesOf)) } := by
  induction pools generalizing g with
  | nil =>
      show g = { g with edges := g.edges.map fun e => e }
      rw [List.map_id']
  | cons pool pools ih =>
      obtain ⟨hpool, hpools⟩ := List.forall_mem_cons.mp hknown
      have hstep := updatePool_known h hpool
      have hrest := ih (h.updatePool pool) (by
        intro pool' hmem
        rw [hstep]
        exact hpools pool' hmem)
      rw [List.foldl_cons, hrest, hstep]
      show { g with edges := (g.edges.map _).map _ } = { g with edges := g.edges.map _ }
      rw [List.map_map]
      refine congrArg (fun edges => { g with edges }) (List.map_congr_left ?_)
      intro e _
      rw [List.flatMap_cons]
      exact (Overwrites.run_append overwrite _ _ e).symm

/-- **A REPLAY LEAVES A STEADY GRAPH AS IT IS.** -/
theorem Steady.replay {g : PriceGraph F} {before pools : List PoolState}
    (h : Steady g (before ++ pools)) : pools.foldl PriceGraph.updatePool g = g := by
  rw [updatePools_known h.inv fun pool hpool => h.known pool (List.mem_append_right _ hpool)]
  have hid : g.edges.map (Overwrites.run overwrite (pools.flatMap sidesOf)) = g.edges := by
    refine (List.map_congr_left ?_).trans (List.map_id g.edges)
    intro e he
    have hsettled := h.settled e he
    rw [List.flatMap_append] at hsettled
    exact overwriting.settled_suffix hsettled
  rw [hid]

/-! ## The strategy -/

/-- The pools that updates showed the strategy. -/
def poolsIn (F : Type) [F64 F] (us : List CachedUpdate) : List PoolState :=
  us.filterMap (decodedPool F)

theorem run_pools (minProfit : Int64) (maxHops : Nat) (anchors : List Pubkey)
    (us : List CachedUpdate) :
    ((DexArbStrategy.new minProfit maxHops anchors : DexArbStrategy F).run us).mutableGraph =
      (poolsIn F us).foldl PriceGraph.updatePool PriceGraph.new := by
  rw [run_mutableGraph, PriceGraph.build, historyOf, poolsIn, ← List.map_filterMap,
    List.foldl_map]
  rfl

theorem run_steady (minProfit : Int64) (maxHops : Nat) (anchors : List Pubkey)
    (us : List CachedUpdate) :
    Steady ((DexArbStrategy.new minProfit maxHops anchors : DexArbStrategy F).run us).mutableGraph
      (poolsIn F us) := by
  have hstart : Steady (PriceGraph.new : PriceGraph F) [] :=
    ⟨GraphInv.new, fun pool hpool => absurd hpool List.not_mem_nil,
      fun e he => absurd he List.not_mem_nil⟩
  rw [run_pools]
  exact hstart.updatePools (poolsIn F us)

/-- Updates that show the pools of the last ones leave the graph as it is. -/
theorem run_replayed (minProfit : Int64) (maxHops : Nat) (anchors : List Pubkey)
    {before replayed again : List CachedUpdate}
    (hagain : again.map (decodedPool F) = replayed.map (decodedPool F)) :
    ((DexArbStrategy.new minProfit maxHops anchors : DexArbStrategy F).run
        (before ++ replayed ++ again)).mutableGraph =
      ((DexArbStrategy.new minProfit maxHops anchors : DexArbStrategy F).run
        (before ++ replayed)).mutableGraph := by
  have hpools : poolsIn F again = poolsIn F replayed := by
    have h := congrArg (List.filterMap id) hagain
    rwa [List.filterMap_map, List.filterMap_map] at h
  have hsteady := run_steady (F := F) minProfit maxHops anchors (before ++ replayed)
  rw [poolsIn, List.filterMap_append] at hsteady
  rw [run_pools, poolsIn, List.filterMap_append, List.foldl_append, ← poolsIn, ← run_pools,
    ← poolsIn, hpools]
  exact hsteady.replay

/-- The search looks at the graph and the parameters only. -/
theorem findOpportunities_same {s s' : DexArbStrategy F} (hgraph : s.mutableGraph = s'.mutableGraph)
    (hhops : s.maxHops = s'.maxHops) (hanchors : s.anchorMints = s'.anchorMints)
    (hmin : s.minProfitLamports = s'.minProfitLamports) (cache : AccountCache) :
    s.findOpportunities cache = s'.findOpportunities cache := by
  have hcycles : s.anchorCycles = s'.anchorCycles := by
    funext anchor
    rw [DexArbStrategy.anchorCycles, DexArbStrategy.anchorCycles, hgraph, hhops]
  rw [DexArbStrategy.findOpportunities, DexArbStrategy.findOpportunities, hcycles, hanchors, hmin]

/-- **A REPLAYED STRETCH OF UPDATES LEAVES THE GRAPH AS IT WAS**, token for token and edge
    for edge, as long as each update shows the pool it showed before; but an update that
    comes again at once makes the strategy emit the same opportunities again. -/
theorem replay_graph (minProfit : Int64) (maxHops : Nat) (anchors : List Pubkey)
    (us : List CachedUpdate) :
    (∀ before replayed again, us = before ++ replayed →
      again.map (decodedPool F) = replayed.map (decodedPool F) →
      ((DexArbStrategy.new minProfit maxHops anchors : DexArbStrategy F).run
          (us ++ again)).mutableGraph =
        ((DexArbStrategy.new minProfit maxHops anchors : DexArbStrategy F).run
          us).mutableGraph) ∧
    ∀ before u, us = before ++ [u] →
      (((DexArbStrategy.new minProfit maxHops anchors : DexArbStrategy F).run us).processUpdate
          u.1 u.2).2 =
        (((DexArbStrategy.new minProfit maxHops anchors : DexArbStrategy F).run
          before).processUpdate u.1 u.2).2 := by
  refine ⟨?_, ?_⟩
  · rintro before replayed again rfl hagain
    exact run_replayed minProfit maxHops anchors hagain
  · rintro before u rfl
    obtain ⟨h1, h2, h3⟩ := run_params (F := F) minProfit maxHops anchors (before ++ [u])
    obtain ⟨h1', h2', h3'⟩ := run_params (F := F) minProfit maxHops anchors (before ++ [u] ++ [u])
    rw [processUpdate_opportunities, processUpdate_opportunities, ← MevHistory.run_concat,
      ← MevHistory.run_concat]
    -- both searches run on the graph that the update leaves
    refine congrArg (Option.elim _ []) (funext fun _ => ?_)
    exact findOpportunities_same (run_replayed minProfit maxHops anchors rfl)
      (h1'.trans h1.symm) (h2'.trans h2.symm) (h3'.trans h3.symm) u.1

end Graph

/-! ## The cache -/

theorem cacheAfter_replay (before replayed : List AccountUpdate) :
    cacheAfter (before ++ replayed ++ replayed) = cacheAfter (before ++ replayed) := by
  have hinner : (cacheAfter (before ++ replayed ++ replayed)).inner =
      (cacheAfter (before ++ replayed)).inner := by
    funext k
    rw [cacheAfter_inner, cacheAfter_inner, after_replay]
  exact congrArg AccountCache.mk hinner

/-- The latest slot is settled by which messages came. -/
theorem Latest.unique {slot slot' : UInt64} {messages messages' : List (Option UpdateOneof)}
    (h : Latest slot messages) (h' : Latest slot' messages')
    (hsame : ∀ msg, msg ∈ messages ↔ msg ∈ messages') : slot = slot' := by
  have hle : ∀ {a b : UInt64} {xs ys : List (Option UpdateOneof)}, Latest a xs → Latest b ys →
      (∀ msg, msg ∈ xs → msg ∈ ys) → a ≤ b := by
    intro a b xs ys ha hb hsub
    rcases ha.attained with rfl | ⟨msg, hmsg, hslot⟩
    · exact UInt64.zero_le
    · exact hb.upper msg (hsub msg hmsg) a hslot
  exact UInt64.le_antisymm (hle h h' fun msg => (hsame msg).mp)
    (hle h' h fun msg => (hsame msg).mpr)

/-- **A REPLAYED STRETCH OF THE STREAM LEAVES THE CACHE AND THE SLOT AS THEY WERE**, in
    any two runs of the bot, one with the stretch once and one with it twice, in which the
    cache updater has kept up with the stream. -/
theorem replay_cache {F : Type} [F64 F] (capacity : Nat) (cfg : PipelineConfig F)
    (once twice : List BotEvent) (before replayed : List (Option UpdateOneof))
    (honce : messagesOf once = before ++ replayed)
    (htwice : messagesOf twice = before ++ replayed ++ replayed)
    (hkept : ∀ events ∈ [once, twice],
      ((botRun capacity cfg events).intake .cacheUpdater).missed = 0 ∧
      ((botRun capacity cfg events).intake .cacheUpdater).next =
        (botRun capacity cfg events).published.length) :
    (botRun capacity cfg twice).pipeline.cache = (botRun capacity cfg once).pipeline.cache ∧
      (botRun capacity cfg twice).latestSlot = (botRun capacity cfg once).latestSlot := by
  have hcache : ∀ events ∈ [once, twice], (botRun capacity cfg events).pipeline.cache =
      cacheAfter (carried (messagesOf events)) := by
    intro events hevents
    obtain ⟨turns, h⟩ := botRun_wired capacity cfg events
    obtain ⟨hmissed, hnext⟩ := hkept events hevents
    have hfollowed := h.followed .cacheUpdater
    rw [hmissed, hnext] at hfollowed
    rw [botRun_cache, hfollowed.complete, List.take_length, h.published]
  refine ⟨?_, ?_⟩
  · rw [hcache twice (List.mem_cons_of_mem _ List.mem_cons_self), hcache once List.mem_cons_self,
      htwice, honce, carried_append, carried_append]
    exact cacheAfter_replay _ _
  · have hsame : ∀ msg, msg ∈ messagesOf twice ↔ msg ∈ messagesOf once := by
      intro msg
      rw [htwice, honce, List.mem_append, List.mem_append]
      exact ⟨fun h => h.elim id Or.inr, Or.inl⟩
    exact Latest.unique (botRun_latest capacity cfg twice) (botRun_latest capacity cfg once) hsame

/-- The stream brings the updates, and the cache updater reads each as it comes. -/
def bring (us : List AccountUpdate) : List BotEvent :=
  us.flatMap fun u => [.stream (some (some (messageOf u))), .recv .cacheUpdater]

theorem messagesOf_bring (us : List AccountUpdate) :
    messagesOf (bring us) = us.map fun u => some (messageOf u) := by
  induction us with
  | nil => rfl
  | cons u us ih => exact congrArg (some (messageOf u) :: ·) ih

theorem read_newest {α : Type} {capacity : Nat} (hcapacity : 0 < capacity) (sent : List α)
    (x : α) :
    BroadcastLog.read capacity (sent ++ [x]) sent.length = (sent.length + 1, .message x) := by
  rw [BroadcastLog.read, if_neg, List.getElem?_concat_length]
  rw [BroadcastLog.oldest, List.length_append, List.length_singleton]
  omega

/-- So it keeps up. -/
theorem bring_kept {F : Type} [F64 F] {capacity : Nat} (hcapacity : 0 < capacity)
    (cfg : PipelineConfig F) (us : List AccountUpdate) :
    ((botRun capacity cfg (bring us)).intake .cacheUpdater).missed = 0 ∧
      ((botRun capacity cfg (bring us)).intake .cacheUpdater).next =
        (botRun capacity cfg (bring us)).published.length := by
  induction us using List.reverseRecOn with
  | nil => exact ⟨rfl, rfl⟩
  | append_singleton us u ih =>
      obtain ⟨hmissed, hnext⟩ := ih
      rw [bring, List.flatMap_append, List.flatMap_singleton, ← bring, botRun, List.foldl_append,
        ← botRun, List.foldl_cons, List.foldl_cons, List.foldl_nil, botStep_stream,
        botStep_recv (u := u) (n := (botRun capacity cfg (bring us)).published.length + 1) rfl]
      · dsimp only
        rw [Function.update_self, List.length_append, List.length_singleton]
        exact ⟨hmissed, rfl⟩
      · show BroadcastLog.read capacity (_ ++ [u]) _ = _
        rw [hnext]
        exact read_newest hcapacity _ u

open MevSubmitted MevOpportunity in
/-- The first market at slots one and three, brought twice, is cached as if both updates had
    come once: the earlier does not come back. -/
theorem market_replayed :
    (botRun 4 sampleConfig
        (bring [firstMarket, thirdMarket, firstMarket, thirdMarket])).pipeline.cache =
      (botRun 4 sampleConfig (bring [firstMarket, thirdMarket])).pipeline.cache := by
  refine (replay_cache 4 sampleConfig (bring [firstMarket, thirdMarket])
    (bring [firstMarket, thirdMarket, firstMarket, thirdMarket]) []
    [some (messageOf firstMarket), some (messageOf thirdMarket)]
    (messagesOf_bring _) (messagesOf_bring _) ?_).1
  intro events hevents
  rcases List.mem_cons.mp hevents with rfl | hevents
  · exact bring_kept (by decide) sampleConfig _
  · rw [List.mem_singleton.mp hevents]
    exact bring_kept (by decide) sampleConfig _

end MevReplay
