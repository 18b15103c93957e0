import MevBot.Backrun
import MevBot.DataFeed
import MevBot.ExecutedTrades

/-! # What the bot subscribes to

    `main` asks the stream for the accounts that the DEX programs own, with the
    liquidation strategy also for those of the lending programs, and for no
    others.  Whatever is executed is read off accounts the stream carried
    (`executed_on_stream`).  But the vaults of a pool are owned by the token
    program: none of them is ever cached, `populate_reserves` changes nothing,
    and Raydium AMM, whose reserves are its vaults' balances, is never traded
    (`raydium_untraded`). -/

namespace MevSubscription

open MevMachine MevTypes MevDex MevLending MevGraph MevGraphInv MevCache MevStrategy MevRisk
open MevPipeline MevLedger MevFeed MevReceivers MevCacheLaws MevExecuted MevOpportunity
open MevAdapterFacts MevVaults MevDelivery MevSearch MevDfs MevDfsCorrect
open MevSimulation MevBackrun
open MevHistory hiding run_concat

/-! ## The request -/

/-- `SubscribeRequestFilterAccounts`, its keys as keys and not as text. -/
structure SubscribeRequestFilterAccounts where
  account : List Pubkey
  owner : List Pubkey
  nonemptyTxnSignature : Option Bool
deriving DecidableEq, Repr

/-- `SubscribeRequest`, its filters by name. -/
structure SubscribeRequest where
  accounts : List (String × SubscribeRequestFilterAccounts)
  commitment : Option Nat
deriving DecidableEq, Repr

/-- `HashMap::insert` on the filters. -/
def insertFilter (accounts : List (String × SubscribeRequestFilterAccounts)) (name : String)
    (filter : SubscribeRequestFilterAccounts) : List (String × SubscribeRequestFilterAccounts) :=
  accounts.filter (fun f => f.1 ≠ name) ++ [(name, filter)]

/-- The filter for the accounts of one program. -/
def ownedBy (program : Pubkey) : SubscribeRequestFilterAccounts := ⟨[], [program], none⟩

/-- `build_dex_subscription`. -/
def buildDexSubscription : SubscribeRequest :=
  let filters := [("raydium_amm", ownedBy RAYDIUM_AMM_V4), ("raydium_clmm", ownedBy RAYDIUM_CLMM),
    ("orca_whirlpool", ownedBy ORCA_WHIRLPOOL), ("meteora_dlmm", ownedBy METEORA_DLMM),
    ("phoenix", ownedBy PHOENIX)]
  { accounts := filters.foldl (fun accounts f => insertFilter accounts f.1 f.2) []
    commitment := some 1 }

/-- `build_lending_subscription`. -/
def buildLendingSubscription : List (String × SubscribeRequestFilterAccounts) :=
  let filters := [("kamino", ownedBy KAMINO_KLEND), ("marginfi", ownedBy MARGINFI),
    ("save", ownedBy SAVE_SOLEND)]
  filters.foldl (fun accounts f => insertFilter accounts f.1 f.2) []

/-- The request `main` subscribes with. -/
def subscribeRequest (liquidationEnabled : Bool) : SubscribeRequest :=
  let request := buildDexSubscription
  let extended := buildLendingSubscription.foldl
    (fun accounts f => insertFilter accounts f.1 f.2) request.accounts
  if liquidationEnabled then { request with accounts := extended } else request

/-- The programs whose accounts `main` asks for. -/
def subscribed (liquidationEnabled : Bool) : List Pubkey :=
  [RAYDIUM_AMM_V4, RAYDIUM_CLMM, ORCA_WHIRLPOOL, METEORA_DLMM, PHOENIX] ++
    if liquidationEnabled then [KAMINO_KLEND, MARGINFI, SAVE_SOLEND] else []

/-- A filter admits the accounts it names, by key and by owner; where it names none it
    admits all. -/
def SubscribeRequestFilterAccounts.Admits (f : SubscribeRequestFilterAccounts)
    (u : AccountUpdate) : Prop :=
  (f.account = [] ∨ u.pubkey ∈ f.account) ∧ (f.owner = [] ∨ u.owner ∈ f.owner)

/-- A message of a stream that serves the request: an account in it is one that some
    filter admits. -/
def Serves (request : SubscribeRequest) (msg : Option UpdateOneof) : Prop :=
  ∀ u, Carries msg u → ∃ f ∈ request.accounts, f.2.Admits u

theorem ownedBy_admits (program : Pubkey) (u : AccountUpdate) :
    (ownedBy program).Admits u ↔ u.owner = program := by
  constructor
  · rintro ⟨-, hnone | howner⟩
    · cases hnone
    · exact List.mem_singleton.mp howner
  · intro howner
    exact ⟨Or.inl rfl, Or.inr (List.mem_singleton.mpr howner)⟩

/-- The filters are one for each program. -/
theorem filters_owned (liquidationEnabled : Bool) :
    (subscribeRequest liquidationEnabled).accounts.map (·.2) =
      (subscribed liquidationEnabled).map ownedBy := by
  cases liquidationEnabled with
  | true => decide
  | false => decide

/-- **WHAT IS ASKED FOR** is what the listed programs own. -/
theorem admitted_iff (liquidationEnabled : Bool) (u : AccountUpdate) :
    (∃ f ∈ (subscribeRequest liquidationEnabled).accounts, f.2.Admits u) ↔
      u.owner ∈ subscribed liquidationEnabled := by
  constructor
  · rintro ⟨f, hf, hadmits⟩
    have hmem := List.mem_map_of_mem (f := (·.2)) hf
    rw [filters_owned] at hmem
    obtain ⟨program, hprogram, heq⟩ := List.mem_map.mp hmem
    rw [← heq, ownedBy_admits] at hadmits
    exact hadmits ▸ hprogram
  · intro howner
    have hmem := List.mem_map_of_mem (f := ownedBy) howner
    rw [← filters_owned] at hmem
    obtain ⟨f, hf, heq⟩ := List.mem_map.mp hmem
    exact ⟨f, hf, heq ▸ (ownedBy_admits _ u).mpr rfl⟩

/-- The token program is not among them. -/
theorem token_unsubscribed (liquidationEnabled : Bool) :
    SPL_TOKEN ∉ subscribed liquidationEnabled := by
  cases liquidationEnabled with
  | true => decide
  | false => decide

/-! ## What the tasks work on -/

section Sourced

variable {F : Type} [F64 F]

/-- A message of the list carries the update. -/
def Brought (messages : List (Option UpdateOneof)) (u : AccountUpdate) : Prop :=
  ∃ msg ∈ messages, Carries msg u

/-- Every entry is, whole, an account that some message carried. -/
def Authentic (messages : List (Option UpdateOneof)) (cache : AccountCache) : Prop :=
  ∀ k entry, cache.get k = some entry → ∃ u, Brought messages u ∧ u.pubkey = k ∧ entry = entryOf u

theorem Wired.brought {capacity : Nat} {cfg : PipelineConfig F} {s : BotState F}
    {messages : List (Option UpdateOneof)} {turns : List PipelineEvent}
    (h : Wired capacity cfg s messages turns) {r : Receiver} {u : AccountUpdate}
    (hu : u ∈ updatesOf r turns) : Brought messages u := by
  rw [h.received r] at hu
  have hmem := List.mem_of_mem_take ((h.followed r).sublist.subset hu)
  rw [h.published, carried, List.mem_filterMap] at hmem
  obtain ⟨msg, hmsg, hsent⟩ := hmem
  exact ⟨msg, hmsg, (handleUpdate_sends_iff 0 msg u).mp hsent⟩

/-- An update that some turn received was brought by a message. -/
theorem Wired.received_brought {capacity : Nat} {cfg : PipelineConfig F} {s : BotState F}
    {messages : List (Option UpdateOneof)} {before after : List PipelineEvent} {r : Receiver}
    {u : AccountUpdate} (h : Wired capacity cfg s messages (before ++ r.handle u :: after)) :
    Brought messages u := by
  refine Wired.brought h (r := r) ?_
  rw [updatesOf_append, ← List.singleton_append, updatesOf_append,
    show [r.handle u] = [u].map r.handle from rfl, updatesOf_handle, if_pos rfl]
  exact List.mem_append_right _ (List.mem_append_left _ List.mem_cons_self)

/-- The cache is authentic at every point of the run. -/
theorem Wired.authentic {capacity : Nat} {cfg : PipelineConfig F} {s : BotState F}
    {messages : List (Option UpdateOneof)} {before after : List PipelineEvent}
    (h : Wired capacity cfg s messages (before ++ after)) :
    Authentic messages
      (MevPipeline.run cfg (PipelineState.init cfg AccountCache.new) before).cache := by
  intro k entry hentry
  rw [run_cache] at hentry
  obtain ⟨u, hnewest, rfl⟩ := (cacheAfter_get_iff _ k entry).mp hentry
  refine ⟨u, Wired.brought h (r := .cacheUpdater) ?_, hnewest.key_eq, rfl⟩
  rw [updatesOf_append]
  exact List.mem_append_left _ hnewest.mem

/-- And so was an update that some task still has to process. -/
theorem Wired.held_brought {capacity : Nat} {cfg : PipelineConfig F} {s : BotState F}
    {messages : List (Option UpdateOneof)} {before after : List PipelineEvent} {lane : Lane}
    {update : AccountUpdate} (h : Wired capacity cfg s messages (before ++ after))
    (hheld : (outboxOf (MevPipeline.run cfg (PipelineState.init cfg AccountCache.new) before)
      lane).unprocessed = some update) : Brought messages update := by
  obtain ⟨-, earlier, middle, rfl, -⟩ := run_received hheld
  rw [List.append_assoc] at h
  cases lane with
  | dexArb => exact Wired.received_brought (r := .dexArb) h
  | liquidation => exact Wired.received_brought (r := .liquidation) h

/-- What the DEX task has worked on so far is authentic. -/
theorem Wired.reads {capacity : Nat} {cfg : PipelineConfig F} {s : BotState F}
    {messages : List (Option UpdateOneof)} {before after : List PipelineEvent}
    (h : Wired capacity cfg s messages (before ++ after)) {us : List CachedUpdate}
    (hus : ∀ u ∈ us, ∃ before' after', before = before' ++ .dexProcess :: after' ∧
      (MevPipeline.run cfg (PipelineState.init cfg AccountCache.new) before').dexOutbox.unprocessed
        = some u.2 ∧
      u.1 = (MevPipeline.run cfg (PipelineState.init cfg AccountCache.new) before').cache) :
    ∀ u ∈ us, Authentic messages u.1 ∧ Brought messages u.2 := by
  intro u hu
  obtain ⟨before', after', rfl, hheld, hcache⟩ := hus u hu
  rw [List.append_assoc] at h
  exact ⟨hcache ▸ Wired.authentic h, Wired.held_brought h
    (show (outboxOf _ .dexArb).unprocessed = some u.2 from hheld)⟩

/-- A DEX trade: closed and profitable on authentic accounts, each of its pools decoded
    from one. -/
structure TradedOn (F : Type) [F64 F] (cfg : PipelineConfig F)
    (messages : List (Option UpdateOneof)) (opp : Opportunity) (cache : AccountCache) :
    Prop where
  authentic : Authentic messages cache
  trade : WellFormedTrade F cache cfg.anchorMints cfg.maxHops cfg.risk.minProfitLamports opp
  pools : ∀ step ∈ opp.path, ∃ u pool, Brought messages u ∧ u.pubkey = step.poolAddress ∧
    ∃ adapter ∈ dexArbAdapters F, adapter.dexType = step.dexType ∧
      adapter.decodePool u.pubkey u.data = .ok (some pool)

/-- What a loop reads of its elements, it reads of each. -/
theorem mapM_reads {α β : Type} {f : α → Option β} {xs : List α} {ys : List β}
    (h : xs.mapM f = some ys) : ∀ x ∈ xs, ∃ y, f x = some y := by
  induction xs generalizing ys with
  | nil => exact fun x hx => absurd hx List.not_mem_nil
  | cons x xs ih =>
      obtain ⟨y, ys', -, hy, hrest⟩ := mapM_cons_some h
      exact List.forall_mem_cons.mpr ⟨⟨y, hy⟩, ih hrest⟩

/-- The pool of each step of a trade was decoded from a cached account. -/
theorem WellFormedTrade.decoded {cache : AccountCache} {anchorMints : List Pubkey}
    {maxHops : Nat} {minProfit : Int64} {opp : Opportunity}
    (h : WellFormedTrade F cache anchorMints maxHops minProfit opp) :
    ∀ step ∈ opp.path, ∃ pool, accountPool F cache (hopOfStep step) = some pool := by
  obtain ⟨amount, final, states, -, -, -, -, hstates, -⟩ := h.profit
  intro step hstep
  obtain ⟨⟨pool, p⟩, hstate⟩ := mapM_reads hstates step hstep
  obtain ⟨decoded, hdecoded, -⟩ := hopState_some_iff.mp hstate
  exact ⟨decoded, hdecoded⟩

theorem TradedOn.of_wellFormed {cfg : PipelineConfig F} {messages : List (Option UpdateOneof)}
    {opp : Opportunity} {cache : AccountCache} (hauth : Authentic messages cache)
    (h : WellFormedTrade F cache cfg.anchorMints cfg.maxHops cfg.risk.minProfitLamports opp) :
    TradedOn F cfg messages opp cache := by
  refine ⟨hauth, h, ?_⟩
  intro step hstep
  obtain ⟨pool, hpool⟩ := WellFormedTrade.decoded h step hstep
  obtain ⟨adapter, data, hfind, hdata, hdecode⟩ := accountPool_some_iff.mp hpool
  obtain ⟨entry, hentry, rfl⟩ := Option.map_eq_some_iff.mp hdata
  obtain ⟨u, hbrought, hkey, rfl⟩ := hauth _ entry hentry
  have htype := List.find?_some hfind
  refine ⟨u, pool, hbrought, hkey, adapter, List.mem_of_find?_eq_some hfind,
    of_decide_eq_true htype, ?_⟩
  rw [hkey]
  exact hdecode

/-- **WHATEVER IS EXECUTED IS READ OFF THE STREAM**, in every run of the bot: a DEX trade is
    closed and profitable on a cache of accounts that messages carried whole, each of its
    pools decoded from one of them, and a liquidation is read off one such account. -/
theorem executed_on_stream (capacity : Nat) (cfg : PipelineConfig F) (events : List BotEvent)
    (p : Opportunity × JitoBundle)
    (hp : p ∈ (botRun capacity cfg events).pipeline.executed) :
    (∃ cache, TradedOn F cfg (messagesOf events) p.1 cache) ∨
      cfg.liquidationEnabled = true ∧
        ∃ u, Brought (messagesOf events) u ∧ Liquidates F cfg.liquidation u p.1 := by
  obtain ⟨turns, h⟩ := botRun_wired capacity cfg events
  rw [h.pipeline] at hp
  obtain ⟨-, lane, hfound⟩ := executed_found cfg AccountCache.new turns hp
  obtain ⟨before, event, after, rfl, hmem⟩ := mem_collect hfound
  obtain ⟨batch, hbatch, hopp⟩ := mem_foundBy hmem
  obtain ⟨update, hheld, ⟨rfl, rfl, rfl⟩ | ⟨rfl, rfl, rfl⟩⟩ := found_cases hbatch
  · left
    obtain ⟨us, hus, -⟩ := run_dexArb cfg AccountCache.new before
    rw [hus] at hopp
    exact ⟨_, TradedOn.of_wellFormed (Wired.authentic h)
      (emitted_wellFormed (u := (_, update)) hopp)⟩
  · right
    exact ⟨(run_received hheld).1, update, Wired.held_brought h hheld,
      processUpdate_liquidates (Option.mem_toList.mp hopp)⟩

/-! ## The vaults that never come -/

/-- Every pool's vaults are some other program's accounts, as token accounts are. -/
def ForeignVaults (F : Type) [F64 F] (messages : List (Option UpdateOneof)) : Prop :=
  ∀ u pool, Brought messages u → decodeAny F u = some pool → ∀ v, Brought messages v →
    v.pubkey = pool.tokenAVault ∨ v.pubkey = pool.tokenBVault → v.owner ∉ subscribed true

theorem subscribed_true {liquidationEnabled : Bool} {program : Pubkey}
    (h : program ∈ subscribed liquidationEnabled) : program ∈ subscribed true := by
  cases liquidationEnabled with
  | true => exact h
  | false => exact List.mem_append_left _ (List.mem_append.mp h |>.resolve_right List.not_mem_nil)

/-- A stream that serves the request brings subscribed accounts only. -/
theorem brought_subscribed {messages : List (Option UpdateOneof)} {liquidationEnabled : Bool}
    (hserves : ∀ msg ∈ messages, Serves (subscribeRequest liquidationEnabled) msg)
    {u : AccountUpdate} (h : Brought messages u) : u.owner ∈ subscribed liquidationEnabled := by
  obtain ⟨msg, hmsg, hcarries⟩ := h
  exact (admitted_iff liquidationEnabled u).mp (hserves msg hmsg u hcarries)

section Vaults

variable {messages : List (Option UpdateOneof)} {liquidationEnabled : Bool}
  (hserves : ∀ msg ∈ messages, Serves (subscribeRequest liquidationEnabled) msg)
  (hforeign : ForeignVaults F messages)

include hserves hforeign

/-- **NO VAULT IS CACHED**, so the reserves stay as they were decoded. -/
theorem populate_unchanged {cache : AccountCache} (hauth : Authentic messages cache)
    {u : AccountUpdate} (hu : Brought messages u) {pool : PoolState}
    (hdecoded : decodeAny F u = some pool) : populateReserves cache pool = pool := by
  have hnone : ∀ vault, vault = pool.tokenAVault ∨ vault = pool.tokenBVault →
      vaultBalance cache vault = none := by
    intro vault hvault
    cases hdata : cache.getData vault with
    | none => rw [vaultBalance, hdata, Option.bind_none]
    | some data =>
        obtain ⟨entry, hentry, -⟩ := Option.map_eq_some_iff.mp hdata
        obtain ⟨v, hv, rfl, -⟩ := hauth vault entry hentry
        exact absurd (subscribed_true (brought_subscribed hserves hv))
          (hforeign u pool hu hdecoded v hv hvault)
  refine VaultsQuiet.populate ⟨?_, ?_⟩
  · intro balance hbalance
    rw [hnone _ (Or.inl rfl)] at hbalance
    cases hbalance
  · intro balance hbalance
    rw [hnone _ (Or.inr rfl)] at hbalance
    cases hbalance

omit hserves hforeign in
/-- A Raydium AMM pool is decoded with empty reserves. -/
theorem raydiumAmm_decoded {u : AccountUpdate} {pool : PoolState}
    (hdecoded : decodeAny F u = some pool) (htype : pool.dexType = .raydiumAmm) :
    pool.tokenAAmount = 0 ∧ pool.tokenBAmount = 0 := by
  obtain ⟨adapter, hadapter, hdecode⟩ := List.exists_of_findSome?_eq_some hdecoded
  rw [decodeUpdate] at hdecode
  split at hdecode
  · split at hdecode
    · rename_i decoded hok
      obtain rfl := Option.some.inj hdecode
      have hstamp := (dexArbAdapters_stamp hadapter _ _ decoded hok).2
      rw [show decoded.dexType = _ from htype] at hstamp
      rcases dexArbAdapters_cases hadapter with rfl | rfl | rfl | rfl | rfl
      · exact (raydiumAmm_yields _ _ decoded hok).2
      · cases hstamp
      · cases hstamp
      · cases hstamp
      · cases hstamp
    · cases hdecode
  · cases hdecode

/-- A graph built from updates on authentic caches has no Raydium AMM edge. -/
theorem build_no_raydium {us : List CachedUpdate}
    (hus : ∀ u ∈ us, Authentic messages u.1 ∧ Brought messages u.2) :
    ∀ (i : Nat) (e : Edge F),
      (PriceGraph.build (historyOf F us) : PriceGraph F).edges[i]? = some e →
        e.dexType ≠ .raydiumAmm := by
  refine build_edges_forall (historyOf F us) (fun e w r l s h => h) (fun e h => h) ?_
  intro pool hmem hfund g
  -- a pool that was funded at its update is of another kind
  have hother : pool.dexType ≠ .raydiumAmm := by
    intro htype
    obtain ⟨u, hu, hop⟩ := List.mem_filterMap.mp hmem
    obtain ⟨pool', hdecoded, heq⟩ := Option.map_eq_some_iff.mp hop
    obtain rfl := GraphOp.updatePool.inj heq
    obtain ⟨decoded, hdecode, rfl⟩ := Option.map_eq_some_iff.mp hdecoded
    obtain ⟨hauth, hbrought⟩ := hus u hu
    rw [populate_unchanged hserves hforeign hauth hbrought hdecode] at hfund
    exact hfund.1 (raydiumAmm_decoded hdecode htype).1
  exact ⟨hother, hother⟩

end Vaults

/-- The steps of an emitted opportunity trade on edges of the strategy's graph. -/
theorem findOpportunities_edges {s : DexArbStrategy F} (hg : GraphInv s.mutableGraph)
    {cache : AccountCache} {opp : Opportunity} (h : opp ∈ s.findOpportunities cache) :
    ∀ step ∈ opp.path, ∃ (i : Nat) (e : Edge F), s.mutableGraph.edges[i]? = some e ∧
      e.poolAddress = step.poolAddress ∧ e.dexType = step.dexType := by
  obtain ⟨anchor, -, h⟩ := List.mem_flatMap.mp h
  obtain ⟨cycle, hcycle, h⟩ := List.mem_filterMap.mp h
  obtain ⟨amount, final, hsim⟩ := simulateCycle_spec (Option.filter_eq_some_iff.mp h).1
  rw [DexArbStrategy.anchorCycles] at hcycle
  split at hcycle
  · obtain ⟨arrows, hfound, -, -, rfl⟩ := (mem_findCyclesDfs _ _ _ _ _).mp hcycle
    intro step hstep
    obtain ⟨hop, hhop, hpool, htype, -⟩ := exists_hop hsim.steps step hstep
    obtain ⟨a, ha, rfl⟩ := List.mem_map.mp hhop
    exact ⟨a.1, a.2, (trail_edges hg hfound.trail ha).1, hpool.symm, htype.symm⟩
  · exact absurd hcycle List.not_mem_nil

/-- The steps of what an update makes the strategy emit trade on edges of the graph that
    the update leaves. -/
theorem emitted_edges {minProfit : Int64} {maxHops : Nat} {anchors : List Pubkey}
    {us : List CachedUpdate} {u : CachedUpdate} {opp : Opportunity}
    (h : opp ∈ (((DexArbStrategy.new minProfit maxHops anchors :
      DexArbStrategy F).run us).processUpdate u.1 u.2).2) :
    ∀ step ∈ opp.path, ∃ (i : Nat) (e : Edge F),
      (PriceGraph.build (historyOf F (us ++ [u])) : PriceGraph F).edges[i]? = some e ∧
        e.dexType = step.dexType := by
  rw [processUpdate_opportunities, ← MevHistory.run_concat] at h
  cases hdecoded : decodedPool F u with
  | none =>
      rw [hdecoded] at h
      exact absurd h List.not_mem_nil
  | some pool =>
      rw [hdecoded] at h
      intro step hstep
      obtain ⟨i, e, he, -, htype⟩ :=
        findOpportunities_edges (reachable_graphInv _ _ _ _) h step hstep
      rw [run_mutableGraph] at he
      exact ⟨i, e, he, htype⟩

/-- A liquidation goes under the label of its protocol. -/
theorem liquidation_label {s : LiquidationStrategy} {update : AccountUpdate}
    {opp : Opportunity} (h : s.processUpdate F update = some opp) :
    opp.strategy ≠ "dex_arb" := by
  obtain ⟨-, -, obligation, -, -, -, -, -, -, hstrategy, -⟩ :=
    (processUpdate_liquidates h).decoded
  rw [hstrategy]
  cases obligation.protocol with
  | kamino => decide
  | marginfi => decide
  | save => decide

/-- **RAYDIUM AMM IS NEVER TRADED**: in every run on a stream that serves the request, as
    long as no subscribed program owns a pool's vault, only accounts of the programs are
    cached, `populate_reserves` leaves every pool as it was decoded, no edge of the graph
    is a Raydium AMM pool's, and no executed DEX trade has a step through one. -/
theorem raydium_untraded (capacity : Nat) (cfg : PipelineConfig F) (events : List BotEvent)
    (hserves : ∀ msg ∈ messagesOf events, Serves (subscribeRequest cfg.liquidationEnabled) msg)
    (hforeign : ForeignVaults F (messagesOf events)) :
    let s := (botRun capacity cfg events).pipeline
    (∀ k entry, s.cache.get k = some entry →
      entry.owner ∈ subscribed cfg.liquidationEnabled) ∧
    (∀ u pool, Brought (messagesOf events) u → decodeAny F u = some pool →
      populateReserves s.cache pool = pool) ∧
    (∀ e ∈ s.dexArb.mutableGraph.edges, e.dexType ≠ .raydiumAmm) ∧
    ∀ p ∈ s.executed, p.1.strategy = "dex_arb" →
      ∀ step ∈ p.1.path, step.dexType ≠ .raydiumAmm := by
  intro s
  obtain ⟨turns, h⟩ := botRun_wired capacity cfg events
  have hs : s = run cfg (PipelineState.init cfg AccountCache.new) turns := h.pipeline
  have hauth : Authentic (messagesOf events) s.cache := by
    rw [← List.append_nil turns] at h
    exact hs ▸ Wired.authentic h
  refine ⟨?_, fun u pool hu hdecoded => populate_unchanged hserves hforeign hauth hu hdecoded,
    ?_, ?_⟩
  · intro k entry hentry
    obtain ⟨u, hu, -, rfl⟩ := hauth k entry hentry
    exact brought_subscribed hserves hu
  · obtain ⟨us, hus, hat⟩ := run_dexArb cfg AccountCache.new turns
    rw [← List.append_nil turns] at h
    intro e he
    obtain ⟨i, hi⟩ := List.mem_iff_getElem?.mp he
    rw [hs, hus, run_mutableGraph] at hi
    exact build_no_raydium hserves hforeign (Wired.reads h hat) i e hi
  · intro p hp hlabel step hstep
    rw [hs] at hp
    obtain ⟨-, lane, hfound⟩ := executed_found cfg AccountCache.new turns hp
    obtain ⟨before, event, after, rfl, hmem⟩ := mem_collect hfound
    obtain ⟨batch, hbatch, hopp⟩ := mem_foundBy hmem
    obtain ⟨update, hheld, ⟨rfl, rfl, rfl⟩ | ⟨rfl, rfl, rfl⟩⟩ := found_cases hbatch
    · obtain ⟨us, hus, hat⟩ := run_dexArb cfg AccountCache.new before
      let cache := (run cfg (PipelineState.init cfg AccountCache.new) before).cache
      have hlast : ∀ u ∈ us ++ [(cache, update)],
          Authentic (messagesOf events) u.1 ∧ Brought (messagesOf events) u.2 := by
        intro u hu
        rcases List.mem_append.mp hu with hu | hu
        · exact Wired.reads h hat u hu
        · rw [List.mem_singleton.mp hu]
          exact ⟨Wired.authentic h, Wired.held_brought h hheld⟩
      rw [hus] at hopp
      obtain ⟨i, e, he, htype⟩ := emitted_edges (u := (cache, update)) hopp step hstep
      exact htype ▸ build_no_raydium hserves hforeign hlast i e he
    · exact absurd hlabel (liquidation_label (Option.mem_toList.mp hopp))

end Sourced

/-! ## Sample runs -/

section Sample

open MevExact MevSubmitted

/-- Two updates come from the stream, and the tasks go on as in the sample run. -/
def twoMessages (first second : AccountUpdate) : List BotEvent :=
  [.stream (some (some (messageOf first))), .recv .dexArb, .turn .dexProcess,
    .recv .cacheUpdater, .stream (some (some (messageOf second))), .recv .cacheUpdater,
    .recv .dexArb] ++ ((twoUpdates first second).drop 5).map .turn

theorem botStep_turn {F : Type} [F64 F] {capacity : Nat} {cfg : PipelineConfig F}
    {s : BotState F} {event : PipelineEvent} (h : receiverOf event = none) :
    botStep capacity cfg s (.turn event) = { s with pipeline := step cfg s.pipeline event } := by
  simp only [botStep, turnsOf, h, Option.isNone_none, if_true]
  rfl

/-- Turns without an update are turns of the pipeline. -/
theorem turns_pipeline {F : Type} [F64 F] (capacity : Nat) (cfg : PipelineConfig F)
    (s : BotState F) {turns : List PipelineEvent} (h : ∀ event ∈ turns, receiverOf event = none) :
    ((turns.map BotEvent.turn).foldl (botStep capacity cfg) s).pipeline =
      run cfg s.pipeline turns := by
  induction turns generalizing s with
  | nil => rfl
  | cons event turns ih =>
      obtain ⟨hevent, hrest⟩ := List.forall_mem_cons.mp h
      rw [List.map_cons, List.foldl_cons, ih _ hrest, botStep_turn hevent]
      rfl

/-- The bot goes through the sample run of its pipeline. -/
theorem twoMessages_pipeline (cfg : PipelineConfig ExactF64) (first second : AccountUpdate) :
    (botRun 4 cfg (twoMessages first second)).pipeline =
      run cfg (PipelineState.init cfg AccountCache.new) (twoUpdates first second) := by
  let s0 : BotState ExactF64 := BotState.start cfg
  have hturns : ∀ event ∈ (twoUpdates first second).drop 5, receiverOf event = none := by
    intro event hevent
    simp only [twoUpdates, bothProcessed, processed, List.cons_append, List.nil_append,
      List.drop_succ_cons, List.drop_zero, List.mem_cons, List.not_mem_nil, or_false] at hevent
    rcases hevent with rfl | rfl | rfl | rfl
    · rfl
    · rfl
    · rfl
    · rfl
  -- the first update finds nothing, so the DEX task is ready for the second
  have hprocessed := run_processed cfg (s := s0.pipeline) rfl rfl first
  rw [show (s0.pipeline.dexArb.processUpdate s0.pipeline.cache first).2 = [] from
    processUpdate_new _ _] at hprocessed
  rw [botRun, twoMessages, List.foldl_append, turns_pipeline 4 cfg _ hturns]
  rw [List.foldl_cons, botStep_stream]
  rw [List.foldl_cons, botStep_recv (r := .dexArb) (u := first) (n := 1) rfl rfl]
  rw [List.foldl_cons, botStep_turn rfl]
  rw [List.foldl_cons, botStep_recv (r := .cacheUpdater) (u := first) (n := 1) rfl rfl]
  rw [List.foldl_cons, botStep_stream]
  rw [List.foldl_cons, botStep_recv (r := .cacheUpdater) (u := second) (n := 2) rfl rfl]
  rw [List.foldl_cons, botStep_recv (r := .dexArb) (u := second) (n := 2) ?_ rfl]
  · rfl
  · exact congrArg (fun s : PipelineState ExactF64 => s.dexOutbox.idle) hprocessed

/-- The sample run of the bot executes a trade read off its two messages. -/
theorem market_on_stream :
    ∃ p ∈ (botRun 4 sampleConfig (twoMessages firstMarket secondMarket)).pipeline.executed,
      ∃ cache, TradedOn ExactF64 sampleConfig
        (messagesOf (twoMessages firstMarket secondMarket)) p.1 cache := by
  have hexecuted := sample_executed
  rw [← twoMessages_pipeline] at hexecuted
  obtain ⟨p, hp⟩ := List.exists_mem_of_ne_nil _ hexecuted
  rcases executed_on_stream 4 sampleConfig _ p hp with htraded | ⟨henabled, -⟩
  · exact ⟨p, hp, htraded⟩
  · cases henabled

/-- A Raydium AMM pool that the stream brings. -/
def raydiumMessage : AccountUpdate :=
  { pubkey := raydiumPool.address, slot := 1, data := raydiumMarket, lamports := 0,
    owner := RAYDIUM_AMM_V4 }

/-- The stream brings the pool, both tasks receive it, and the DEX task processes it. -/
def raydiumEvents : List BotEvent :=
  [.stream (some (some (messageOf raydiumMessage))), .recv .cacheUpdater, .recv .dexArb,
    .turn .dexProcess]

theorem raydiumEvents_brought {u : AccountUpdate} (h : Brought (messagesOf raydiumEvents) u) :
    u = raydiumMessage := by
  obtain ⟨msg, hmsg, hcarries⟩ := h
  rw [show messagesOf raydiumEvents = [some (messageOf raydiumMessage)] from rfl,
    List.mem_singleton] at hmsg
  rw [hmsg] at hcarries
  have hsent := (handleUpdate_sends_iff 0 (some (messageOf raydiumMessage)) raydiumMessage).mpr rfl
  rw [(handleUpdate_sends_iff 0 _ u).mpr hcarries] at hsent
  exact Option.some.inj hsent

theorem raydiumMessage_decodes :
    decodeAny ExactF64 raydiumMessage = some { raydiumPool with slot := 1 } := by
  have hdecode : RaydiumAmmAdapter.decodePool raydiumMessage.pubkey raydiumMessage.data =
      .ok (some raydiumPool) := by
    rw [raydiumMessage, RaydiumAmmAdapter]
    dsimp only
    rw [raydiumMarket_decodes]
  exact decodeAny_of_owner (F := ExactF64) raydiumAmm_mem
    (show raydiumMessage.owner = RaydiumAmmAdapter.programId from rfl) hdecode

/-- The pool decodes, keeps its empty reserves, and leaves the graph without edges of its
    kind. -/
theorem raydium_ignored :
    populateReserves (botRun 4 sampleConfig raydiumEvents).pipeline.cache
        { raydiumPool with slot := 1 } = { raydiumPool with slot := 1 } ∧
      ∀ e ∈ (botRun 4 sampleConfig raydiumEvents).pipeline.dexArb.mutableGraph.edges,
        e.dexType ≠ .raydiumAmm := by
  have hserves : ∀ msg ∈ messagesOf raydiumEvents,
      Serves (subscribeRequest sampleConfig.liquidationEnabled) msg := by
    intro msg hmsg u hcarries
    rw [admitted_iff, raydiumEvents_brought ⟨msg, hmsg, hcarries⟩]
    exact List.mem_cons_self
  have hforeign : ForeignVaults ExactF64 (messagesOf raydiumEvents) := by
    intro u pool hu hdecoded v hv hvault
    rw [raydiumEvents_brought hu, raydiumMessage_decodes] at hdecoded
    obtain rfl := Option.some.inj hdecoded
    rw [raydiumEvents_brought hv] at hvault
    -- the account is neither of its own vaults
    have hvaults : raydiumPool.address ≠ raydiumPool.tokenAVault ∧
        raydiumPool.address ≠ raydiumPool.tokenBVault := by decide
    rcases hvault with hA | hB
    · exact absurd hA hvaults.1
    · exact absurd hB hvaults.2
  obtain ⟨-, hplain, hedges, -⟩ :=
    raydium_untraded 4 sampleConfig raydiumEvents hserves hforeign
  exact ⟨hplain raydiumMessage _
    ⟨some (messageOf raydiumMessage), List.mem_cons_self,
      (handleUpdate_sends_iff 0 _ _).mp rfl⟩ raydiumMessage_decodes, hedges⟩

end Sample

end MevSubscription
