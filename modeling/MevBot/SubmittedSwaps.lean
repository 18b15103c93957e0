import MevBot.OpportunityLaws
import MevBot.Pipeline

/-! # What the executor submits

    Both strategies emit swap steps with an EMPTY instruction list, meant to be
    filled in by the executor, and neither the executor task nor
    `build_arb_transaction` fills them in.  So every transaction built sets the
    compute budget and pays the tip and does nothing else
    (`executed_swapless`). -/

namespace MevSubmitted

open MevMachine MevTypes MevMath MevStrategy MevLending MevSimulation MevTracker MevPipeline
open MevRisk MevCache MevSearch

section Runs

variable {F : Type} [F64 F]

/-! ## Bare opportunities -/

/-- At least one step, and no step carries an instruction. -/
def Bare (opp : Opportunity) : Prop :=
  opp.path ≠ [] ∧ ∀ step ∈ opp.path, step.instructions = []

theorem instructions_nil {hops : List ArbHop} {steps : List SwapStep}
    (h : List.Forall₂ StepOf hops steps) : ∀ step ∈ steps, step.instructions = [] := by
  induction h with
  | nil => exact fun step hstep => absurd hstep List.not_mem_nil
  | cons hstep _ ih =>
      intro step hmem
      rcases List.mem_cons.mp hmem with rfl | hmem
      · exact hstep.2.2.2.2
      · exact ih step hmem

theorem simulateCycle_bare {cache : AccountCache} {arbPath : ArbPath F} {opp : Opportunity}
    (h : DexArbStrategy.simulateCycle cache arbPath = some opp) : Bare opp := by
  obtain ⟨amount, final, hsim⟩ := simulateCycle_spec h
  have hsteps := hsim.steps
  refine ⟨?_, instructions_nil hsteps⟩
  intro hnil
  rw [hnil] at hsteps
  exact hsim.nonempty (List.forall₂_nil_right_iff.mp hsteps)

/-- Whatever the DEX strategy emits is bare. -/
theorem processUpdate_bare {s : DexArbStrategy F} {cache : AccountCache} {update : AccountUpdate}
    {opp : Opportunity} (h : opp ∈ (s.processUpdate cache update).2) : Bare opp := by
  rw [DexArbStrategy.processUpdate] at h
  split at h
  · obtain ⟨anchor, -, h⟩ := List.mem_flatMap.mp h
    obtain ⟨cycle, -, h⟩ := List.mem_filterMap.mp h
    exact simulateCycle_bare (Option.filter_eq_some_iff.mp h).1
  · exact absurd h List.not_mem_nil

/-- Whatever the liquidation strategy emits is bare. -/
theorem liquidation_bare {s : LiquidationStrategy} {update : AccountUpdate} {opp : Opportunity}
    (h : s.processUpdate F update = some opp) : Bare opp := by
  obtain ⟨obligation, -, h⟩ := Option.bind_eq_some_iff.mp h
  rw [LiquidationStrategy.evaluateObligation] at h
  split at h
  · cases h
  · split at h
    · cases h
    · split at h
      · cases h
      · dsimp only at h
        split at h
        · cases h
        · obtain rfl := Option.some.inj h
          refine ⟨List.cons_ne_nil _ _, ?_⟩
          intro step hstep
          rw [List.mem_singleton.mp hstep]
          rfl

/-! ## The transaction -/

/-- Between the compute budget and the last instruction, at least one instruction
    for each step of the path. -/
def CarriesSwaps (cfg : PipelineConfig F) (opp : Opportunity) (tx : Transaction) : Prop :=
  ∃ (blocks : List (List Instruction)) (transfer : Instruction),
    tx.instructions = computeBudget cfg.sdk opp 0 ++ blocks.flatten ++ [transfer] ∧
      blocks.length = opp.path.length ∧ ∀ block ∈ blocks, block ≠ []

/-- A bundle built by the executor for an opportunity: one transaction, with some
    tip, blockhash and tip account. -/
def BuiltFor (cfg : PipelineConfig F) (opp : Opportunity) (bundle : JitoBundle) : Prop :=
  ∃ tip blockhash tipIndex,
    bundle.transactions = [buildArbTransaction cfg.sdk opp cfg.payer tip 0 blockhash tipIndex]

omit [F64 F] in
/-- The transaction of a bare opportunity: compute budget and tip. -/
theorem buildArbTransaction_bare {cfg : PipelineConfig F} {opp : Opportunity} (h : Bare opp)
    (tip : UInt64) (blockhash : Hash) (tipIndex : Fin 8) :
    ∃ tipAccount,
      (buildArbTransaction cfg.sdk opp cfg.payer tip 0 blockhash tipIndex).instructions =
        computeBudget cfg.sdk opp 0 ++ [cfg.sdk.transfer cfg.payer tipAccount tip] := by
  have hnone : opp.path.flatMap (·.instructions) = [] := by
    rw [List.flatMap_eq_nil_iff]
    exact h.2
  refine ⟨jitoTipAccounts[tipIndex], ?_⟩
  show computeBudget cfg.sdk opp 0 ++ opp.path.flatMap (·.instructions) ++ _ = _
  rw [hnone, List.append_nil]

omit [F64 F] in
theorem flatten_ne_nil {blocks : List (List Instruction)} (hne : blocks ≠ [])
    (h : ∀ block ∈ blocks, block ≠ []) : blocks.flatten ≠ [] := by
  obtain ⟨block, hblock⟩ := List.exists_mem_of_ne_nil blocks hne
  intro hnil
  exact h block hblock (List.flatten_eq_nil_iff.mp hnil block hblock)

omit [F64 F] in
/-- A bare opportunity is never carried. -/
theorem not_carriesSwaps {cfg : PipelineConfig F} {opp : Opportunity} (h : Bare opp)
    {bundle : JitoBundle} (hbuilt : BuiltFor cfg opp bundle) :
    ∃ tx ∈ bundle.transactions, ¬CarriesSwaps cfg opp tx := by
  obtain ⟨tip, blockhash, tipIndex, htx⟩ := hbuilt
  rw [htx]
  refine ⟨_, List.mem_cons_self, ?_⟩
  rintro ⟨blocks, transfer, hinst, hlen, hblocks⟩
  obtain ⟨tipAccount, hbare⟩ := buildArbTransaction_bare h tip blockhash tipIndex
  rw [hbare, List.append_assoc] at hinst
  have hrest := congrArg List.length (List.append_cancel_left hinst)
  have hne : blocks ≠ [] := by
    rintro rfl
    exact h.1 (List.eq_nil_of_length_eq_zero hlen.symm)
  have hpos := List.length_pos_of_ne_nil (flatten_ne_nil hne hblocks)
  rw [List.length_append, List.length_singleton, List.length_singleton] at hrest
  omega

/-! ## The invariant -/

/-- Every opportunity of an outbox is bare. -/
def Outbox.AllBare (o : Outbox) : Prop :=
  (∀ opp ∈ o.queue, Bare opp) ∧ ∀ opp, o.sending = some opp → Bare opp

/-- Every opportunity anywhere in the pipeline is bare, and every bundle was built
    for a bare one. -/
structure AllBare (cfg : PipelineConfig F) (s : PipelineState F) : Prop where
  dex : Outbox.AllBare s.dexOutbox
  liquidation : Outbox.AllBare s.liquidationOutbox
  channel : ∀ opp ∈ s.channel, Bare opp
  executed : ∀ p ∈ s.executed, Bare p.1 ∧ BuiltFor cfg p.1 p.2

omit [F64 F] in
theorem check_allBare {cfg : PipelineConfig F} {o : Outbox} (h : Outbox.AllBare o)
    (pnl : PnlTracker) : Outbox.AllBare (o.check cfg pnl).1 := by
  rcases o.check_cases cfg pnl with heq | ⟨opp, rest, rfl, heq⟩
  · rw [heq]
    exact h
  · rw [heq]
    have hopp : Bare opp := h.1 opp List.mem_cons_self
    refine ⟨fun o' ho' => h.1 o' (List.mem_cons_of_mem opp ho'), ?_⟩
    intro o' ho'
    change (if cfg.accepts opp then some opp else none) = some o' at ho'
    split at ho'
    · obtain rfl := Option.some.inj ho'
      exact hopp
    · cases ho'

omit [F64 F] in
theorem send_allBare {o : Outbox} (h : Outbox.AllBare o) {channel : List Opportunity}
    (hchannel : ∀ opp ∈ channel, Bare opp) :
    Outbox.AllBare (o.send channel).1 ∧ ∀ opp ∈ (o.send channel).2, Bare opp := by
  rcases o.send_cases channel with heq | ⟨opp, hsending, -, heq⟩
  · rw [heq]
    exact ⟨h, hchannel⟩
  · rw [heq]
    refine ⟨⟨h.1, fun o' ho' => (nomatch ho')⟩, ?_⟩
    intro o' ho'
    rcases List.mem_append.mp ho' with ho' | ho'
    · exact hchannel o' ho'
    · rw [List.mem_singleton.mp ho']
      exact h.2 opp hsending

omit [F64 F] in
/-- A task that only holds an update holds no opportunity. -/
theorem received_allBare (update : AccountUpdate) : Outbox.AllBare (.received update) :=
  ⟨fun _ h => absurd h List.not_mem_nil, fun _ h => (nomatch h)⟩

theorem executeOne_allBare {cfg : PipelineConfig F} {s : PipelineState F} (h : AllBare cfg s)
    {opp : Opportunity} (hopp : Bare opp) (blockhash : Option Hash) (tipIndex : Fin 8)
    (answer : Except String String) (now : Nat) :
    AllBare cfg (executeOne cfg s opp blockhash tipIndex answer now) := by
  unfold executeOne
  -- without a blockhash the executor skips the opportunity
  cases blockhash with
  | none => exact h
  | some blockhash =>
      have hexec : ∀ p ∈ s.executed ++ [(opp, bundleOf opp
          (buildArbTransaction cfg.sdk opp cfg.payer
            (cfg.risk.calculateTip opp.expectedProfitLamports) 0 blockhash tipIndex)
          (cfg.risk.calculateTip opp.expectedProfitLamports))],
          Bare p.1 ∧ BuiltFor cfg p.1 p.2 := by
        intro p hp
        rcases List.mem_append.mp hp with hp | hp
        · exact h.executed p hp
        · rw [List.mem_singleton.mp hp]
          exact ⟨hopp, _, blockhash, tipIndex, rfl⟩
      dsimp only
      split
      · exact ⟨h.dex, h.liquidation, h.channel, hexec⟩
      · split
        · exact ⟨h.dex, h.liquidation, h.channel, hexec⟩
        · exact ⟨h.dex, h.liquidation, h.channel, hexec⟩

/-- **ONE TURN** keeps every opportunity bare. -/
theorem step_allBare {cfg : PipelineConfig F} {s : PipelineState F} (h : AllBare cfg s)
    (event : PipelineEvent) : AllBare cfg (step cfg s event) := by
  -- only the two processing turns add opportunities, only the executor bundles
  cases event with
  | cacheUpdate update => exact ⟨h.dex, h.liquidation, h.channel, h.executed⟩
  | dexReceive update =>
      rcases step_dexReceive_cases cfg s update with heq | ⟨-, heq⟩
      · rw [heq]
        exact h
      · rw [heq]
        exact ⟨received_allBare update, h.liquidation, h.channel, h.executed⟩
  | dexProcess =>
      rcases step_dexProcess_cases cfg s with heq | ⟨update, -, heq⟩
      · rw [heq]
        exact h
      · rw [heq]
        exact ⟨⟨fun opp hopp => processUpdate_bare hopp, fun opp hopp => (nomatch hopp)⟩,
          h.liquidation, h.channel, h.executed⟩
  | dexCheck => exact ⟨check_allBare h.dex s.pnl, h.liquidation, h.channel, h.executed⟩
  | dexSend =>
      obtain ⟨hout, hchannel⟩ := send_allBare h.dex h.channel
      exact ⟨hout, h.liquidation, hchannel, h.executed⟩
  | liquidationReceive update =>
      rcases step_liquidationReceive_cases cfg s update with heq | ⟨-, heq⟩
      · rw [heq]
        exact h
      · rw [heq]
        exact ⟨h.dex, received_allBare update, h.channel, h.executed⟩
  | liquidationProcess =>
      rcases step_liquidationProcess_cases cfg s with heq | ⟨update, -, heq⟩
      · rw [heq]
        exact h
      · rw [heq]
        refine ⟨h.dex, ⟨?_, fun opp hopp => (nomatch hopp)⟩, h.channel, h.executed⟩
        intro opp hopp
        exact liquidation_bare (Option.mem_toList.mp hopp)
  | liquidationCheck =>
      exact ⟨h.dex, check_allBare h.liquidation s.pnl, h.channel, h.executed⟩
  | liquidationSend =>
      obtain ⟨hout, hchannel⟩ := send_allBare h.liquidation h.channel
      exact ⟨h.dex, hout, hchannel, h.executed⟩
  | execute blockhash tipIndex answer now =>
      cases hchannel : s.channel with
      | nil =>
          rw [step_execute_nil cfg s _ _ _ _ hchannel]
          exact h
      | cons opp rest =>
          rw [step_execute_cons cfg s _ _ _ _ hchannel]
          have hs : AllBare cfg { s with channel := rest } :=
            ⟨h.dex, h.liquidation,
              fun o ho => h.channel o (by rw [hchannel]; exact List.mem_cons_of_mem opp ho),
              h.executed⟩
          exact executeOne_allBare hs
            (h.channel opp (by rw [hchannel]; exact List.mem_cons_self)) _ _ _ _
  | poll now response recordedAt =>
      rcases step_poll_cases cfg s now response recordedAt with heq | heq
      · rw [heq]
        exact h
      · rw [heq]
        exact ⟨h.dex, h.liquidation, h.channel, h.executed⟩

/-- **ANY INTERLEAVING** keeps every opportunity bare. -/
theorem run_allBare (cfg : PipelineConfig F) (cache : AccountCache)
    (events : List PipelineEvent) :
    AllBare cfg (run cfg (PipelineState.init cfg cache) events) := by
  refine List.foldlRecOn events _ ?_ fun s h event _ => step_allBare h event
  exact ⟨⟨fun _ h => absurd h List.not_mem_nil, fun _ h => (nomatch h)⟩,
    ⟨fun _ h => absurd h List.not_mem_nil, fun _ h => (nomatch h)⟩,
    fun _ h => absurd h List.not_mem_nil, fun _ h => absurd h List.not_mem_nil⟩

end Runs

/-! ## A sample run -/

section Sample

open MevExact MevHistory MevOpportunity MevRates

/-- The compute budget program. -/
def computeBudgetProgram : Pubkey :=
  ⟨#v[3, 6, 70, 111, 229, 33, 23, 50, 255, 236, 173, 186, 114, 195, 155, 231,
    188, 140, 229, 187, 197, 247, 18, 107, 44, 67, 155, 58, 64, 0, 0, 0]⟩

/-- The SDK's three instructions, by program id and data. -/
def solanaSdk : SolanaSdk where
  setComputeUnitLimit := fun units =>
    ⟨computeBudgetProgram, [], 2 :: toLeBytes 4 units.toNat⟩
  setComputeUnitPrice := fun price =>
    ⟨computeBudgetProgram, [], 3 :: toLeBytes 8 price.toNat⟩
  transfer := fun payer dest lamports =>
    ⟨Pubkey.default, [⟨payer, true, true⟩, ⟨dest, false, true⟩],
      toLeBytes 4 2 ++ toLeBytes 8 lamports.toNat⟩

/-- A configuration that rejects nothing. -/
noncomputable def sampleConfig : PipelineConfig ExactF64 :=
  { sdk := solanaSdk, payer := keyOf 7
    risk := { maxPositionLamports := 10000000000, minProfitLamports := 1,
              maxTipLamports := 100000000, tipFraction := 0.5 }
    blacklist := ⟨[], []⟩, maxHops := 4, anchorMints := [keyOf 1], liquidationEnabled := false
    liquidation := ⟨100, 1000⟩, circuitBreakerWindowSecs := 300
    circuitBreakerMaxLossLamports := 1000000000, dryRun := false }

/-- The DEX task takes an update up and processes it. -/
def processed (update : AccountUpdate) : List PipelineEvent := [.dexReceive update, .dexProcess]

/-- A DEX task with an empty outbox and an allowing breaker does so. -/
theorem run_processed {F : Type} [F64 F] (cfg : PipelineConfig F) {s : PipelineState F}
    (hidle : s.dexOutbox.idle = true) (hallowed : s.breaker.isAllowed = true)
    (update : AccountUpdate) :
    run cfg s (processed update) =
      { s with
        dexArb := (s.dexArb.processUpdate s.cache update).1
        dexOutbox := .forwarding (s.dexArb.processUpdate s.cache update).2 none } := by
  have hreceived : step cfg s (.dexReceive update) = { s with dexOutbox := .received update } := by
    simp only [step]
    rw [hidle, hallowed]
    rfl
  rw [run, processed, List.foldl_cons, hreceived]
  rfl

/-- Nothing simulates on an empty cache. -/
theorem simulateCycle_new {F : Type} [F64 F] (p : ArbPath F) :
    DexArbStrategy.simulateCycle AccountCache.new p = none := by
  refine Option.eq_none_iff_forall_ne_some.mpr ?_
  intro opp hopp
  obtain ⟨amount, final, hsim⟩ := simulateCycle_spec hopp
  obtain ⟨states, hstates, -⟩ := hsim.optimal
  -- the first loop already fails: no account is cached
  cases hhops : p.hops with
  | nil => exact hsim.nonempty hhops
  | cons hop hops =>
      rw [hhops] at hstates
      obtain ⟨state, -, -, hstate, -⟩ := mapM_cons_some hstates
      obtain ⟨adapter, -, h⟩ := Option.bind_eq_some_iff.mp hstate
      obtain ⟨data, hdata, -⟩ := Option.bind_eq_some_iff.mp h
      cases hdata

theorem processUpdate_new {F : Type} [F64 F] (s : DexArbStrategy F) (update : AccountUpdate) :
    (s.processUpdate AccountCache.new update).2 = [] := by
  rw [processUpdate_opportunities s (AccountCache.new, update)]
  cases decodedPool F (AccountCache.new, update) with
  | none => rfl
  | some pool =>
      refine List.flatMap_eq_nil_iff.mpr ?_
      intro anchor _
      refine List.filterMap_eq_nil_iff.mpr ?_
      intro cycle _
      rw [simulateCycle_new]
      rfl

/-- The sample configuration accepts every trade of its own strategy. -/
theorem sampleConfig_accepts {cache : AccountCache} {opp : Opportunity}
    (h : WellFormedTrade ExactF64 cache [keyOf 1] 4 1 opp) :
    sampleConfig.accepts opp = true := by
  obtain ⟨amount, final, states, hfirst, -, hle, -⟩ := h.profit
  have hblacklist : sampleConfig.blacklist.checkOpportunity opp = true := by
    refine List.all_eq_true.mpr ?_
    intro step _
    rfl
  have hcheck : sampleConfig.risk.check opp = .approved := by
    rw [RiskLimits.check]
    rw [if_neg (show ¬opp.expectedProfitLamports < sampleConfig.risk.minProfitLamports from
      Int64.not_lt.mpr h.enough)]
    cases hhead : opp.path.head? with
    | none => rfl
    | some step =>
        rw [hhead] at hfirst
        obtain rfl := Option.some.inj hfirst
        -- the optimizer never goes beyond the position limit
        refine if_neg (UInt64.not_lt.mpr ?_)
        rw [UInt64.le_iff_toNat_le]
        exact hle
  rw [PipelineConfig.accepts, hblacklist, hcheck]
  rfl

/-- Two updates reach the cache and the DEX task, the first one the graph before the
    cache. -/
def bothProcessed (first second : AccountUpdate) : List PipelineEvent :=
  processed first ++ [.cacheUpdate first, .cacheUpdate second] ++ processed second

/-- The first opportunity then goes to the executor. -/
def twoUpdates (first second : AccountUpdate) : List PipelineEvent :=
  bothProcessed first second ++
    [.dexCheck, .dexSend, .execute (some (Vector.replicate 32 0)) 0 (.ok "bundle") 0]

/-- What the second update finds is in the outbox. -/
theorem bothProcessed_run {F : Type} [F64 F] (cfg : PipelineConfig F)
    (first second : AccountUpdate) :
    let s := PipelineState.init cfg AccountCache.new
    let cache := (AccountCache.new.update first).update second
    let found := (s.dexArb.run [(AccountCache.new, first)]).processUpdate cache second
    run cfg s (bothProcessed first second) =
      { s with cache, dexArb := found.1, dexOutbox := .forwarding found.2 none } := by
  intro s cache found
  have hfirst : run cfg s (processed first ++ [.cacheUpdate first, .cacheUpdate second]) =
      { s with cache, dexArb := s.dexArb.run [(AccountCache.new, first)] } := by
    rw [run, List.foldl_append]
    show run cfg (run cfg s (processed first)) [.cacheUpdate first, .cacheUpdate second] = _
    rw [run_processed cfg rfl rfl,
      show (s.dexArb.processUpdate s.cache first).2 = [] from processUpdate_new _ _]
    rfl
  rw [bothProcessed, run, List.foldl_append]
  show run cfg (run cfg s (processed first ++ _)) (processed second) = _
  rw [hfirst, run_processed cfg rfl rfl]

/-- An accepted opportunity of the second update is executed. -/
theorem twoUpdates_executed (cfg : PipelineConfig ExactF64) (first second : AccountUpdate)
    (opp : Opportunity) (rest : List Opportunity)
    (hlist : (((DexArbStrategy.new cfg.risk.minProfitLamports cfg.maxHops cfg.anchorMints :
      DexArbStrategy ExactF64).run [(AccountCache.new, first)]).processUpdate
        ((AccountCache.new.update first).update second) second).2 = opp :: rest)
    (haccepts : cfg.accepts opp = true) (hwet : cfg.dryRun = false) :
    (run cfg (PipelineState.init cfg AccountCache.new) (twoUpdates first second)).executed ≠
      [] := by
  rw [run, twoUpdates, List.foldl_append,
    show List.foldl (step cfg) _ (bothProcessed first second) = _ from
      bothProcessed_run cfg first second]
  rw [show (((PipelineState.init cfg AccountCache.new).dexArb.run
    [(AccountCache.new, first)]).processUpdate _ second).2 = opp :: rest from hlist]
  have hsend : (Outbox.forwarding rest (some opp)).send [] = (.forwarding rest none, [opp]) := rfl
  simp only [List.foldl_cons, List.foldl_nil, step, PipelineState.init,
    Outbox.check_accepted haccepts, hsend, executeOne, hwet, Bool.false_eq_true, if_false]
  exact List.append_ne_nil_of_right_ne_nil _ (List.cons_ne_nil _ _)

/-- The sample market has an opportunity, and the sample configuration accepts it. -/
theorem sample_found : ∃ opp rest,
    (((DexArbStrategy.new 1 4 [keyOf 1] : DexArbStrategy ExactF64).run
      [(AccountCache.new, firstMarket)]).processUpdate marketCache secondMarket).2 =
        opp :: rest ∧ sampleConfig.accepts opp = true := by
  obtain ⟨opp, hopp⟩ := marketTrade_emitted
  obtain ⟨first, rest, hlist⟩ := List.exists_cons_of_ne_nil (List.ne_nil_of_mem hopp)
  have hfirst : WellFormedTrade ExactF64 marketCache [keyOf 1] 4 1 first := by
    have hmem : first ∈ (((DexArbStrategy.new 1 4 [keyOf 1] : DexArbStrategy ExactF64).run
        [(AccountCache.new, firstMarket)]).processUpdate marketCache secondMarket).2 := by
      rw [hlist]
      exact List.mem_cons_self
    exact emitted_wellFormed (u := (marketCache, secondMarket)) hmem
  exact ⟨first, rest, hlist, sampleConfig_accepts hfirst⟩

/-- After its second update the DEX task of the sample run has it in its outbox. -/
theorem sample_outbox : ∃ opp rest,
    (run sampleConfig (PipelineState.init sampleConfig AccountCache.new)
      (bothProcessed firstMarket secondMarket)).dexOutbox = .forwarding (opp :: rest) none ∧
      sampleConfig.accepts opp = true := by
  obtain ⟨opp, rest, hlist, haccepts⟩ := sample_found
  refine ⟨opp, rest, ?_, haccepts⟩
  have hrun := bothProcessed_run sampleConfig firstMarket secondMarket
  exact (congrArg PipelineState.dexOutbox hrun).trans (congrArg (Outbox.forwarding · none) hlist)

/-- The sample run submits a bundle. -/
theorem sample_executed :
    (run sampleConfig (PipelineState.init sampleConfig AccountCache.new)
      (twoUpdates firstMarket secondMarket)).executed ≠ [] := by
  obtain ⟨opp, rest, hlist, haccepts⟩ := sample_found
  refine twoUpdates_executed sampleConfig firstMarket secondMarket opp rest ?_ haccepts rfl
  rw [show sampleConfig.risk.minProfitLamports = 1 from rfl,
    show sampleConfig.maxHops = 4 from rfl, show sampleConfig.anchorMints = [keyOf 1] from rfl]
  exact hlist

end Sample

/-! ## The law -/

section Law

variable {F : Type} [F64 F]

/-- Every bundle handed to the executor carries the swaps of its opportunity. -/
def SwapsSubmitted (cfg : PipelineConfig F) (s : PipelineState F) : Prop :=
  ∀ p ∈ s.executed, ∀ tx ∈ p.2.transactions, CarriesSwaps cfg p.1 tx

/-- **NO SUBMITTED TRANSACTION SWAPS ANYTHING**: in every run each accepted
    opportunity becomes a transaction of compute budget and tip alone, so a run
    meets the law only if it executes nothing. -/
theorem executed_swapless (cfg : PipelineConfig F) (cache : AccountCache)
    (events : List PipelineEvent) :
    let s := run cfg (PipelineState.init cfg cache) events
    (∀ p ∈ s.executed, (∃ tx ∈ p.2.transactions, ¬CarriesSwaps cfg p.1 tx) ∧
      ∀ tx ∈ p.2.transactions, ∃ tipAccount tip, tx.instructions =
        computeBudget cfg.sdk p.1 0 ++ [cfg.sdk.transfer cfg.payer tipAccount tip]) ∧
    (SwapsSubmitted cfg s ↔ s.executed = []) := by
  have h := run_allBare cfg cache events
  refine ⟨?_, ?_, ?_⟩
  · intro p hp
    obtain ⟨hbare, hbuilt⟩ := h.executed p hp
    refine ⟨not_carriesSwaps hbare hbuilt, ?_⟩
    obtain ⟨tip, blockhash, tipIndex, htx⟩ := hbuilt
    intro tx hmem
    rw [htx] at hmem
    rw [List.mem_singleton.mp hmem]
    obtain ⟨tipAccount, hinstructions⟩ := buildArbTransaction_bare hbare tip blockhash tipIndex
    exact ⟨tipAccount, tip, hinstructions⟩
  · intro hlaw
    refine List.eq_nil_iff_forall_not_mem.mpr ?_
    intro p hp
    obtain ⟨hbare, hbuilt⟩ := h.executed p hp
    obtain ⟨tx, htx, hnot⟩ := not_carriesSwaps hbare hbuilt
    exact hnot (hlaw p hp tx htx)
  · intro hnil p hp
    rw [hnil] at hp
    exact absurd hp List.not_mem_nil

end Law

open MevExact MevOpportunity in
/-- **A BUNDLE THAT ONLY PAYS THE TIP** is submitted in the sample run. -/
theorem sample_submits_tip_only :
    let s := run sampleConfig (PipelineState.init sampleConfig AccountCache.new)
      (twoUpdates firstMarket secondMarket)
    s.executed ≠ [] ∧ ¬SwapsSubmitted sampleConfig s := by
  refine ⟨sample_executed, ?_⟩
  intro hlaw
  obtain ⟨p, hp⟩ := List.exists_mem_of_ne_nil _ sample_executed
  obtain ⟨hbare, hbuilt⟩ := (run_allBare sampleConfig AccountCache.new _).executed p hp
  obtain ⟨tx, htx, hnot⟩ := not_carriesSwaps hbare hbuilt
  exact hnot (hlaw p hp tx htx)

end MevSubmitted
