import MevBot.Delivery

/-! # What may be executed

    Between a strategy and the block engine stand the filters of the forwarding
    loop, the tip and the bundle.  Whatever the tasks' order of turns, a bundle
    handed to the executor has passed the limits it was found under
    (`executed_cleared`), and goes back to an update that a task received while
    the breaker allowed trades, and processed later (`executed_origin`). -/

namespace MevPipeline

/-! ## Bundles -/

/-- `JitoBundle::new`. -/
def JitoBundle.new (strategy : String) : JitoBundle :=
  { transactions := [], strategy, expectedProfitLamports := 0, tipLamports := 0 }

/-- `JitoBundle::add_transaction`; `none` is its failed assertion. -/
def JitoBundle.addTransaction (b : JitoBundle) (tx : Transaction) : Option JitoBundle :=
  if b.transactions.length < 5 then some { b with transactions := b.transactions ++ [tx] }
  else none

/-- `JitoBundle::is_empty`. -/
def JitoBundle.isEmpty (b : JitoBundle) : Bool := b.transactions.isEmpty

end MevPipeline

namespace MevExecuted

open MevMachine MevTypes MevCache MevStrategy MevLending MevRisk MevTracker MevPipeline MevLedger
open MevOpportunity MevSubmitted MevDelivery
open MevHistory hiding run_concat

/-! ## The executor -/

/-- `Value::get`: the value of a key, null included. -/
def get (key : String) : Json → Option Json
  | .obj fields => fields.lookup key
  | _ => none

/-- `JitoBundleClient::submit_bundle`; `response` is what the block engine answers, and
    `text` prints a value. -/
def submitBundle (text : Json → String) (bundle : JitoBundle) (response : Except String Json) :
    Except String String :=
  if bundle.isEmpty then .error "Cannot submit empty bundle"
  else
    match response with
    | .error e => .error e
    | .ok response =>
        match get "result" response with
        | some result => .ok (result.asStr.getD "unknown")
        | none =>
            match get "error" response with
            | some error => .error ("Jito error: " ++ text error)
            | none => .error ("Unexpected Jito response: " ++ text response)

/-- `Executor::execute`. -/
def execute (dryRun : Bool) (text : Json → String) (bundle : JitoBundle)
    (response : Except String Json) : Except String (Option String) :=
  if dryRun then .ok none else (submitBundle text bundle response).map some

variable {F : Type} [F64 F]

/-- The executor task's turn as `main` writes it; `none` is a panic. -/
def executorTurn (cfg : PipelineConfig F) (text : Json → String) (s : PipelineState F)
    (opp : Opportunity) (blockhash : Except String Hash) (tipIndex : Fin 8)
    (response : Except String Json) (now : Nat) : Option (PipelineState F) :=
  let tip := cfg.risk.calculateTip opp.expectedProfitLamports
  match blockhash with
  | .error _ => some s
  | .ok blockhash => do
      let tx := buildArbTransaction cfg.sdk opp cfg.payer tip 0 blockhash tipIndex
      let bundle ← (JitoBundle.new opp.strategy).addTransaction tx
      let bundle := { bundle with
        expectedProfitLamports := opp.expectedProfitLamports, tipLamports := tip }
      let s := { s with
        pnl := s.pnl.recordBundleSubmitted, executed := s.executed ++ [(opp, bundle)] }
      match execute cfg.dryRun text bundle response with
      | .ok (some bundleId) =>
          some { s with tracker :=
            s.tracker.track bundleId opp.strategy opp.expectedProfitLamports tip now }
      | .ok none => some s
      | .error _ => some s

/-- The bundle an opportunity gets. -/
def bundleFor (cfg : PipelineConfig F) (opp : Opportunity) (blockhash : Hash)
    (tipIndex : Fin 8) : JitoBundle :=
  let tip := cfg.risk.calculateTip opp.expectedProfitLamports
  bundleOf opp (buildArbTransaction cfg.sdk opp cfg.payer tip 0 blockhash tipIndex) tip

/-- **THE EXECUTOR'S TURN NEVER PANICS** and never submits an empty bundle: it is the
    pipeline's turn, on the answer that `submit_bundle` reads off the response. -/
theorem executorTurn_eq (cfg : PipelineConfig F) (text : Json → String) (s : PipelineState F)
    (opp : Opportunity) (blockhash : Except String Hash) (tipIndex : Fin 8)
    (response : Except String Json) (now : Nat) :
    executorTurn cfg text s opp blockhash tipIndex response now =
      some (executeOne cfg s opp blockhash.toOption tipIndex
        (submitBundle text (bundleFor cfg opp (blockhash.toOption.getD (Vector.replicate 32 0))
          tipIndex) response) now) := by
  cases blockhash with
  | error e => rfl
  | ok blockhash =>
      show (match execute cfg.dryRun text (bundleFor cfg opp blockhash tipIndex) response with
        | .ok (some bundleId) => _
        | .ok none => _
        | .error _ => _) = some (executeOne cfg s opp (some blockhash) tipIndex
          (submitBundle text (bundleFor cfg opp blockhash tipIndex) response) now)
      simp only [execute, executeOne]
      generalize submitBundle text (bundleFor cfg opp blockhash tipIndex) response = answer
      cases hdry : cfg.dryRun with
      | true => rfl
      | false =>
          cases answer with
          | ok bundleId => rfl
          | error e => rfl

/-! ## What was executed -/

/-- A turn executes nothing, or one bundle built for its opportunity. -/
theorem step_executed (cfg : PipelineConfig F) (s : PipelineState F) (event : PipelineEvent) :
    (step cfg s event).executed = s.executed ∨
      ∃ opp blockhash tipIndex,
        (step cfg s event).executed =
          s.executed ++ [(opp, bundleFor cfg opp blockhash tipIndex)] := by
  cases event with
  | execute blockhash tipIndex answer now =>
      cases hchannel : s.channel with
      | nil =>
          rw [step_execute_nil cfg s _ _ _ _ hchannel]
          exact Or.inl rfl
      | cons opp rest =>
          rw [step_execute_cons cfg s _ _ _ _ hchannel]
          cases blockhash with
          | none => exact Or.inl rfl
          | some blockhash =>
              refine Or.inr ⟨opp, blockhash, tipIndex, ?_⟩
              simp only [executeOne]
              split
              · rfl
              · cases answer with
                | ok bundleId => rfl
                | error message => rfl
  | dexReceive update =>
      left
      rcases step_dexReceive_cases cfg s update with heq | ⟨-, heq⟩
      · rw [heq]
      · rw [heq]
  | dexProcess =>
      left
      rcases step_dexProcess_cases cfg s with heq | ⟨update, -, heq⟩
      · rw [heq]
      · rw [heq]
  | liquidationReceive update =>
      left
      rcases step_liquidationReceive_cases cfg s update with heq | ⟨-, heq⟩
      · rw [heq]
      · rw [heq]
  | liquidationProcess =>
      left
      rcases step_liquidationProcess_cases cfg s with heq | ⟨update, -, heq⟩
      · rw [heq]
      · rw [heq]
  | poll now response recordedAt =>
      left
      rcases step_poll_cases cfg s now response recordedAt with heq | heq
      · rw [heq]
      · rw [heq]
  | cacheUpdate update => exact Or.inl rfl
  | dexCheck => exact Or.inl rfl
  | dexSend => exact Or.inl rfl
  | liquidationCheck => exact Or.inl rfl
  | liquidationSend => exact Or.inl rfl

/-- **EVERY BUNDLE IS BUILT** for the opportunity it is executed for. -/
theorem run_built (cfg : PipelineConfig F) (cache : AccountCache) (events : List PipelineEvent) :
    ∀ p ∈ (run cfg (PipelineState.init cfg cache) events).executed,
      ∃ blockhash tipIndex, p.2 = bundleFor cfg p.1 blockhash tipIndex := by
  induction events using List.reverseRecOn with
  | nil => exact fun p hp => absurd hp List.not_mem_nil
  | append_singleton events event ih =>
      rw [run_concat]
      intro p hp
      rcases step_executed cfg (run cfg (PipelineState.init cfg cache) events) event with
        heq | ⟨opp, blockhash, tipIndex, heq⟩
      · rw [heq] at hp
        exact ih p hp
      · rw [heq] at hp
        rcases List.mem_append.mp hp with hp | hp
        · exact ih p hp
        · rw [List.mem_singleton.mp hp]
          exact ⟨blockhash, tipIndex, rfl⟩

/-- What was executed was found by a task and accepted. -/
theorem executed_found (cfg : PipelineConfig F) (cache : AccountCache)
    (events : List PipelineEvent) {p : Opportunity × JitoBundle}
    (hp : p ∈ (run cfg (PipelineState.init cfg cache) events).executed) :
    cfg.accepts p.1 = true ∧ ∃ lane, p.1 ∈ foundOf cfg cache events lane := by
  obtain ⟨h, hmirrors, hoffered, htaken, hdelivered⟩ := run_records cfg cache events
  have hmem : p.1 ∈ (takenOf cfg cache events).map (·.1) := by
    have hexec := List.mem_map_of_mem (f := (·.1)) hp
    rw [run_executed] at hexec
    obtain ⟨t, ht, heq⟩ := List.mem_map.mp hexec
    exact heq ▸ List.mem_map_of_mem (List.mem_filter.mp ht).1
  rw [← htaken] at hmem
  obtain ⟨x, hx, heq⟩ := List.mem_map.mp hmem
  obtain ⟨hin, hacc⟩ := hdelivered.accepted (List.mem_append_left h.channel hx)
  rw [hoffered] at hin
  exact ⟨heq ▸ hacc, x.1, heq ▸ hin⟩

/-- What a run logs is logged by one of its turns. -/
theorem mem_collect {α : Type} {cfg : PipelineConfig F}
    {emit : PipelineState F → PipelineEvent → List α} {s : PipelineState F}
    {events : List PipelineEvent} {x : α} (h : x ∈ collect cfg emit s events) :
    ∃ before event after,
      events = before ++ event :: after ∧ x ∈ emit (run cfg s before) event := by
  induction events generalizing s with
  | nil => exact absurd h List.not_mem_nil
  | cons event events ih =>
      rcases List.mem_append.mp h with h | h
      · exact ⟨[], event, events, rfl, h⟩
      · obtain ⟨before, event', after, rfl, hx⟩ := ih h
        exact ⟨event :: before, event', after, rfl, hx⟩

/-- What a turn finds, it finds in the update that its task holds. -/
theorem found_cases {cfg : PipelineConfig F} {s : PipelineState F} {event : PipelineEvent}
    {lane : Lane} {batch : List Opportunity} (h : found cfg s event = some (lane, batch)) :
    ∃ update, (outboxOf s lane).unprocessed = some update ∧
      ((event = .dexProcess ∧ lane = .dexArb ∧
        batch = (s.dexArb.processUpdate s.cache update).2) ∨
      (event = .liquidationProcess ∧ lane = .liquidation ∧
        batch = (cfg.liquidation.processUpdate F update).toList)) := by
  rw [found.eq_def] at h
  split at h
  · obtain ⟨update, hupdate, heq⟩ := Option.map_eq_some_iff.mp h
    obtain ⟨rfl, rfl⟩ := Prod.mk.inj heq
    exact ⟨update, hupdate, Or.inl ⟨rfl, rfl, rfl⟩⟩
  · obtain ⟨update, hupdate, heq⟩ := Option.map_eq_some_iff.mp h
    obtain ⟨rfl, rfl⟩ := Prod.mk.inj heq
    exact ⟨update, hupdate, Or.inr ⟨rfl, rfl, rfl⟩⟩
  · cases h

theorem mem_foundBy {cfg : PipelineConfig F} {lane : Lane} {s : PipelineState F}
    {event : PipelineEvent} {opp : Opportunity} (h : opp ∈ foundBy cfg lane s event) :
    ∃ batch, found cfg s event = some (lane, batch) ∧ opp ∈ batch := by
  rw [foundBy] at h
  cases hfound : found cfg s event with
  | none =>
      rw [hfound] at h
      exact absurd h List.not_mem_nil
  | some f =>
      rw [hfound] at h
      by_cases hlane : f.1 = lane
      · rw [Option.filter_some_pos (by simpa using hlane)] at h
        exact ⟨f.2, by rw [← hlane], h⟩
      · rw [Option.filter_some_neg (by simpa using hlane)] at h
        exact absurd h List.not_mem_nil

/-- A turn leaves the strategy as it is, or has it process an update. -/
theorem step_dexArb (cfg : PipelineConfig F) (s : PipelineState F) (event : PipelineEvent) :
    (step cfg s event).dexArb = s.dexArb ∨
      ∃ update, event = .dexProcess ∧ s.dexOutbox.unprocessed = some update ∧
        (step cfg s event).dexArb = (s.dexArb.processUpdate s.cache update).1 := by
  cases event with
  | dexReceive update =>
      left
      rcases step_dexReceive_cases cfg s update with heq | ⟨-, heq⟩
      · rw [heq]
      · rw [heq]
  | dexProcess =>
      rcases step_dexProcess_cases cfg s with heq | ⟨update, hheld, heq⟩
      · exact Or.inl (by rw [heq])
      · exact Or.inr ⟨update, rfl, by rw [hheld]; rfl, by rw [heq]⟩
  | liquidationReceive update =>
      left
      rcases step_liquidationReceive_cases cfg s update with heq | ⟨-, heq⟩
      · rw [heq]
      · rw [heq]
  | liquidationProcess =>
      left
      rcases step_liquidationProcess_cases cfg s with heq | ⟨update, -, heq⟩
      · rw [heq]
      · rw [heq]
  | execute blockhash tipIndex answer now =>
      left
      cases hchannel : s.channel with
      | nil => rw [step_execute_nil cfg s _ _ _ _ hchannel]
      | cons opp rest =>
          rw [step_execute_cons cfg s _ _ _ _ hchannel]
          cases blockhash with
          | none => rfl
          | some blockhash =>
              simp only [executeOne]
              split
              · rfl
              · cases answer with
                | ok bundleId => rfl
                | error message => rfl
  | poll now response recordedAt =>
      left
      rcases step_poll_cases cfg s now response recordedAt with heq | heq
      · rw [heq]
      · rw [heq]
  | cacheUpdate update => exact Or.inl rfl
  | dexCheck => exact Or.inl rfl
  | dexSend => exact Or.inl rfl
  | liquidationCheck => exact Or.inl rfl
  | liquidationSend => exact Or.inl rfl

/-- The strategy of a running pipeline has processed updates the DEX task received in the
    run, each on the cache of its turn. -/
theorem run_dexArb (cfg : PipelineConfig F) (cache : AccountCache) (events : List PipelineEvent) :
    ∃ us : List CachedUpdate, (run cfg (PipelineState.init cfg cache) events).dexArb =
        (DexArbStrategy.new cfg.risk.minProfitLamports cfg.maxHops cfg.anchorMints :
          DexArbStrategy F).run us ∧
      ∀ u ∈ us, ∃ before after, events = before ++ .dexProcess :: after ∧
        (run cfg (PipelineState.init cfg cache) before).dexOutbox.unprocessed = some u.2 ∧
        u.1 = (run cfg (PipelineState.init cfg cache) before).cache := by
  induction events using List.reverseRecOn with
  | nil => exact ⟨[], rfl, fun u hu => absurd hu List.not_mem_nil⟩
  | append_singleton events event ih =>
      obtain ⟨us, hus, hat⟩ := ih
      have hearlier : ∀ u ∈ us, ∃ before after,
          events ++ [event] = before ++ .dexProcess :: after ∧
            (run cfg (PipelineState.init cfg cache) before).dexOutbox.unprocessed = some u.2 ∧
            u.1 = (run cfg (PipelineState.init cfg cache) before).cache := by
        intro u hu
        obtain ⟨before, after, hsplit, hheld, hcache⟩ := hat u hu
        exact ⟨before, after ++ [event], by rw [hsplit, List.append_assoc]; rfl, hheld, hcache⟩
      rw [run_concat]
      rcases step_dexArb cfg (run cfg (PipelineState.init cfg cache) events) event with
        hsame | ⟨update, rfl, hheld, hstep⟩
      · exact ⟨us, hsame.trans hus, hearlier⟩
      · refine ⟨us ++ [((run cfg (PipelineState.init cfg cache) events).cache, update)], ?_, ?_⟩
        · rw [hstep, hus, MevHistory.run_concat]
        · intro u hu
          rcases List.mem_append.mp hu with hu | hu
          · exact hearlier u hu
          · rw [List.mem_singleton.mp hu]
            exact ⟨events, [], rfl, hheld, rfl⟩

/-! ## The gate -/

/-- The limits a bundle has passed, and how it pays for its place in the block. -/
structure Cleared (cfg : PipelineConfig F) (opp : Opportunity) (bundle : JitoBundle) : Prop where
  profit : cfg.risk.minProfitLamports ≤ opp.expectedProfitLamports
  position : ∀ step, opp.path.head? = some step → step.amountIn ≤ cfg.risk.maxPositionLamports
  pools : ∀ step ∈ opp.path, step.poolAddress ∉ cfg.blacklist.poolAddresses
  mints : ∀ step ∈ opp.path, step.inputMint ∉ cfg.blacklist.tokenMints ∧
    step.outputMint ∉ cfg.blacklist.tokenMints
  copied : bundle.strategy = opp.strategy ∧
    bundle.expectedProfitLamports = opp.expectedProfitLamports
  tip : bundle.tipLamports = cfg.risk.calculateTip opp.expectedProfitLamports
  capped : bundle.tipLamports ≤ max MIN_TIP_LAMPORTS cfg.risk.maxTipLamports
  /-- One transaction, signed by the wallet, that ends with the tip. -/
  paid : ∃ tx, bundle.transactions = [tx] ∧ tx.payer = cfg.payer ∧ ∃ tipIndex : Fin 8,
    tx.instructions.getLast? =
      some (cfg.sdk.transfer cfg.payer (jitoTipAccounts.get tipIndex) bundle.tipLamports)

/-- A tip is at most the larger of the minimum tip and the cap. -/
theorem calculateTip_le (r : RiskLimits F) (profit : Int64) :
    r.calculateTip profit ≤ max MIN_TIP_LAMPORTS r.maxTipLamports := by
  rw [UInt64.le_iff_toNat_le, max_toNat, RiskLimits.calculateTip]
  split
  · exact Nat.le_max_left _ _
  · rw [min_toNat]
    exact (Nat.min_le_right _ _).trans (Nat.le_max_right _ _)

omit [F64 F] in
/-- What the filters accept is within the limits and off the blacklists. -/
theorem accepts_iff (cfg : PipelineConfig F) (opp : Opportunity) :
    cfg.accepts opp = true ↔
      (∀ step ∈ opp.path, step.poolAddress ∉ cfg.blacklist.poolAddresses ∧
        step.inputMint ∉ cfg.blacklist.tokenMints ∧
        step.outputMint ∉ cfg.blacklist.tokenMints) ∧
      cfg.risk.minProfitLamports ≤ opp.expectedProfitLamports ∧
      ∀ step, opp.path.head? = some step →
        step.amountIn ≤ cfg.risk.maxPositionLamports := by
  have hchecked : cfg.blacklist.checkOpportunity opp = true ↔
      ∀ step ∈ opp.path, step.poolAddress ∉ cfg.blacklist.poolAddresses ∧
        step.inputMint ∉ cfg.blacklist.tokenMints ∧
        step.outputMint ∉ cfg.blacklist.tokenMints := by
    simp only [Blacklist.checkOpportunity, Blacklist.isPoolBlacklisted,
      Blacklist.isTokenBlacklisted, List.all_eq_true, Bool.not_eq_true', Bool.or_eq_false_iff,
      decide_eq_false_iff_not]
  have happroved : (cfg.risk.check opp).isApproved = true ↔
      cfg.risk.minProfitLamports ≤ opp.expectedProfitLamports ∧
      ∀ step, opp.path.head? = some step →
        step.amountIn ≤ cfg.risk.maxPositionLamports := by
    rw [RiskLimits.check]
    by_cases hprofit : opp.expectedProfitLamports < cfg.risk.minProfitLamports
    · rw [if_pos hprofit]
      refine ⟨fun h => (by cases h), ?_⟩
      exact fun h => absurd h.1 (Int64.not_le.mpr hprofit)
    · rw [if_neg hprofit]
      cases hhead : opp.path.head? with
      | none =>
          exact ⟨fun _ => ⟨Int64.not_lt.mp hprofit, fun _ h => (by cases h)⟩, fun _ => rfl⟩
      | some step =>
          by_cases hposition : step.amountIn > cfg.risk.maxPositionLamports
          · simp only [if_pos hposition]
            refine ⟨fun h => (by cases h), ?_⟩
            intro h
            exact absurd (h.2 step rfl) (UInt64.not_le.mpr hposition)
          · simp only [if_neg hposition]
            refine ⟨fun _ => ⟨Int64.not_lt.mp hprofit, ?_⟩, fun _ => rfl⟩
            intro step' hstep
            obtain rfl := Option.some.inj hstep
            exact UInt64.not_lt.mp hposition
  rw [PipelineConfig.accepts, Bool.and_eq_true, hchecked, happroved]

theorem bundleFor_paid (cfg : PipelineConfig F) (opp : Opportunity) (blockhash : Hash)
    (tipIndex : Fin 8) :
    ∃ tx, (bundleFor cfg opp blockhash tipIndex).transactions = [tx] ∧ tx.payer = cfg.payer ∧
      tx.instructions.getLast? = some (cfg.sdk.transfer cfg.payer (jitoTipAccounts.get tipIndex)
        (bundleFor cfg opp blockhash tipIndex).tipLamports) :=
  ⟨_, rfl, rfl, List.getLast?_concat⟩

/-- **WHATEVER IS EXECUTED HAS PASSED THE LIMITS**: in every interleaving each bundle handed
    to the executor is for an opportunity above the minimum profit, within the position
    size and clear of both blacklists; it is one transaction of the wallet, and pays the
    tip computed for its profit to a tip account as its last instruction. -/
theorem executed_cleared (cfg : PipelineConfig F) (cache : AccountCache)
    (events : List PipelineEvent) (p : Opportunity × JitoBundle)
    (hp : p ∈ (run cfg (PipelineState.init cfg cache) events).executed) :
    Cleared cfg p.1 p.2 := by
  obtain ⟨hchecked, hprofit, hposition⟩ := (accepts_iff cfg p.1).mp
    (executed_found cfg cache events hp).1
  obtain ⟨blockhash, tipIndex, hbundle⟩ := run_built cfg cache events p hp
  rw [hbundle]
  obtain ⟨tx, htx, hpayer, hlast⟩ := bundleFor_paid cfg p.1 blockhash tipIndex
  exact {
    profit := hprofit
    position := hposition
    pools := fun step hstep => (hchecked step hstep).1
    mints := fun step hstep => (hchecked step hstep).2
    copied := ⟨rfl, rfl⟩
    tip := rfl
    capped := calculateTip_le cfg.risk _
    paid := ⟨tx, htx, hpayer, tipIndex, hlast⟩ }

open MevExact in
/-- The sample run executes a bundle, and that one has passed. -/
theorem sample_cleared :
    ∃ p ∈ (run sampleConfig (PipelineState.init sampleConfig AccountCache.new)
      (twoUpdates firstMarket secondMarket)).executed, Cleared sampleConfig p.1 p.2 := by
  obtain ⟨p, hp⟩ := List.exists_mem_of_ne_nil _ sample_executed
  exact ⟨p, hp, executed_cleared sampleConfig AccountCache.new _ p hp⟩

/-! ## Where it comes from -/

/-- The opportunity the strategy makes of an obligation. -/
structure Offered (s : LiquidationStrategy) (o : ObligationState F)
    (opp : Opportunity) : Prop where
  liquidatable : o.isLiquidatable = true
  bonus : s.minBonusBps ≤ o.liquidationBonusBps
  borrow : s.minBorrowValueUsd ≤ o.totalBorrowUsd
  repay : o.maxLiquidationAmount ≠ 0
  made : opp =
    { strategy := "liquidation_" ++ o.protocol.display
      path := [liquidationStep o o.maxLiquidationAmount]
      expectedProfitLamports := F64.toI64 (F64.ofNat o.maxLiquidationAmount.toNat *
        (F64.ofNat o.liquidationBonusBps.toNat / 10000.0 : F))
      estimatedComputeUnits := 400000
      detectedAtSlot := o.slot }

theorem evaluateObligation_some_iff {s : LiquidationStrategy} {o : ObligationState F}
    {opp : Opportunity} :
    s.evaluateObligation o = some opp ↔ Offered s o opp := by
  rw [LiquidationStrategy.evaluateObligation]
  constructor
  · intro h
    split at h
    · cases h
    · rename_i hliquidatable
      split at h
      · cases h
      · rename_i hbonus
        split at h
        · cases h
        · rename_i hborrow
          dsimp only at h
          split at h
          · cases h
          · rename_i hrepay
            exact ⟨by simpa using hliquidatable, UInt16.not_lt.mp hbonus,
              UInt64.not_lt.mp hborrow, hrepay, (Option.some.inj h).symm⟩
  · rintro ⟨hliquidatable, hbonus, hborrow, hrepay, rfl⟩
    rw [if_neg (by rw [hliquidatable]; exact Bool.false_ne_true),
      if_neg (UInt16.not_lt.mpr hbonus), if_neg (UInt64.not_lt.mpr hborrow)]
    dsimp only
    rw [if_neg hrepay]

/-- A found liquidation is offered on the obligation that an adapter read off the account. -/
theorem processUpdate_offered {s : LiquidationStrategy} {update : AccountUpdate}
    {opp : Opportunity} (h : s.processUpdate F update = some opp) :
    ∃ adapter ∈ lendingAdapters F, ∃ o : ObligationState F, update.owner = adapter.programId ∧
      adapter.decodeObligation update.pubkey update.data = .ok (some o) ∧ Offered s o opp := by
  obtain ⟨o, hfound, heval⟩ := Option.bind_eq_some_iff.mp h
  obtain ⟨adapter, hadapter, hdecoded⟩ := List.exists_of_findSome?_eq_some hfound
  rw [decodeObligationUpdate] at hdecoded
  split at hdecoded
  · rename_i howner
    split at hdecoded
    · rename_i decoded hdecode
      obtain rfl := Option.some.inj hdecoded
      exact ⟨adapter, hadapter, _, howner, hdecode, evaluateObligation_some_iff.mp heval⟩
    · cases hdecoded
  · cases hdecoded

/-- An opportunity read off an obligation account by the adapter of its protocol: below
    health one, with the bonus and the size the strategy asks for. -/
structure Liquidates (F : Type) [F64 F] (s : LiquidationStrategy) (update : AccountUpdate)
    (opp : Opportunity) : Prop where
  decoded : ∃ adapter ∈ lendingAdapters F, ∃ obligation : ObligationState F,
    update.owner = adapter.programId ∧
    adapter.decodeObligation update.pubkey update.data = .ok (some obligation) ∧
    obligation.isLiquidatable = true ∧
    s.minBonusBps ≤ obligation.liquidationBonusBps ∧
    s.minBorrowValueUsd ≤ obligation.totalBorrowUsd ∧
    obligation.maxLiquidationAmount ≠ 0 ∧
    opp.strategy = "liquidation_" ++ obligation.protocol.display ∧
    opp.path = [liquidationStep obligation obligation.maxLiquidationAmount]

theorem processUpdate_liquidates {s : LiquidationStrategy} {update : AccountUpdate}
    {opp : Opportunity} (h : s.processUpdate F update = some opp) :
    Liquidates F s update opp := by
  obtain ⟨adapter, hadapter, o, howner, hdecode, hoffered⟩ := processUpdate_offered h
  obtain rfl := hoffered.made
  exact ⟨adapter, hadapter, o, howner, hdecode, hoffered.liquidatable, hoffered.bonus,
    hoffered.borrow, hoffered.repay, rfl, rfl⟩

end MevExecuted
