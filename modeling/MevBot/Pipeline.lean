import MevBot.RiskControls
import MevBot.StatusTracker
import MevBot.Strategies

/-! # The pipeline

    The tasks of the `mev-bot` binary as one state machine: the cache updater,
    the two strategy tasks, the bounded opportunity channel between them and
    the executor task, which builds a transaction per opportunity, submits it
    and polls for its outcome.  An event is one turn of one task, taken as
    uninterrupted; a strategy task asks the breaker in one turn and processes
    the update in the next, so a trip or a cache update can fall between the
    two.  An event whose task cannot move leaves the state unchanged, so a list
    of events is an arbitrary interleaving. -/

namespace MevPipeline

open MevMachine MevTypes MevCache MevStrategy MevRisk MevTracker

variable {F : Type}

/-! ## Transaction builder -/

/-- The three instruction constructors of the Solana SDK the builder calls. -/
structure SolanaSdk where
  setComputeUnitLimit : UInt32 → Instruction
  setComputeUnitPrice : UInt64 → Instruction
  transfer : Pubkey → Pubkey → UInt64 → Instruction

/-- A blockhash. -/
abbrev Hash := Vector UInt8 32

/-- A signed transaction: its instructions in order, its payer, its blockhash. -/
structure Transaction where
  instructions : List Instruction
  payer : Pubkey
  recentBlockhash : Hash
deriving DecidableEq, Repr

/-- `jito_tip_accounts`. -/
def jitoTipAccounts : Vector Pubkey 8 :=
  #v[⟨#v[120, 82, 28, 177, 121, 206, 187, 133, 137, 181, 86, 162, 213, 236, 148, 210,
      73, 134, 130, 253, 249, 187, 42, 245, 173, 100, 228, 145, 204, 65, 83, 218]⟩,
    ⟨#v[241, 135, 236, 135, 209, 247, 69, 203, 58, 3, 56, 74, 38, 166, 158, 217,
      105, 215, 216, 76, 60, 250, 24, 254, 5, 236, 234, 24, 232, 44, 237, 141]⟩,
    ⟨#v[177, 78, 13, 229, 94, 159, 186, 134, 57, 110, 191, 213, 72, 207, 248, 201,
      32, 17, 234, 199, 183, 91, 170, 155, 45, 156, 106, 134, 245, 161, 113, 65]⟩,
    ⟨#v[136, 241, 255, 163, 162, 223, 230, 23, 189, 196, 227, 87, 50, 81, 163, 34,
      227, 252, 174, 124, 53, 57, 140, 211, 177, 111, 254, 36, 236, 72, 247, 250]⟩,
    ⟨#v[188, 43, 87, 6, 94, 241, 221, 102, 84, 48, 190, 96, 107, 166, 89, 108,
      2, 149, 48, 27, 173, 239, 139, 90, 252, 65, 1, 65, 80, 244, 18, 116]⟩,
    ⟨#v[137, 7, 125, 85, 165, 187, 19, 48, 118, 62, 183, 103, 245, 94, 192, 119,
      180, 26, 13, 7, 95, 125, 225, 215, 63, 186, 202, 60, 99, 213, 84, 113]⟩,
    ⟨#v[191, 151, 27, 89, 16, 139, 91, 133, 160, 79, 176, 147, 241, 226, 27, 78,
      63, 212, 196, 200, 244, 135, 221, 9, 185, 87, 82, 118, 159, 26, 169, 7]⟩,
    ⟨#v[32, 38, 16, 30, 194, 3, 40, 150, 74, 50, 171, 171, 19, 108, 84, 5,
      185, 31, 58, 227, 142, 228, 246, 76, 182, 189, 232, 121, 184, 104, 56, 210]⟩]

/-- The compute-budget prefix: the unit limit, and the price when there is one. -/
def computeBudget (sdk : SolanaSdk) (opportunity : Opportunity)
    (priorityFeeMicrolamports : UInt64) : List Instruction :=
  sdk.setComputeUnitLimit opportunity.estimatedComputeUnits ::
    (if priorityFeeMicrolamports > 0 then [sdk.setComputeUnitPrice priorityFeeMicrolamports]
     else [])

/-- `build_arb_transaction`; `tipIndex` is the random choice of a tip account.
    It never returns an error. -/
def buildArbTransaction (sdk : SolanaSdk) (opportunity : Opportunity) (payer : Pubkey)
    (tipLamports priorityFeeMicrolamports : UInt64) (recentBlockhash : Hash)
    (tipIndex : Fin 8) : Transaction :=
  let tipAccount := jitoTipAccounts[tipIndex]
  { instructions :=
      computeBudget sdk opportunity priorityFeeMicrolamports
        ++ opportunity.path.flatMap (·.instructions)
        ++ [sdk.transfer payer tipAccount tipLamports]
    payer, recentBlockhash }

/-! ## Bundles -/

/-- `JitoBundle`. -/
structure JitoBundle where
  transactions : List Transaction
  strategy : String
  expectedProfitLamports : Int64
  tipLamports : UInt64
deriving DecidableEq, Repr

/-- The bundle the executor task assembles for an opportunity. -/
def bundleOf (opportunity : Opportunity) (tx : Transaction) (tip : UInt64) : JitoBundle :=
  { transactions := [tx], strategy := opportunity.strategy,
    expectedProfitLamports := opportunity.expectedProfitLamports, tipLamports := tip }

/-! ## The state machine -/

/-- What the configuration fixes for the whole session. -/
structure PipelineConfig (F : Type) where
  sdk : SolanaSdk
  payer : Pubkey
  risk : RiskLimits F
  blacklist : Blacklist
  maxHops : Nat
  anchorMints : List Pubkey
  liquidationEnabled : Bool
  liquidation : LiquidationStrategy
  circuitBreakerWindowSecs : Nat
  circuitBreakerMaxLossLamports : Int64
  dryRun : Bool

/-- The capacity of the opportunity channel. -/
def CHANNEL_CAPACITY : Nat := 256

/-- What a strategy task holds between two of its turns. -/
inductive Outbox where
  /-- An update the breaker let through, still to be processed. -/
  | received (update : AccountUpdate)
  /-- The forwarding loop: the opportunities still to check, and the approved
      one it is sending. -/
  | forwarding (queue : List Opportunity) (sending : Option Opportunity)

/-- The update still to process. -/
def Outbox.unprocessed : Outbox → Option AccountUpdate
  | .received update => some update
  | .forwarding _ _ => none

/-- The opportunities still to check. -/
def Outbox.queue : Outbox → List Opportunity
  | .received _ => []
  | .forwarding queue _ => queue

/-- The approved opportunity the task is sending. -/
def Outbox.sending : Outbox → Option Opportunity
  | .received _ => none
  | .forwarding _ sending => sending

/-- The loop is over; the task can receive its next update. -/
def Outbox.idle : Outbox → Bool
  | .forwarding [] none => true
  | _ => false

/-- The tasks' states.  `executed` records every bundle handed to
    `Executor::execute`, with the opportunity it was built from. -/
structure PipelineState (F : Type) where
  cache : AccountCache
  dexArb : DexArbStrategy F
  dexOutbox : Outbox
  liquidationOutbox : Outbox
  channel : List Opportunity
  breaker : CircuitBreaker
  tracker : BundleStatusTracker
  pnl : PnlTracker
  executed : List (Opportunity × JitoBundle)

/-- One turn of one task, with what it reads from outside. -/
inductive PipelineEvent where
  /-- The cache updater applies an update. -/
  | cacheUpdate (update : AccountUpdate)
  /-- The DEX task receives an update and asks the breaker. -/
  | dexReceive (update : AccountUpdate)
  /-- The DEX task processes the update it was let have. -/
  | dexProcess
  /-- The DEX task counts and checks its next opportunity. -/
  | dexCheck
  /-- The DEX task's send completes. -/
  | dexSend
  /-- The liquidation task receives an update and asks the breaker. -/
  | liquidationReceive (update : AccountUpdate)
  /-- The liquidation task processes the update it was let have. -/
  | liquidationProcess
  /-- The liquidation task counts and checks its opportunity. -/
  | liquidationCheck
  /-- The liquidation task's send completes. -/
  | liquidationSend
  /-- The executor takes an opportunity: the blockhash it gets, the tip account
      it draws, the block engine's answer and the clock. -/
  | execute (blockhash : Option Hash) (tipIndex : Fin 8) (answer : Except String String)
      (now : Nat)
  /-- The executor polls: the clock, the response, the clock at each record. -/
  | poll (now : Nat) (response : Except String Json) (recordedAt : Nat → Nat)

/-- The state `main` starts from, on any cache content. -/
def PipelineState.init (cfg : PipelineConfig F) (cache : AccountCache) : PipelineState F :=
  { cache
    dexArb := DexArbStrategy.new cfg.risk.minProfitLamports cfg.maxHops cfg.anchorMints
    dexOutbox := .forwarding [] none, liquidationOutbox := .forwarding [] none, channel := []
    breaker := CircuitBreaker.new cfg.circuitBreakerWindowSecs cfg.circuitBreakerMaxLossLamports
    tracker := BundleStatusTracker.new 64 30
    pnl := PnlTracker.new, executed := [] }

/-- The filters between a strategy and the channel. -/
def PipelineConfig.accepts (cfg : PipelineConfig F) (opp : Opportunity) : Bool :=
  cfg.blacklist.checkOpportunity opp && (cfg.risk.check opp).isApproved

/-- The loop body up to the send: the next opportunity is counted, and dropped
    or taken up for sending. -/
def Outbox.check (cfg : PipelineConfig F) (o : Outbox) (pnl : PnlTracker) : Outbox × PnlTracker :=
  match o.sending, o.queue with
  | none, opp :: rest =>
      (.forwarding rest (if cfg.accepts opp then some opp else none), pnl.recordOpportunity)
  | _, _ => (o, pnl)

/-- The send: completes when the channel has room. -/
def Outbox.send (o : Outbox) (channel : List Opportunity) : Outbox × List Opportunity :=
  match o.sending with
  | some opp =>
      if channel.length < CHANNEL_CAPACITY then (.forwarding o.queue none, channel ++ [opp])
      else (o, channel)
  | none => (o, channel)

/-- The executor's turn on one opportunity. -/
def executeOne [F64 F] (cfg : PipelineConfig F) (s : PipelineState F) (opp : Opportunity)
    (blockhash : Option Hash) (tipIndex : Fin 8) (answer : Except String String) (now : Nat) :
    PipelineState F :=
  let tip := cfg.risk.calculateTip opp.expectedProfitLamports
  match blockhash with
  | none => s
  | some blockhash =>
      let tx := buildArbTransaction cfg.sdk opp cfg.payer tip 0 blockhash tipIndex
      let s := { s with
        pnl := s.pnl.recordBundleSubmitted
        executed := s.executed ++ [(opp, bundleOf opp tx tip)] }
      -- a dry run builds the bundle and counts it, but sends nothing
      if cfg.dryRun then s
      else
        match answer with
        | .ok bundleId =>
            { s with tracker :=
                s.tracker.track bundleId opp.strategy opp.expectedProfitLamports tip now }
        | .error _ => s

/-- The executor's bookkeeping for one outcome. -/
def recordOutcome (now : Nat) (s : PnlTracker × CircuitBreaker) :
    BundleOutcome → PnlTracker × CircuitBreaker
  | .landed _ _ profitLamports tipLamports =>
      (s.1.recordBundleLanded profitLamports tipLamports, s.2.recordTrade profitLamports now)
  | .failed _ _ _ => (s.1, s.2.recordTrade 0 now)
  | .pending => s

/-- The outcome loop; `recordedAt i` is the clock at the `i`-th record. -/
def recordOutcomes (recordedAt : Nat → Nat) (s : PnlTracker × CircuitBreaker)
    (outcomes : List BundleOutcome) : PnlTracker × CircuitBreaker :=
  outcomes.zipIdx.foldl (fun s o => recordOutcome (recordedAt o.2) s o.1) s

/-- One turn of one task. -/
def step [F64 F] (cfg : PipelineConfig F) (s : PipelineState F) : PipelineEvent → PipelineState F
  | .cacheUpdate update => { s with cache := s.cache.update update }
  | .dexReceive update =>
      -- a busy task receives nothing; a tripped breaker drops what it receives
      if !s.dexOutbox.idle || !s.breaker.isAllowed then s
      else { s with dexOutbox := .received update }
  | .dexProcess =>
      match s.dexOutbox with
      | .received update =>
          let (dexArb, opportunities) := s.dexArb.processUpdate s.cache update
          { s with dexArb, dexOutbox := .forwarding opportunities none }
      | .forwarding _ _ => s
  | .dexCheck =>
      let (dexOutbox, pnl) := s.dexOutbox.check cfg s.pnl
      { s with dexOutbox, pnl }
  | .dexSend =>
      let (dexOutbox, channel) := s.dexOutbox.send s.channel
      { s with dexOutbox, channel }
  | .liquidationReceive update =>
      if !cfg.liquidationEnabled || !s.liquidationOutbox.idle || !s.breaker.isAllowed then s
      else { s with liquidationOutbox := .received update }
  | .liquidationProcess =>
      match s.liquidationOutbox with
      | .received update =>
          { s with
            liquidationOutbox :=
              .forwarding (cfg.liquidation.processUpdate F update).toList none }
      | .forwarding _ _ => s
  | .liquidationCheck =>
      let (liquidationOutbox, pnl) := s.liquidationOutbox.check cfg s.pnl
      { s with liquidationOutbox, pnl }
  | .liquidationSend =>
      let (liquidationOutbox, channel) := s.liquidationOutbox.send s.channel
      { s with liquidationOutbox, channel }
  | .execute blockhash tipIndex answer now =>
      match s.channel with
      | [] => s
      | opp :: rest => executeOne cfg { s with channel := rest } opp blockhash tipIndex answer now
  | .poll now response recordedAt =>
      if s.tracker.pendingCount > 0 then
        let (tracker, outcomes) := s.tracker.poll now response
        let (pnl, breaker) := recordOutcomes recordedAt (s.pnl, s.breaker) outcomes
        { s with tracker, pnl, breaker }
      else s

/-- An interleaving of the tasks. -/
def run [F64 F] (cfg : PipelineConfig F) (s : PipelineState F) (events : List PipelineEvent) :
    PipelineState F :=
  events.foldl (step cfg) s

/-! ## What a turn does -/

theorem Outbox.idle_iff {o : Outbox} : o.idle = true ↔ o = .forwarding [] none := by
  rw [Outbox.idle.eq_def]
  split
  · simp
  · simp_all

theorem Outbox.unprocessed_iff {o : Outbox} {update : AccountUpdate} :
    o.unprocessed = some update ↔ o = .received update := by
  cases o with
  | received u => simp [Outbox.unprocessed]
  | forwarding queue sending => simp [Outbox.unprocessed]

/-- A task with no update to process and nothing to forward is idle. -/
theorem Outbox.eq_idle {o : Outbox} (hprocessed : o.unprocessed = none) (hqueue : o.queue = [])
    (hsending : o.sending = none) : o = .forwarding [] none := by
  cases o with
  | received update => cases hprocessed
  | forwarding queue sending => exact congrArg₂ Outbox.forwarding hqueue hsending

/-- A check takes the next opportunity, or there is none to take. -/
theorem Outbox.check_cases (cfg : PipelineConfig F) (o : Outbox) (pnl : PnlTracker) :
    o.check cfg pnl = (o, pnl) ∨
      ∃ opp rest, o = .forwarding (opp :: rest) none ∧
        o.check cfg pnl =
          (.forwarding rest (if cfg.accepts opp then some opp else none),
            pnl.recordOpportunity) := by
  cases o with
  | received update => exact Or.inl rfl
  | forwarding queue sending =>
      cases sending with
      | some opp => exact Or.inl rfl
      | none =>
          cases queue with
          | nil => exact Or.inl rfl
          | cons opp rest => exact Or.inr ⟨opp, rest, rfl, rfl⟩

/-- An accepted opportunity is taken up for sending. -/
theorem Outbox.check_accepted {cfg : PipelineConfig F} {opp : Opportunity}
    (haccepts : cfg.accepts opp = true) (rest : List Opportunity) (pnl : PnlTracker) :
    (Outbox.forwarding (opp :: rest) none).check cfg pnl =
      (.forwarding rest (some opp), pnl.recordOpportunity) := by
  simp only [Outbox.check, Outbox.sending, Outbox.queue, haccepts, if_true]

/-- A send puts the approved opportunity behind the others, or waits. -/
theorem Outbox.send_cases (o : Outbox) (channel : List Opportunity) :
    o.send channel = (o, channel) ∨
      ∃ opp, o.sending = some opp ∧ channel.length < CHANNEL_CAPACITY ∧
        o.send channel = (.forwarding o.queue none, channel ++ [opp]) := by
  rw [Outbox.send]
  split
  · rename_i opp hsending
    split
    · rename_i hroom
      exact Or.inr ⟨opp, hsending, hroom, rfl⟩
    · exact Or.inl rfl
  · exact Or.inl rfl

/-- Forwarding takes up no update. -/
@[simp] theorem Outbox.check_unprocessed (o : Outbox) (cfg : PipelineConfig F)
    (pnl : PnlTracker) : (o.check cfg pnl).1.unprocessed = o.unprocessed := by
  rcases o.check_cases cfg pnl with heq | ⟨opp, rest, rfl, heq⟩
  · rw [heq]
  · rw [heq]
    rfl

@[simp] theorem Outbox.send_unprocessed (o : Outbox) (channel : List Opportunity) :
    (o.send channel).1.unprocessed = o.unprocessed := by
  cases o with
  | received update => rfl
  | forwarding queue sending =>
      rcases (Outbox.forwarding queue sending).send_cases channel with heq | ⟨opp, -, -, heq⟩
      · rw [heq]
      · rw [heq]
        rfl

section Turns

variable {F : Type} [F64 F] (cfg : PipelineConfig F) (s : PipelineState F)

/-- The DEX task drops the update, or keeps it: then it is idle and the breaker
    allows trades. -/
theorem step_dexReceive_cases (update : AccountUpdate) :
    step cfg s (.dexReceive update) = s ∨
      (s.dexOutbox.idle = true ∧ s.breaker.isAllowed = true) ∧
        step cfg s (.dexReceive update) = { s with dexOutbox := .received update } := by
  simp only [step]
  split
  · exact Or.inl rfl
  · rename_i hready
    rw [Bool.or_eq_true, not_or, Bool.not_eq_true', Bool.not_eq_true'] at hready
    exact Or.inr ⟨⟨eq_true_of_ne_false hready.1, eq_true_of_ne_false hready.2⟩, rfl⟩

/-- It processes the update it holds, when it holds one. -/
theorem step_dexProcess_cases :
    step cfg s .dexProcess = s ∨
      ∃ update, s.dexOutbox = .received update ∧
        step cfg s .dexProcess = { s with
          dexArb := (s.dexArb.processUpdate s.cache update).1
          dexOutbox := .forwarding (s.dexArb.processUpdate s.cache update).2 none } := by
  cases houtbox : s.dexOutbox with
  | received update => exact Or.inr ⟨update, rfl, by simp only [step, houtbox]⟩
  | forwarding queue sending => exact Or.inl (by simp only [step, houtbox])

/-- The liquidation task drops the update or keeps it likewise, where it runs. -/
theorem step_liquidationReceive_cases (update : AccountUpdate) :
    step cfg s (.liquidationReceive update) = s ∨
      (s.liquidationOutbox.idle = true ∧ s.breaker.isAllowed = true ∧
        cfg.liquidationEnabled = true) ∧
        step cfg s (.liquidationReceive update) =
          { s with liquidationOutbox := .received update } := by
  simp only [step]
  split
  · exact Or.inl rfl
  · rename_i hready
    rw [Bool.or_eq_true, not_or, Bool.or_eq_true, not_or, Bool.not_eq_true', Bool.not_eq_true',
      Bool.not_eq_true'] at hready
    exact Or.inr ⟨⟨eq_true_of_ne_false hready.1.2, eq_true_of_ne_false hready.2,
      eq_true_of_ne_false hready.1.1⟩, rfl⟩

/-- And processes it likewise. -/
theorem step_liquidationProcess_cases :
    step cfg s .liquidationProcess = s ∨
      ∃ update, s.liquidationOutbox = .received update ∧
        step cfg s .liquidationProcess = { s with
          liquidationOutbox :=
            .forwarding (cfg.liquidation.processUpdate F update).toList none } := by
  cases houtbox : s.liquidationOutbox with
  | received update => exact Or.inr ⟨update, rfl, by simp only [step, houtbox]⟩
  | forwarding queue sending => exact Or.inl (by simp only [step, houtbox])

variable (blockhash : Option Hash) (tipIndex : Fin 8) (answer : Except String String) (now : Nat)

/-- The executor waits at an empty channel. -/
theorem step_execute_nil (h : s.channel = []) :
    step cfg s (.execute blockhash tipIndex answer now) = s := by
  simp only [step]
  rw [h]

/-- It takes the first opportunity of any other. -/
theorem step_execute_cons {opp : Opportunity} {rest : List Opportunity}
    (h : s.channel = opp :: rest) :
    step cfg s (.execute blockhash tipIndex answer now) =
      executeOne cfg { s with channel := rest } opp blockhash tipIndex answer now := by
  simp only [step]
  rw [h]

/-- A poll happens only when bundles are pending, and books what it resolves. -/
theorem step_poll_cases (response : Except String Json) (recordedAt : Nat → Nat) :
    step cfg s (.poll now response recordedAt) = s ∨
      step cfg s (.poll now response recordedAt) = { s with
        tracker := (s.tracker.poll now response).1
        pnl := (recordOutcomes recordedAt (s.pnl, s.breaker) (s.tracker.poll now response).2).1
        breaker :=
          (recordOutcomes recordedAt (s.pnl, s.breaker) (s.tracker.poll now response).2).2 } := by
  simp only [step]
  split
  · exact Or.inr rfl
  · exact Or.inl rfl

end Turns

end MevPipeline
