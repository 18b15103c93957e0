import MevBot.BundleAccounts
import MevBot.DataFeed
import MevBot.Library.MeetingOrders

/-! # Which races matter

    The tasks share the cache, the opportunity channel and the circuit breaker,
    and are scheduled anyhow.  Turns that do not meet at one of these, nor in one
    task, commute; so a run is determined by seven orders (`run_of_orders`):
    each task's own, and that of the cache updates with what the DEX task processes,
    of the sends with the executor's turns, and of each strategy's receives with
    the polls that feed the breaker.  For the whole bot there are three more, of
    each receiver's reads with the messages of the stream (`bot_of_orders`). -/

namespace MevSchedules

open MevMachine MevTypes MevCache MevStrategy MevRisk MevTracker MevPipeline MevAccounts
open MevFeed MeetingOrders

/-- What two turns can have in common. -/
inductive Meeting where
  /-- The cache: its updater writes it, the DEX task reads it. -/
  | cache
  | dexTask
  | liquidationTask
  /-- The channel, and with it the executor's turns. -/
  | channel
  | executorTask
  /-- The breaker, which polls feed and the DEX task asks. -/
  | dexBreaker
  | liquidationBreaker

/-- The turns that come to a meeting point. -/
def meets : Meeting → PipelineEvent → Bool
  | .cache, .cacheUpdate _ => true
  | .cache, .dexProcess => true
  | .dexTask, .dexReceive _ => true
  | .dexTask, .dexProcess => true
  | .dexTask, .dexCheck => true
  | .dexTask, .dexSend => true
  | .liquidationTask, .liquidationReceive _ => true
  | .liquidationTask, .liquidationProcess => true
  | .liquidationTask, .liquidationCheck => true
  | .liquidationTask, .liquidationSend => true
  | .channel, .dexSend => true
  | .channel, .liquidationSend => true
  | .channel, .execute _ _ _ _ => true
  | .executorTask, .execute _ _ _ _ => true
  | .executorTask, .poll _ _ _ => true
  | .dexBreaker, .dexReceive _ => true
  | .dexBreaker, .poll _ _ _ => true
  | .liquidationBreaker, .liquidationReceive _ => true
  | .liquidationBreaker, .poll _ _ _ => true
  | _, _ => false

variable {F : Type} [F64 F]

/-! ## What a turn reads and writes -/

/-- The DEX task's outbox after a receive. -/
def received (breaker : CircuitBreaker) (outbox : Outbox) (update : AccountUpdate) : Outbox :=
  if !outbox.idle || !breaker.isAllowed then outbox else .received update

/-- The DEX task and its outbox after it processed what it holds. -/
def dexProcessed (cache : AccountCache) (dexArb : DexArbStrategy F) :
    Outbox → DexArbStrategy F × Outbox
  | .received update =>
      ((dexArb.processUpdate cache update).1,
        .forwarding (dexArb.processUpdate cache update).2 none)
  | .forwarding queue sending => (dexArb, .forwarding queue sending)

/-- The liquidation task's outbox after a receive. -/
def receivedLiquidation (cfg : PipelineConfig F) (breaker : CircuitBreaker) (outbox : Outbox)
    (update : AccountUpdate) : Outbox :=
  if !cfg.liquidationEnabled || !outbox.idle || !breaker.isAllowed then outbox
  else .received update

/-- And after it processed what it holds. -/
def liquidationProcessed (cfg : PipelineConfig F) : Outbox → Outbox
  | .received update => .forwarding (cfg.liquidation.processUpdate F update).toList none
  | .forwarding queue sending => .forwarding queue sending

/-- A loop has an opportunity to count. -/
def counts (o : Outbox) : Bool := o.sending.isNone && !o.queue.isEmpty

/-- A loop after a check. -/
def checked (cfg : PipelineConfig F) (o : Outbox) : Outbox := (o.check cfg PnlTracker.new).1

/-- An opportunity is counted or not. -/
def countIf (b : Bool) (p : PnlTracker) : PnlTracker := if b then p.recordOpportunity else p

/-- What the executor submits of the first opportunity in the channel. -/
def submitted (cfg : PipelineConfig F) (channel : List Opportunity) (blockhash : Option Hash)
    (tipIndex : Fin 8) : Option (Opportunity × JitoBundle) :=
  channel.head?.bind fun opp => blockhash.map fun blockhash =>
    let tip := cfg.risk.calculateTip opp.expectedProfitLamports
    (opp, bundleOf opp (buildArbTransaction cfg.sdk opp cfg.payer tip 0 blockhash tipIndex) tip)

/-- The tracker after a submission. -/
def trackedAfter (cfg : PipelineConfig F) (t : BundleStatusTracker)
    (answer : Except String String) (now : Nat) :
    Option (Opportunity × JitoBundle) → BundleStatusTracker
  | none => t
  | some (opp, _) =>
      if cfg.dryRun then t
      else
        match answer with
        | .ok bundleId => t.track bundleId opp.strategy opp.expectedProfitLamports
            (cfg.risk.calculateTip opp.expectedProfitLamports) now
        | .error _ => t

/-- The tracker and the outcomes after a turn that polls if it must. -/
def polled (t : BundleStatusTracker) (now : Nat) (response : Except String Json) :
    BundleStatusTracker × List BundleOutcome :=
  if t.pendingCount > 0 then t.poll now response else (t, [])

omit [F64 F] in
/-- A check decides the outbox by itself, and counts at most one opportunity. -/
theorem check_counts (cfg : PipelineConfig F) (o : Outbox) (pnl : PnlTracker) :
    o.check cfg pnl = (checked cfg o, countIf (counts o) pnl) := by
  cases o with
  | received _ => rfl
  | forwarding queue sending =>
      cases sending with
      | some _ => rfl
      | none =>
          cases queue with
          | nil => rfl
          | cons _ _ => rfl

section Turns

variable (cfg : PipelineConfig F) (s : PipelineState F)

/-- The turn reads the breaker and writes the outbox. -/
theorem dexReceive_eq (update : AccountUpdate) :
    step cfg s (.dexReceive update) = { s with
      dexOutbox := received s.breaker s.dexOutbox update } := by
  simp only [step, received]
  split
  · rfl
  · rfl

/-- The turn reads the cache, and writes the strategy and its outbox. -/
theorem dexProcess_eq : step cfg s .dexProcess = { s with
    dexArb := (dexProcessed s.cache s.dexArb s.dexOutbox).1
    dexOutbox := (dexProcessed s.cache s.dexArb s.dexOutbox).2 } := by
  obtain ⟨cache, dexArb, dexOutbox, liquidationOutbox, channel, breaker, tracker, pnl,
    executed⟩ := s
  cases dexOutbox with
  | received update => rfl
  | forwarding queue sending => rfl

/-- The turn writes its outbox, and counts. -/
theorem dexCheck_eq : step cfg s .dexCheck = { s with
    dexOutbox := checked cfg s.dexOutbox
    pnl := countIf (counts s.dexOutbox) s.pnl } := by
  simp only [step]
  rw [check_counts]

/-- The turn reads the breaker and writes the outbox. -/
theorem liquidationReceive_eq (update : AccountUpdate) :
    step cfg s (.liquidationReceive update) = { s with
      liquidationOutbox := receivedLiquidation cfg s.breaker s.liquidationOutbox update } := by
  simp only [step, receivedLiquidation]
  split
  · rfl
  · rfl

/-- The turn writes its outbox alone: a liquidation is read off the update. -/
theorem liquidationProcess_eq : step cfg s .liquidationProcess = { s with
    liquidationOutbox := liquidationProcessed cfg s.liquidationOutbox } := by
  obtain ⟨cache, dexArb, dexOutbox, liquidationOutbox, channel, breaker, tracker, pnl,
    executed⟩ := s
  cases liquidationOutbox with
  | received update => rfl
  | forwarding queue sending => rfl

/-- The turn writes its outbox, and counts. -/
theorem liquidationCheck_eq : step cfg s .liquidationCheck = { s with
    liquidationOutbox := checked cfg s.liquidationOutbox
    pnl := countIf (counts s.liquidationOutbox) s.pnl } := by
  simp only [step]
  rw [check_counts]

/-- The turn takes from the channel, and writes the tracker and the counts. -/
theorem execute_eq (blockhash : Option Hash) (tipIndex : Fin 8)
    (answer : Except String String) (now : Nat) :
    step cfg s (.execute blockhash tipIndex answer now) = { s with
      channel := s.channel.tail
      pnl := if (submitted cfg s.channel blockhash tipIndex).isSome then
        s.pnl.recordBundleSubmitted else s.pnl
      tracker := trackedAfter cfg s.tracker answer now
        (submitted cfg s.channel blockhash tipIndex)
      executed := s.executed ++ (submitted cfg s.channel blockhash tipIndex).toList } := by
  obtain ⟨cache, dexArb, dexOutbox, liquidationOutbox, channel, breaker, tracker, pnl,
    executed⟩ := s
  cases channel with
  | nil =>
      show _ = PipelineState.mk _ _ _ _ _ _ _ _ (executed ++ [])
      rw [List.append_nil]
      rfl
  | cons opp rest =>
      cases blockhash with
      | none =>
          show _ = PipelineState.mk _ _ _ _ _ _ _ _ (executed ++ [])
          rw [List.append_nil]
          rfl
      | some hash =>
          simp only [step, executeOne, submitted, trackedAfter, List.head?_cons,
            Option.bind_some, Option.map_some, Option.isSome_some, if_true]
          cases cfg.dryRun with
          | true => rfl
          | false =>
              cases answer with
              | ok bundleId => rfl
              | error text => rfl

/-- The turn writes the tracker, the counts and the breaker. -/
theorem poll_eq (now : Nat) (response : Except String Json) (recordedAt : Nat → Nat) :
    step cfg s (.poll now response recordedAt) = { s with
      tracker := (polled s.tracker now response).1
      pnl := (recordOutcomes recordedAt (s.pnl, s.breaker) (polled s.tracker now response).2).1
      breaker :=
        (recordOutcomes recordedAt (s.pnl, s.breaker) (polled s.tracker now response).2).2 } := by
  simp only [step, polled]
  split
  · rfl
  · rfl

end Turns

/-! ## The P&L is counted in any order -/

/-- Counts commute. -/
theorem countIf_comm (b c : Bool) (p : PnlTracker) :
    countIf b (countIf c p) = countIf c (countIf b p) := by
  cases b with
  | false => rfl
  | true =>
      cases c with
      | false => rfl
      | true => rfl

/-- Opportunities and submissions are counted apart. -/
theorem countIf_submitted (b : Bool) {c : Prop} [Decidable c] (p : PnlTracker) :
    (if c then (countIf b p).recordBundleSubmitted else countIf b p) =
      countIf b (if c then p.recordBundleSubmitted else p) := by
  cases b with
  | false => rfl
  | true =>
      split
      · rfl
      · rfl

/-- Opportunities and outcomes are counted apart. -/
theorem recordOutcomes_countIf (recordedAt : Nat → Nat) (b : Bool) (pnl : PnlTracker)
    (breaker : CircuitBreaker) (outcomes : List BundleOutcome) :
    recordOutcomes recordedAt (countIf b pnl, breaker) outcomes =
      (countIf b (recordOutcomes recordedAt (pnl, breaker) outcomes).1,
        (recordOutcomes recordedAt (pnl, breaker) outcomes).2) := by
  have hcount : ∀ (p : PnlTracker) (c : CircuitBreaker) (o : BundleOutcome × Nat),
      recordOutcome (recordedAt o.2) (countIf b p, c) o.1 =
        (countIf b (recordOutcome (recordedAt o.2) (p, c) o.1).1,
          (recordOutcome (recordedAt o.2) (p, c) o.1).2) := by
    rintro p c ⟨outcome, i⟩
    cases b with
    | false => rfl
    | true =>
        cases outcome with
        | landed _ _ _ _ => rfl
        | failed _ _ _ => rfl
        | pending => rfl
  rw [recordOutcomes, recordOutcomes]
  generalize outcomes.zipIdx = records
  induction records generalizing pnl breaker with
  | nil => rfl
  | cons record records ih =>
      rw [List.foldl_cons, List.foldl_cons, hcount, ih]

/-! ## Turns apart commute -/

section Commute

variable (cfg : PipelineConfig F)

/-- Two turns end in the same state in either order. -/
def Commute (a b : PipelineEvent) : Prop :=
  ∀ s : PipelineState F, step cfg (step cfg s a) b = step cfg (step cfg s b) a

variable {cfg}

/-- In either order. -/
theorem Commute.symm {a b : PipelineEvent} (h : Commute cfg a b) : Commute cfg b a :=
  fun s => (h s).symm

/-- Only the DEX task reads the cache. -/
theorem cacheUpdate_commute (update : AccountUpdate) {b : PipelineEvent}
    (h : Apart meets (.cacheUpdate update) b) : Commute cfg (.cacheUpdate update) b := by
  intro s
  cases b with
  | cacheUpdate _ => exact h.elim .cache rfl rfl
  | dexReceive _ => rw [dexReceive_eq, dexReceive_eq]; rfl
  | dexProcess => exact h.elim .cache rfl rfl
  | dexCheck => rw [dexCheck_eq, dexCheck_eq]; rfl
  | dexSend => rfl
  | liquidationReceive _ => rw [liquidationReceive_eq, liquidationReceive_eq]; rfl
  | liquidationProcess => rw [liquidationProcess_eq, liquidationProcess_eq]; rfl
  | liquidationCheck => rw [liquidationCheck_eq, liquidationCheck_eq]; rfl
  | liquidationSend => rfl
  | execute _ _ _ _ => rw [execute_eq, execute_eq]; rfl
  | poll _ _ _ => rw [poll_eq, poll_eq]; rfl

/-- The DEX task's receive leaves the channel, the executor's books and the other task. -/
theorem dexReceive_commute (update : AccountUpdate) {b : PipelineEvent}
    (h : Apart meets (.dexReceive update) b) : Commute cfg (.dexReceive update) b := by
  intro s
  cases b with
  | cacheUpdate update => exact (cacheUpdate_commute update h.symm s).symm
  | dexReceive _ => exact h.elim .dexTask rfl rfl
  | dexProcess => exact h.elim .dexTask rfl rfl
  | dexCheck => exact h.elim .dexTask rfl rfl
  | dexSend => exact h.elim .dexTask rfl rfl
  | liquidationReceive _ =>
      rw [liquidationReceive_eq, liquidationReceive_eq, dexReceive_eq, dexReceive_eq]
  | liquidationProcess =>
      rw [liquidationProcess_eq, liquidationProcess_eq, dexReceive_eq, dexReceive_eq]
  | liquidationCheck =>
      rw [liquidationCheck_eq, liquidationCheck_eq, dexReceive_eq, dexReceive_eq]
  | liquidationSend => rw [dexReceive_eq, dexReceive_eq]; rfl
  | execute _ _ _ _ => rw [execute_eq, execute_eq, dexReceive_eq, dexReceive_eq]
  | poll _ _ _ => exact h.elim .dexBreaker rfl rfl

/-- What it processes, it reads in the cache and nowhere else. -/
theorem dexProcess_commute {b : PipelineEvent} (h : Apart meets .dexProcess b) :
    Commute cfg .dexProcess b := by
  intro s
  cases b with
  | cacheUpdate _ => exact h.elim .cache rfl rfl
  | dexReceive _ => exact h.elim .dexTask rfl rfl
  | dexProcess => exact h.elim .dexTask rfl rfl
  | dexCheck => exact h.elim .dexTask rfl rfl
  | dexSend => exact h.elim .dexTask rfl rfl
  | liquidationReceive _ =>
      rw [liquidationReceive_eq, liquidationReceive_eq, dexProcess_eq, dexProcess_eq]
  | liquidationProcess =>
      rw [liquidationProcess_eq, liquidationProcess_eq, dexProcess_eq, dexProcess_eq]
  | liquidationCheck =>
      rw [liquidationCheck_eq, liquidationCheck_eq, dexProcess_eq, dexProcess_eq]
  | liquidationSend => rw [dexProcess_eq, dexProcess_eq]; rfl
  | execute _ _ _ _ => rw [execute_eq, execute_eq, dexProcess_eq, dexProcess_eq]
  | poll _ _ _ => rw [poll_eq, poll_eq, dexProcess_eq, dexProcess_eq]

/-- The DEX task's check meets only its own turns. -/
theorem dexCheck_commute {b : PipelineEvent} (h : Apart meets .dexCheck b) :
    Commute cfg .dexCheck b := by
  intro s
  cases b with
  | cacheUpdate update => exact (cacheUpdate_commute update h.symm s).symm
  | dexReceive _ => exact h.elim .dexTask rfl rfl
  | dexProcess => exact h.elim .dexTask rfl rfl
  | dexCheck => exact h.elim .dexTask rfl rfl
  | dexSend => exact h.elim .dexTask rfl rfl
  | liquidationReceive _ =>
      rw [liquidationReceive_eq, liquidationReceive_eq, dexCheck_eq, dexCheck_eq]
  | liquidationProcess =>
      rw [liquidationProcess_eq, liquidationProcess_eq, dexCheck_eq, dexCheck_eq]
  | liquidationCheck =>
      rw [liquidationCheck_eq, liquidationCheck_eq, dexCheck_eq, dexCheck_eq, countIf_comm]
  | liquidationSend => rw [dexCheck_eq, dexCheck_eq]; rfl
  | execute _ _ _ _ =>
      rw [execute_eq, execute_eq, dexCheck_eq, dexCheck_eq, countIf_submitted]
  | poll _ _ _ => rw [poll_eq, poll_eq, dexCheck_eq, dexCheck_eq, recordOutcomes_countIf]

/-- Its send meets those of the channel as well. -/
theorem dexSend_commute {b : PipelineEvent} (h : Apart meets .dexSend b) :
    Commute cfg .dexSend b := by
  intro s
  cases b with
  | cacheUpdate update => exact (cacheUpdate_commute update h.symm s).symm
  | dexReceive _ => exact h.elim .dexTask rfl rfl
  | dexProcess => exact h.elim .dexTask rfl rfl
  | dexCheck => exact h.elim .dexTask rfl rfl
  | dexSend => exact h.elim .dexTask rfl rfl
  | liquidationReceive _ => rw [liquidationReceive_eq, liquidationReceive_eq]; rfl
  | liquidationProcess => rw [liquidationProcess_eq, liquidationProcess_eq]; rfl
  | liquidationCheck => rw [liquidationCheck_eq, liquidationCheck_eq]; rfl
  | liquidationSend => exact h.elim .channel rfl rfl
  | execute _ _ _ _ => exact h.elim .channel rfl rfl
  | poll _ _ _ => rw [poll_eq, poll_eq]; rfl

/-- The liquidation task's receive meets its own turns and the breaker's. -/
theorem liquidationReceive_commute (update : AccountUpdate) {b : PipelineEvent}
    (h : Apart meets (.liquidationReceive update) b) :
    Commute cfg (.liquidationReceive update) b := by
  intro s
  cases b with
  | cacheUpdate update => exact (cacheUpdate_commute update h.symm s).symm
  | dexReceive update => exact (dexReceive_commute update h.symm s).symm
  | dexProcess => exact (dexProcess_commute h.symm s).symm
  | dexCheck => exact (dexCheck_commute h.symm s).symm
  | dexSend => exact (dexSend_commute h.symm s).symm
  | liquidationReceive _ => exact h.elim .liquidationTask rfl rfl
  | liquidationProcess => exact h.elim .liquidationTask rfl rfl
  | liquidationCheck => exact h.elim .liquidationTask rfl rfl
  | liquidationSend => exact h.elim .liquidationTask rfl rfl
  | execute _ _ _ _ => rw [execute_eq, execute_eq, liquidationReceive_eq, liquidationReceive_eq]
  | poll _ _ _ => exact h.elim .liquidationBreaker rfl rfl

/-- Processing a liquidation meets only the task's own turns. -/
theorem liquidationProcess_commute {b : PipelineEvent} (h : Apart meets .liquidationProcess b) :
    Commute cfg .liquidationProcess b := by
  intro s
  cases b with
  | cacheUpdate update => exact (cacheUpdate_commute update h.symm s).symm
  | dexReceive update => exact (dexReceive_commute update h.symm s).symm
  | dexProcess => exact (dexProcess_commute h.symm s).symm
  | dexCheck => exact (dexCheck_commute h.symm s).symm
  | dexSend => exact (dexSend_commute h.symm s).symm
  | liquidationReceive _ => exact h.elim .liquidationTask rfl rfl
  | liquidationProcess => exact h.elim .liquidationTask rfl rfl
  | liquidationCheck => exact h.elim .liquidationTask rfl rfl
  | liquidationSend => exact h.elim .liquidationTask rfl rfl
  | execute _ _ _ _ => rw [execute_eq, execute_eq, liquidationProcess_eq, liquidationProcess_eq]
  | poll _ _ _ => rw [poll_eq, poll_eq, liquidationProcess_eq, liquidationProcess_eq]

/-- So does its check. -/
theorem liquidationCheck_commute {b : PipelineEvent} (h : Apart meets .liquidationCheck b) :
    Commute cfg .liquidationCheck b := by
  intro s
  cases b with
  | cacheUpdate update => exact (cacheUpdate_commute update h.symm s).symm
  | dexReceive update => exact (dexReceive_commute update h.symm s).symm
  | dexProcess => exact (dexProcess_commute h.symm s).symm
  | dexCheck => exact (dexCheck_commute h.symm s).symm
  | dexSend => exact (dexSend_commute h.symm s).symm
  | liquidationReceive _ => exact h.elim .liquidationTask rfl rfl
  | liquidationProcess => exact h.elim .liquidationTask rfl rfl
  | liquidationCheck => exact h.elim .liquidationTask rfl rfl
  | liquidationSend => exact h.elim .liquidationTask rfl rfl
  | execute _ _ _ _ =>
      rw [execute_eq, execute_eq, liquidationCheck_eq, liquidationCheck_eq, countIf_submitted]
  | poll _ _ _ =>
      rw [poll_eq, poll_eq, liquidationCheck_eq, liquidationCheck_eq, recordOutcomes_countIf]

/-- Its send meets those of the channel as well. -/
theorem liquidationSend_commute {b : PipelineEvent} (h : Apart meets .liquidationSend b) :
    Commute cfg .liquidationSend b := by
  intro s
  cases b with
  | cacheUpdate update => exact (cacheUpdate_commute update h.symm s).symm
  | dexReceive update => exact (dexReceive_commute update h.symm s).symm
  | dexProcess => exact (dexProcess_commute h.symm s).symm
  | dexCheck => exact (dexCheck_commute h.symm s).symm
  | dexSend => exact h.elim .channel rfl rfl
  | liquidationReceive _ => exact h.elim .liquidationTask rfl rfl
  | liquidationProcess => exact h.elim .liquidationTask rfl rfl
  | liquidationCheck => exact h.elim .liquidationTask rfl rfl
  | liquidationSend => exact h.elim .liquidationTask rfl rfl
  | execute _ _ _ _ => exact h.elim .channel rfl rfl
  | poll _ _ _ => rw [poll_eq, poll_eq]; rfl

/-- **TURNS APART COMMUTE**, in every state. -/
theorem turns_commute {a b : PipelineEvent} (h : Apart meets a b) : Commute cfg a b := by
  cases a with
  | cacheUpdate update => exact cacheUpdate_commute update h
  | dexReceive update => exact dexReceive_commute update h
  | dexProcess => exact dexProcess_commute h
  | dexCheck => exact dexCheck_commute h
  | dexSend => exact dexSend_commute h
  | liquidationReceive update => exact liquidationReceive_commute update h
  | liquidationProcess => exact liquidationProcess_commute h
  | liquidationCheck => exact liquidationCheck_commute h
  | liquidationSend => exact liquidationSend_commute h
  | execute _ _ _ _ =>
      cases b with
      | cacheUpdate update => exact (cacheUpdate_commute update h.symm).symm
      | dexReceive update => exact (dexReceive_commute update h.symm).symm
      | dexProcess => exact (dexProcess_commute h.symm).symm
      | dexCheck => exact (dexCheck_commute h.symm).symm
      | dexSend => exact h.elim .channel rfl rfl
      | liquidationReceive update => exact (liquidationReceive_commute update h.symm).symm
      | liquidationProcess => exact (liquidationProcess_commute h.symm).symm
      | liquidationCheck => exact (liquidationCheck_commute h.symm).symm
      | liquidationSend => exact h.elim .channel rfl rfl
      | execute _ _ _ _ => exact h.elim .channel rfl rfl
      | poll _ _ _ => exact h.elim .executorTask rfl rfl
  | poll _ _ _ =>
      cases b with
      | cacheUpdate update => exact (cacheUpdate_commute update h.symm).symm
      | dexReceive _ => exact h.elim .dexBreaker rfl rfl
      | dexProcess => exact (dexProcess_commute h.symm).symm
      | dexCheck => exact (dexCheck_commute h.symm).symm
      | dexSend => exact (dexSend_commute h.symm).symm
      | liquidationReceive _ => exact h.elim .liquidationBreaker rfl rfl
      | liquidationProcess => exact (liquidationProcess_commute h.symm).symm
      | liquidationCheck => exact (liquidationCheck_commute h.symm).symm
      | liquidationSend => exact (liquidationSend_commute h.symm).symm
      | execute _ _ _ _ => exact h.elim .executorTask rfl rfl
      | poll _ _ _ => exact h.elim .executorTask rfl rfl

omit [F64 F] in
/-- Every turn is at some meeting point. -/
theorem turns_somewhere (a : PipelineEvent) : ∃ meeting, meets meeting a = true := by
  cases a with
  | cacheUpdate _ => exact ⟨.cache, rfl⟩
  | dexReceive _ => exact ⟨.dexTask, rfl⟩
  | dexProcess => exact ⟨.dexTask, rfl⟩
  | dexCheck => exact ⟨.dexTask, rfl⟩
  | dexSend => exact ⟨.dexTask, rfl⟩
  | liquidationReceive _ => exact ⟨.liquidationTask, rfl⟩
  | liquidationProcess => exact ⟨.liquidationTask, rfl⟩
  | liquidationCheck => exact ⟨.liquidationTask, rfl⟩
  | liquidationSend => exact ⟨.liquidationTask, rfl⟩
  | execute _ _ _ _ => exact ⟨.executorTask, rfl⟩
  | poll _ _ _ => exact ⟨.executorTask, rfl⟩

variable (cfg) in
/-- Turns that do not meet can change places, from any state. -/
theorem commuting : Commuting (step cfg) meets :=
  ⟨fun s _ _ hapart => turns_commute hapart s, turns_somewhere⟩

end Commute

/-- **A RUN IS DETERMINED BY SEVEN ORDERS**: two schedules that bring the same turns in the
    same order to every meeting point end in the same state, from whatever state. -/
theorem run_of_orders (cfg : PipelineConfig F) (s : PipelineState F)
    (events events' : List PipelineEvent)
    (h : ∀ meeting, events.filter (meets meeting) = events'.filter (meets meeting)) :
    run cfg s events = run cfg s events' :=
  (commuting cfg).run_eq h s

/-- The liquidation task may run ahead of the cache updater, or wait for it. -/
theorem obligation_reordered :
    run (liquidationConfig 1000000000)
        (PipelineState.init (liquidationConfig 1000000000) AccountCache.new)
        [.cacheUpdate obligationUpdate, .liquidationReceive obligationUpdate,
          .liquidationProcess, .liquidationCheck] =
      run (liquidationConfig 1000000000)
        (PipelineState.init (liquidationConfig 1000000000) AccountCache.new)
        [.liquidationReceive obligationUpdate, .liquidationProcess, .liquidationCheck,
          .cacheUpdate obligationUpdate] := by
  refine run_of_orders _ _ _ _ fun meeting => ?_
  cases meeting with
  | cache => rfl
  | dexTask => rfl
  | liquidationTask => rfl
  | channel => rfl
  | executorTask => rfl
  | dexBreaker => rfl
  | liquidationBreaker => rfl

/-! ## The whole bot -/

/-- With the feed there is also what each receiver reads of the broadcast. -/
inductive BotMeeting where
  | tasks (meeting : Meeting)
  | broadcast (receiver : Receiver)

/-- Where a receiver's task is when it handles an update, whichever that is. -/
def handles : Meeting → Receiver → Bool
  | .cache, .cacheUpdater => true
  | .dexTask, .dexArb => true
  | .dexBreaker, .dexArb => true
  | .liquidationTask, .liquidation => true
  | .liquidationBreaker, .liquidation => true
  | _, _ => false

/-- The turns of the bot that come to a meeting point. -/
def botMeets : BotMeeting → BotEvent → Bool
  | .tasks meeting, .turn event => meets meeting event
  | .tasks meeting, .recv r => handles meeting r
  | .tasks _, .stream _ => false
  | .broadcast _, .stream _ => true
  | .broadcast r, .recv r' => decide (r = r')
  | .broadcast _, .turn _ => false

/-- A received update is a turn of its receiver. -/
theorem meets_handle (meeting : Meeting) (r : Receiver) (u : AccountUpdate) :
    meets meeting (r.handle u) = handles meeting r := by
  cases r with
  | cacheUpdater => cases meeting <;> rfl
  | dexArb => cases meeting <;> rfl
  | liquidation => cases meeting <;> rfl

section Bot

variable (capacity : Nat) (cfg : PipelineConfig F)

/-- A task that does not meet a turn is as ready after it as before. -/
theorem ready_step {s : PipelineState F} {r : Receiver} {event : PipelineEvent}
    (h : ∀ meeting, meets meeting event = true → handles meeting r = false) :
    ready cfg (step cfg s event) r = ready cfg s r := by
  cases r with
  | cacheUpdater => rfl
  | dexArb =>
      cases event with
      | cacheUpdate _ => rfl
      | dexReceive _ => exact Bool.noConfusion (h .dexTask rfl)
      | dexProcess => exact Bool.noConfusion (h .dexTask rfl)
      | dexCheck => exact Bool.noConfusion (h .dexTask rfl)
      | dexSend => exact Bool.noConfusion (h .dexTask rfl)
      | liquidationReceive _ => rw [liquidationReceive_eq]; rfl
      | liquidationProcess => rw [liquidationProcess_eq]; rfl
      | liquidationCheck => rfl
      | liquidationSend => rfl
      | execute _ _ _ _ => rw [execute_eq]; rfl
      | poll _ _ _ => rw [poll_eq]; rfl
  | liquidation =>
      cases event with
      | cacheUpdate _ => rfl
      | dexReceive _ => rw [dexReceive_eq]; rfl
      | dexProcess => rw [dexProcess_eq]; rfl
      | dexCheck => rfl
      | dexSend => rfl
      | liquidationReceive _ => exact Bool.noConfusion (h .liquidationTask rfl)
      | liquidationProcess => exact Bool.noConfusion (h .liquidationTask rfl)
      | liquidationCheck => exact Bool.noConfusion (h .liquidationTask rfl)
      | liquidationSend => exact Bool.noConfusion (h .liquidationTask rfl)
      | execute _ _ _ _ => rw [execute_eq]; rfl
      | poll _ _ _ => rw [poll_eq]; rfl

/-- Turns that do not meet a receiver's leave it as ready as it was. -/
theorem ready_run {s : PipelineState F} {r : Receiver} {events : List PipelineEvent}
    (h : ∀ event ∈ events, ∀ meeting, meets meeting event = true → handles meeting r = false) :
    ready cfg (run cfg s events) r = ready cfg s r := by
  induction events generalizing s with
  | nil => rfl
  | cons event events ih =>
      obtain ⟨hevent, hrest⟩ := List.forall_mem_cons.mp h
      exact (ih hrest).trans (ready_step cfg hevent)

/-- The receivers after one has been asked for an update. -/
def asked (s : BotState F) (r : Receiver) : Receiver → Intake :=
  if ready cfg s.pipeline r then
    Function.update s.intake r ((s.intake r).read capacity s.published)
  else s.intake

/-- A read moves the receiver's position, and hands on what it was told. -/
theorem recv_eq (s : BotState F) (r : Receiver) :
    botStep capacity cfg s (.recv r) = { s with
      intake := asked capacity cfg s r
      pipeline := run cfg s.pipeline (turnsOf capacity cfg s (.recv r)) } := by
  simp only [botStep, asked, turnsOf]
  split
  · rfl
  · rfl

omit [F64 F] in
/-- Every turn that a receiver's update makes is that of its task. -/
theorem turnsOf_handles {s : BotState F} {r : Receiver} {event : PipelineEvent}
    (h : event ∈ turnsOf capacity cfg s (.recv r)) (meeting : Meeting) :
    meets meeting event = handles meeting r := by
  rw [turnsOf] at h
  split at h
  · obtain ⟨u, -, rfl⟩ := List.mem_map.mp h
    exact meets_handle meeting r u
  · exact absurd h List.not_mem_nil

variable {capacity cfg}

/-- A receiver does not notice that another has been asked, if their tasks do not meet. -/
theorem ready_recv {r r' : Receiver} (h : Apart botMeets (.recv r) (.recv r')) (s : BotState F) :
    ready cfg (botStep capacity cfg s (.recv r)).pipeline r' = ready cfg s.pipeline r' := by
  rw [recv_eq]
  refine ready_run cfg fun event hevent meeting hmeets => ?_
  rw [turnsOf_handles capacity cfg hevent] at hmeets
  exact h (.tasks meeting) hmeets

/-- A read moves no other receiver. -/
theorem intake_recv {r r' : Receiver} (hne : r' ≠ r) (s : BotState F) :
    (botStep capacity cfg s (.recv r)).intake r' = s.intake r' := by
  rw [recv_eq]
  show asked capacity cfg s r r' = s.intake r'
  rw [asked]
  split
  · exact Function.update_of_ne hne _ _
  · rfl

/-- A read publishes nothing. -/
theorem published_recv (s : BotState F) (r : Receiver) :
    (botStep capacity cfg s (.recv r)).published = s.published := by
  rw [recv_eq]

/-- So it reads the same. -/
theorem turnsOf_recv {r r' : Receiver} (h : Apart botMeets (.recv r) (.recv r'))
    (hne : r' ≠ r) (s : BotState F) :
    turnsOf capacity cfg (botStep capacity cfg s (.recv r)) (.recv r') =
      turnsOf capacity cfg s (.recv r') := by
  rw [turnsOf, turnsOf, ready_recv h, intake_recv hne, published_recv]

/-- A receiver that does not meet another is told the same before and after it. -/
theorem asked_recv {r r' : Receiver} (h : Apart botMeets (.recv r) (.recv r'))
    (hne : r' ≠ r) (s : BotState F) :
    asked capacity cfg (botStep capacity cfg s (.recv r)) r' =
      if ready cfg s.pipeline r' then
        Function.update (asked capacity cfg s r) r' ((s.intake r').read capacity s.published)
      else asked capacity cfg s r := by
  rw [asked, ready_recv h, intake_recv hne, published_recv, recv_eq]

/-- Two receivers whose tasks do not meet. -/
theorem recv_commute {r r' : Receiver} (h : Apart botMeets (.recv r) (.recv r'))
    (s : BotState F) :
    botStep capacity cfg (botStep capacity cfg s (.recv r)) (.recv r') =
      botStep capacity cfg (botStep capacity cfg s (.recv r')) (.recv r) := by
  have hne : r ≠ r' := by
    rintro rfl
    exact h.elim (.broadcast r) (decide_eq_true rfl) (decide_eq_true rfl)
  have hpipeline : run cfg (run cfg s.pipeline (turnsOf capacity cfg s (.recv r)))
        (turnsOf capacity cfg s (.recv r')) =
      run cfg (run cfg s.pipeline (turnsOf capacity cfg s (.recv r')))
        (turnsOf capacity cfg s (.recv r)) := by
    refine (commuting cfg).stretches ?_ s.pipeline
    intro event hevent event' hevent' meeting hmeets
    rw [turnsOf_handles capacity cfg hevent] at hmeets
    rw [turnsOf_handles capacity cfg hevent']
    exact h (.tasks meeting) hmeets
  have hintake : asked capacity cfg (botStep capacity cfg s (.recv r)) r' =
      asked capacity cfg (botStep capacity cfg s (.recv r')) r := by
    rw [asked_recv h hne.symm, asked_recv h.symm hne, asked, asked]
    split
    · split
      · exact Function.update_comm hne _ _ _
      · rfl
    · rfl
  rw [recv_eq capacity cfg (botStep capacity cfg s (.recv r)),
    recv_eq capacity cfg (botStep capacity cfg s (.recv r')), hintake,
    turnsOf_recv h hne.symm, turnsOf_recv h.symm hne, recv_eq capacity cfg s r,
    recv_eq capacity cfg s r']
  show BotState.mk _ _ _ (run cfg (run cfg s.pipeline _) _) = BotState.mk _ _ _ _
  rw [hpipeline]

/-- A receiver and a turn of another task. -/
theorem turn_recv_commute {event : PipelineEvent} {r : Receiver}
    (h : Apart botMeets (.turn event) (.recv r)) (s : BotState F) :
    botStep capacity cfg (botStep capacity cfg s (.turn event)) (.recv r) =
      botStep capacity cfg (botStep capacity cfg s (.recv r)) (.turn event) := by
  have hmeets : ∀ event' ∈ turnsOf capacity cfg s (.turn event), event' = event := by
    intro event' hevent'
    rw [turnsOf] at hevent'
    split at hevent'
    · exact List.mem_singleton.mp hevent'
    · exact absurd hevent' List.not_mem_nil
  have hready : ready cfg (run cfg s.pipeline (turnsOf capacity cfg s (.turn event))) r =
      ready cfg s.pipeline r := by
    refine ready_run cfg fun event' hevent' meeting hmeeting => ?_
    rw [hmeets event' hevent'] at hmeeting
    exact h (.tasks meeting) hmeeting
  have hturns : turnsOf capacity cfg (botStep capacity cfg s (.turn event)) (.recv r) =
      turnsOf capacity cfg s (.recv r) := by
    show (if ready cfg (run cfg s.pipeline (turnsOf capacity cfg s (.turn event))) r then _
      else _) = _
    rw [hready]
    rfl
  have hasked : asked capacity cfg (botStep capacity cfg s (.turn event)) r =
      asked capacity cfg s r := by
    show (if ready cfg (run cfg s.pipeline (turnsOf capacity cfg s (.turn event))) r then _
      else _) = _
    rw [hready]
    rfl
  have hpipeline : run cfg (run cfg s.pipeline (turnsOf capacity cfg s (.turn event)))
        (turnsOf capacity cfg s (.recv r)) =
      run cfg (run cfg s.pipeline (turnsOf capacity cfg s (.recv r)))
        (turnsOf capacity cfg s (.turn event)) := by
    refine (commuting cfg).stretches ?_ s.pipeline
    intro event' hevent' other hother meeting hmeeting
    rw [hmeets event' hevent'] at hmeeting
    rw [turnsOf_handles capacity cfg hother]
    exact h (.tasks meeting) hmeeting
  rw [recv_eq capacity cfg (botStep capacity cfg s (.turn event)), hturns, hasked, recv_eq]
  show BotState.mk _ _ _ (run cfg (run cfg s.pipeline _) _) = BotState.mk _ _ _ _
  rw [hpipeline]
  rfl

/-- Two turns of tasks. -/
theorem turn_commute {event event' : PipelineEvent}
    (h : Apart botMeets (.turn event) (.turn event')) (s : BotState F) :
    botStep capacity cfg (botStep capacity cfg s (.turn event)) (.turn event') =
      botStep capacity cfg (botStep capacity cfg s (.turn event')) (.turn event) := by
  have hapart : Apart meets event event' := fun meeting hmeeting => h (.tasks meeting) hmeeting
  show BotState.mk s.latestSlot s.published s.intake
      (run cfg (run cfg s.pipeline (if (receiverOf event).isNone then [event] else []))
        (if (receiverOf event').isNone then [event'] else [])) =
    BotState.mk s.latestSlot s.published s.intake
      (run cfg (run cfg s.pipeline (if (receiverOf event').isNone then [event'] else []))
        (if (receiverOf event).isNone then [event] else []))
  split
  · split
    · exact congrArg (BotState.mk s.latestSlot s.published s.intake)
        (turns_commute hapart s.pipeline)
    · rfl
  · rfl

/-- The feed and a turn of a task. -/
theorem stream_turn_commute (item : Option (Option UpdateOneof)) (event : PipelineEvent)
    (s : BotState F) :
    botStep capacity cfg (botStep capacity cfg s (.stream item)) (.turn event) =
      botStep capacity cfg (botStep capacity cfg s (.turn event)) (.stream item) := by
  cases item with
  | none => rfl
  | some msg => rfl

/-- **TURNS OF THE BOT THAT ARE APART COMMUTE**, in every state. -/
theorem bot_commuting (capacity : Nat) (cfg : PipelineConfig F) :
    Commuting (botStep capacity cfg) botMeets := by
  refine ⟨?_, ?_⟩
  · intro s a b h
    cases a with
    | stream item =>
        cases b with
        | stream _ => exact h.elim (.broadcast .dexArb) rfl rfl
        | recv r => exact h.elim (.broadcast r) rfl (decide_eq_true rfl)
        | turn event => exact stream_turn_commute item event s
    | recv r =>
        cases b with
        | stream _ => exact h.elim (.broadcast r) (decide_eq_true rfl) rfl
        | recv _ => exact recv_commute h s
        | turn _ => exact (turn_recv_commute h.symm s).symm
    | turn event =>
        cases b with
        | stream item => exact (stream_turn_commute item event s).symm
        | recv _ => exact turn_recv_commute h s
        | turn _ => exact turn_commute h s
  · intro a
    cases a with
    | stream _ => exact ⟨.broadcast .dexArb, rfl⟩
    | recv r => exact ⟨.broadcast r, decide_eq_true rfl⟩
    | turn event =>
        obtain ⟨meeting, hmeeting⟩ := turns_somewhere event
        exact ⟨.tasks meeting, hmeeting⟩

/-- **A RUN OF THE BOT IS DETERMINED BY TEN ORDERS**: the seven of its tasks, with the
    receives among them, and for each receiver that of its reads with the messages of the
    stream. -/
theorem bot_of_orders (capacity : Nat) (cfg : PipelineConfig F) (events events' : List BotEvent)
    (h : ∀ meeting, events.filter (botMeets meeting) = events'.filter (botMeets meeting)) :
    botRun capacity cfg events = botRun capacity cfg events' :=
  (bot_commuting capacity cfg).run_eq h (BotState.start cfg)

/-- The cache updater and the liquidation task read the same message in either order. -/
theorem obligation_read :
    botRun 4 (liquidationConfig 1000000000)
        [.stream (some (some (messageOf obligationUpdate))), .recv .cacheUpdater,
          .recv .liquidation] =
      botRun 4 (liquidationConfig 1000000000)
        [.stream (some (some (messageOf obligationUpdate))), .recv .liquidation,
          .recv .cacheUpdater] := by
  refine bot_of_orders _ _ _ _ fun meeting => ?_
  cases meeting with
  | tasks meeting =>
      cases meeting with
      | cache => rfl
      | dexTask => rfl
      | liquidationTask => rfl
      | channel => rfl
      | executorTask => rfl
      | dexBreaker => rfl
      | liquidationBreaker => rfl
  | broadcast r =>
      cases r with
      | cacheUpdater => rfl
      | dexArb => rfl
      | liquidation => rfl

end Bot

end MevSchedules
