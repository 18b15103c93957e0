import Mathlib.Data.List.Nodup
import Mathlib.Data.List.Perm.Subperm
import MevBot.ExecutorLedger
import MevBot.SubmittedSwaps

/-! # Submitted, pending and landed bundles

    The P&L counters, the tracker's queue and the outcomes agree over every run
    of the executor: each Landed outcome is one execution and no other, and
    landed and pending bundles together are at most the executed ones
    (`bundles_accounted`).  The counters are `u64`s, so they show the counts
    modulo `2 ^ 64`. -/

namespace MevAccounts

open MevMachine MevTypes MevCache MevStrategy MevRisk MevTracker MevTrackerLaws MevPipeline
open MevLedger TicketQueue

section Counting

variable {F : Type}

/-! ## Executions counted as landed -/

/-- The books of the tracker calls. -/
def booksOfCalls (calls : List (Nat × TrackerOp)) : Books PendingBundle BundleOutcome :=
  booksOf 64 30 (calls.map (·.2))

/-- The execution a ticket of the tracker belongs to. -/
def executionOf (calls : List (Nat × TrackerOp)) (ticket : Nat) : Nat :=
  ((trackedOf calls)[ticket]?).elim 0 (·.1)

/-- The tickets that landed, with their outcomes. -/
def landedTickets (calls : List (Nat × TrackerOp)) : List (Nat × BundleOutcome) :=
  (booksOfCalls calls).resolved.filter fun r => isLanded r.2

/-- The executions counted as landed, in the order of their outcomes. -/
def countedOf (calls : List (Nat × TrackerOp)) : List Nat :=
  (landedTickets calls).map fun r => executionOf calls r.1

/-- The profit a bundle was submitted with. -/
def submittedProfit (s : PipelineState F) (execution : Nat) : Int64 :=
  (s.executed[execution]?).elim 0 fun p => p.2.expectedProfitLamports

/-- The books of the tracker's calls balance. -/
theorem accounted_calls (calls : List (Nat × TrackerOp)) :
    Accounted Reports (booksOfCalls calls) :=
  accounted_run 64 30 _

/-- The tickets issued are the bundles tracked. -/
theorem issued_calls (calls : List (Nat × TrackerOp)) :
    (booksOfCalls calls).issued = (trackedOf calls).map (·.2) :=
  (issued_run 64 30 _).trans (trackedOf_bundles calls).symm

/-- A resolved ticket is one tracked bundle of one execution. -/
theorem resolved_execution {cfg : PipelineConfig F} {s : PipelineState F}
    {calls : List (Nat × TrackerOp)} {booked : List (BundleOutcome × Nat)}
    (h : Reconciled cfg s calls booked) {r : Nat × BundleOutcome}
    (hr : r ∈ (booksOfCalls calls).resolved) :
    ∃ x p, (trackedOf calls)[r.1]? = some x ∧ s.executed[x.1]? = some p ∧
      SubmittedAs p.2 x.2 ∧ Reports x.2 r.2 := by
  obtain ⟨b, hb, hreports⟩ := (accounted_calls calls).verdicts r hr
  rw [issued_calls, List.getElem?_map] at hb
  obtain ⟨x, hx, rfl⟩ := Option.map_eq_some_iff.mp hb
  obtain ⟨p, hp, hsub⟩ := h.matched x (List.mem_of_getElem? hx)
  exact ⟨x, p, hx, hp, hsub, hreports⟩

/-- Different tickets belong to different executions. -/
theorem executionOf_inj {cfg : PipelineConfig F} {s : PipelineState F}
    {calls : List (Nat × TrackerOp)} {booked : List (BundleOutcome × Nat)}
    (h : Reconciled cfg s calls booked) {r r' : Nat × BundleOutcome}
    (hr : r ∈ (booksOfCalls calls).resolved) (hr' : r' ∈ (booksOfCalls calls).resolved)
    (heq : executionOf calls r.1 = executionOf calls r'.1) : r.1 = r'.1 := by
  obtain ⟨x, -, hx, -⟩ := resolved_execution h hr
  obtain ⟨x', -, hx', -⟩ := resolved_execution h hr'
  rw [executionOf, executionOf, hx, hx'] at heq
  have hlen : r.1 < ((trackedOf calls).map (·.1)).length := by
    rw [List.length_map]
    exact (List.getElem?_eq_some_iff.mp hx).1
  refine (List.getElem?_inj hlen h.tracked_nodup).mp ?_
  rw [List.getElem?_map, List.getElem?_map, hx, hx']
  exact congrArg some heq

/-- No bundle is counted twice. -/
theorem countedOf_nodup {cfg : PipelineConfig F} {s : PipelineState F}
    {calls : List (Nat × TrackerOp)} {booked : List (BundleOutcome × Nat)}
    (h : Reconciled cfg s calls booked) : (countedOf calls).Nodup := by
  have hresolved := (accounted_calls calls).resolved_nodup
  have hlanded : ((landedTickets calls).map (·.1)).Nodup :=
    hresolved.sublist (List.filter_sublist.map _)
  rw [countedOf]
  refine List.Nodup.map_on ?_ (List.Nodup.of_map _ hlanded)
  intro r hr r' hr' heq
  have hticket := executionOf_inj h (List.mem_filter.mp hr).1 (List.mem_filter.mp hr').1 heq
  exact List.inj_on_of_nodup_map hlanded hr hr' hticket

/-- The outcomes the polls of the run returned. -/
theorem resolved_outcomes {cfg : PipelineConfig F} {s : PipelineState F}
    {calls : List (Nat × TrackerOp)} {booked : List (BundleOutcome × Nat)}
    (h : Reconciled cfg s calls booked) :
    (booksOfCalls calls).resolved.map (·.2) = booked.map (·.1) := by
  have hmirror := mirrors_run 64 30 (calls.map (·.2))
  rw [h.tracker] at hmirror
  exact hmirror.outcomes

/-- The polls return final outcomes only. -/
theorem booked_final {cfg : PipelineConfig F} {s : PipelineState F}
    {calls : List (Nat × TrackerOp)} {booked : List (BundleOutcome × Nat)}
    (h : Reconciled cfg s calls booked) {r : BundleOutcome × Nat} (hr : r ∈ booked) :
    (tradeOf r.1).isSome = true := by
  have hmem : r.1 ∈ (booksOfCalls calls).resolved.map (·.2) := by
    rw [resolved_outcomes h]
    exact List.mem_map_of_mem hr
  obtain ⟨t, ht, heq⟩ := List.mem_map.mp hmem
  obtain ⟨x, p, -, -, -, hreports⟩ := resolved_execution h ht
  rw [← heq]
  rcases hreports with hland | ⟨reason, hfail⟩
  · rw [hland]
    rfl
  · rw [hfail]
    rfl

/-- The landed bundles are those the tracker reported. -/
theorem landedTickets_outcomes {cfg : PipelineConfig F} {s : PipelineState F}
    {calls : List (Nat × TrackerOp)} {booked : List (BundleOutcome × Nat)}
    (h : Reconciled cfg s calls booked) :
    (landedTickets calls).map (·.2) = (booked.map (·.1)).filter isLanded := by
  rw [← resolved_outcomes h, List.filter_map]
  rfl

/-- As many as were counted as landed. -/
theorem length_countedOf {cfg : PipelineConfig F} {s : PipelineState F}
    {calls : List (Nat × TrackerOp)} {booked : List (BundleOutcome × Nat)}
    (h : Reconciled cfg s calls booked) :
    (countedOf calls).length = booked.countP fun r => isLanded r.1 := by
  have hlen := congrArg List.length (landedTickets_outcomes h)
  rw [List.length_map, ← List.countP_eq_length_filter, List.countP_map] at hlen
  rw [countedOf, List.length_map]
  exact hlen

/-- What is not landed adds no profit. -/
theorem sum_profitOf (outcomes : List BundleOutcome) :
    (outcomes.map profitOf).sum = ((outcomes.filter isLanded).map profitOf).sum := by
  induction outcomes with
  | nil => rfl
  | cons o os ih =>
      cases o with
      | landed bundleId strategy profit tip =>
          rw [List.filter_cons_of_pos rfl, List.map_cons, List.map_cons, List.sum_cons,
            List.sum_cons, ih]
      | failed bundleId strategy reason => simp [isLanded, profitOf, ih]
      | pending => simp [isLanded, profitOf, ih]

/-- A landed outcome reports the profit its bundle was submitted with. -/
theorem submittedProfit_landed {cfg : PipelineConfig F} {s : PipelineState F}
    {calls : List (Nat × TrackerOp)} {booked : List (BundleOutcome × Nat)}
    (h : Reconciled cfg s calls booked) {r : Nat × BundleOutcome} (hr : r ∈ landedTickets calls) :
    submittedProfit s (executionOf calls r.1) = profitOf r.2 := by
  obtain ⟨hmem, hlanded⟩ := List.mem_filter.mp hr
  obtain ⟨x, p, hx, hp, hsub, hreports⟩ := resolved_execution h hmem
  rw [submittedProfit, executionOf, hx, Option.elim_some, hp, Option.elim_some, ← hsub.profit]
  rcases hreports with hland | ⟨reason, hfail⟩
  · rw [hland]
    rfl
  · rw [hfail] at hlanded
    cases hlanded

/-- The profit counted is that of the counted bundles. -/
theorem sum_countedOf {cfg : PipelineConfig F} {s : PipelineState F}
    {calls : List (Nat × TrackerOp)} {booked : List (BundleOutcome × Nat)}
    (h : Reconciled cfg s calls booked) :
    s.pnl.totalProfitLamports = ((countedOf calls).map (submittedProfit s)).sum := by
  have hprofits : (countedOf calls).map (submittedProfit s) =
      ((landedTickets calls).map (·.2)).map profitOf := by
    rw [countedOf, List.map_map, List.map_map]
    refine List.map_congr_left ?_
    intro r hr
    exact submittedProfit_landed h hr
  rw [hprofits, landedTickets_outcomes h, ← sum_profitOf, h.profit, List.map_map]
  rfl

/-- Landed and pending bundles are tracked, and tracked bundles executed. -/
theorem landed_pending_le {cfg : PipelineConfig F} {s : PipelineState F}
    {calls : List (Nat × TrackerOp)} {booked : List (BundleOutcome × Nat)}
    (h : Reconciled cfg s calls booked) :
    (countedOf calls).length + s.tracker.pendingCount ≤ s.executed.length := by
  have hmirror := mirrors_run 64 30 (calls.map (·.2))
  rw [h.tracker] at hmirror
  have hpending : (booksOfCalls calls).waiting.length = s.tracker.pendingCount := by
    rw [BundleStatusTracker.pendingCount, ← hmirror.pending, List.length_map]
    rfl
  have hlanded : (countedOf calls).length ≤ (booksOfCalls calls).resolved.length := by
    rw [countedOf, List.length_map]
    exact List.length_filter_le _ _
  have hissued : (booksOfCalls calls).issued.length = (trackedOf calls).length := by
    rw [issued_calls, List.length_map]
  have hbalance := (accounted_calls calls).balance
  -- executions are tracked once, so there are no more tracked bundles than executions
  have hsub : (trackedOf calls).map (·.1) ⊆ List.range s.executed.length := by
    intro i hi
    obtain ⟨x, hx, rfl⟩ := List.mem_map.mp hi
    exact List.mem_range.mpr (h.executed_lt hx)
  have htracked := (List.Nodup.subperm h.tracked_nodup hsub).length_le
  rw [List.length_map, List.length_range] at htracked
  omega

/-! ## The law -/

/-- The counters as `u64`s: landed and pending bundles are at most the submitted
    ones, and the landed ones are the Landed outcomes. -/
def CountersBalance (s : PipelineState F) (booked : List (BundleOutcome × Nat)) : Prop :=
  s.pnl.totalBundlesLanded.toNat + s.tracker.pendingCount ≤ s.pnl.totalBundlesSubmitted.toNat ∧
    s.pnl.totalBundlesLanded.toNat = booked.countP fun r => isLanded r.1

/-- `counted` lists the executions whose bundles landed: one for each Landed
    outcome, none twice, and their expected profits are the total profit. -/
structure Accounts (s : PipelineState F) (booked : List (BundleOutcome × Nat))
    (counted : List Nat) : Prop where
  once : counted.Nodup
  executed : ∀ n ∈ counted, n < s.executed.length
  landedOutcomes : counted.length = booked.countP fun r => isLanded r.1
  bounded : counted.length + s.tracker.pendingCount ≤ s.executed.length
  /-- The sum of the expected profits, wrapping as the counter does. -/
  profit : s.pnl.totalProfitLamports = (counted.map (submittedProfit s)).sum
  /-- The counters show the counts modulo `2 ^ 64`. -/
  submitted : s.pnl.totalBundlesSubmitted.toNat = s.executed.length % 2 ^ 64
  landed : s.pnl.totalBundlesLanded.toNat = counted.length % 2 ^ 64

end Counting

section Runs

variable {F : Type} [F64 F]

/-- **THE ACCOUNTS BALANCE** in every state of every run: the landed bundles are
    executions counted once each, with the pending ones they are at most the
    executed ones, their expected profits are the total profit, and up to
    `2 ^ 64` executions the counters say so themselves. -/
theorem bundles_accounted (cfg : PipelineConfig F) (cache : AccountCache)
    (events : List PipelineEvent) :
    let s := run cfg (PipelineState.init cfg cache) events
    (∃ counted, Accounts s (bookedOf cfg cache events) counted) ∧
      (s.executed.length < 2 ^ 64 → CountersBalance s (bookedOf cfg cache events)) := by
  have h := reconciled_run cfg cache events
  have hlen := length_countedOf h
  have hbound := landed_pending_le h
  have hsubmitted := congrArg UInt64.toNat h.submitted
  have hlanded := congrArg UInt64.toNat h.landed
  rw [UInt64.toNat_ofNat'] at hsubmitted hlanded
  refine ⟨⟨countedOf (callsOf cfg cache events), ?_⟩, ?_⟩
  · refine ⟨countedOf_nodup h, ?_, hlen, hbound, sum_countedOf h, hsubmitted, ?_⟩
    · intro n hn
      obtain ⟨r, hr, rfl⟩ := List.mem_map.mp hn
      obtain ⟨x, p, hx, hp, -⟩ := resolved_execution h (List.mem_filter.mp hr).1
      rw [executionOf, hx]
      exact (List.getElem?_eq_some_iff.mp hp).1
    · rw [hlanded, hlen]
  · intro hfew
    -- fewer executions than the counters can hold: nothing has wrapped
    rw [Nat.mod_eq_of_lt (by omega)] at hsubmitted hlanded
    rw [CountersBalance, hsubmitted, hlanded]
    exact ⟨by omega, rfl⟩

/-! ## One liquidation through the pipeline -/

/-- An update goes through the liquidation task into the channel. -/
def enqueue (update : AccountUpdate) : List PipelineEvent :=
  [.liquidationReceive update, .liquidationProcess, .liquidationCheck, .liquidationSend]

/-- And from there to the executor. -/
def submission (update : AccountUpdate) (answer : Except String String) : List PipelineEvent :=
  enqueue update ++
    [.execute (some (Vector.replicate 32 0)) (Fin.last 7) answer 0]

/-- The liquidation task waits for an update, nothing is in the channel and the
    breaker allows trading. -/
structure Ready (s : PipelineState F) : Prop where
  outbox : s.liquidationOutbox = .forwarding [] none
  channel : s.channel = []
  allowed : s.breaker.isAllowed = true

/-- Four turns bring a liquidation to the channel. -/
theorem enqueue_run {cfg : PipelineConfig F} (henabled : cfg.liquidationEnabled = true)
    {update : AccountUpdate} {opp : Opportunity}
    (hopp : cfg.liquidation.processUpdate F update = some opp) (haccepts : cfg.accepts opp = true)
    {s : PipelineState F} (hs : Ready s) :
    run cfg s (enqueue update) = { s with pnl := s.pnl.recordOpportunity, channel := [opp] } := by
  obtain ⟨cache, dexArb, dexOutbox, outbox, channel, breaker, tracker, pnl, executed⟩ := s
  obtain ⟨rfl, rfl, hallowed⟩ := hs
  have hidle : (Outbox.forwarding [] none).idle = true := rfl
  change breaker.isAllowed = true at hallowed
  simp only [run, enqueue, List.foldl_cons, List.foldl_nil, step, henabled, hidle, hallowed,
    Bool.not_true, Bool.or_false, Bool.false_eq_true, if_false, hopp, Option.toList_some,
    Outbox.check_accepted haccepts]
  rfl

/-- One more turn submits it. -/
theorem submission_run {cfg : PipelineConfig F} (henabled : cfg.liquidationEnabled = true)
    {update : AccountUpdate} {opp : Opportunity}
    (hopp : cfg.liquidation.processUpdate F update = some opp) (haccepts : cfg.accepts opp = true)
    {s : PipelineState F} (hs : Ready s) (answer : Except String String) :
    run cfg s (submission update answer) =
      executeOne cfg { s with pnl := s.pnl.recordOpportunity } opp
        (some (Vector.replicate 32 0)) (Fin.last 7) answer 0 := by
  have hchannel : ({ s with pnl := s.pnl.recordOpportunity, channel := [] } : PipelineState F) =
      { s with pnl := s.pnl.recordOpportunity } := by
    rw [← hs.channel]
  rw [submission, run_concat, enqueue_run henabled hopp haccepts hs, ← hchannel]
  rfl

/-- A submission the block engine refuses is counted and leaves nothing behind. -/
theorem refused_submission {cfg : PipelineConfig F} (henabled : cfg.liquidationEnabled = true)
    {update : AccountUpdate} {opp : Opportunity}
    (hopp : cfg.liquidation.processUpdate F update = some opp) (haccepts : cfg.accepts opp = true)
    {s : PipelineState F} (hs : Ready s) (message : String) :
    Ready (run cfg s (submission update (.error message))) ∧
      (run cfg s (submission update (.error message))).tracker = s.tracker ∧
      (run cfg s (submission update (.error message))).executed.length =
        s.executed.length + 1 := by
  rw [submission_run henabled hopp haccepts hs]
  simp only [executeOne, ite_self, true_and]
  exact ⟨⟨hs.outbox, hs.channel, hs.allowed⟩, List.length_append⟩

/-- A submission the block engine takes is counted and tracked. -/
theorem taken_submission (cfg : PipelineConfig F) (henabled : cfg.liquidationEnabled = true)
    (hwet : cfg.dryRun = false) {update : AccountUpdate} {opp : Opportunity}
    (hopp : cfg.liquidation.processUpdate F update = some opp) (haccepts : cfg.accepts opp = true)
    {s : PipelineState F} (hs : Ready s) (bundleId : String) :
    Ready (run cfg s (submission update (.ok bundleId))) ∧
      (run cfg s (submission update (.ok bundleId))).tracker =
        s.tracker.track bundleId opp.strategy opp.expectedProfitLamports
          (cfg.risk.calculateTip opp.expectedProfitLamports) 0 ∧
      (run cfg s (submission update (.ok bundleId))).breaker = s.breaker ∧
      (run cfg s (submission update (.ok bundleId))).executed.length = s.executed.length + 1 := by
  rw [submission_run henabled hopp haccepts hs]
  simp only [executeOne, hwet, Bool.false_eq_true, if_false, true_and]
  exact ⟨⟨hs.outbox, hs.channel, hs.allowed⟩, List.length_append⟩

/-- Any number of refused submissions. -/
theorem refused_submissions (cfg : PipelineConfig F) (henabled : cfg.liquidationEnabled = true)
    {update : AccountUpdate} {opp : Opportunity}
    (hopp : cfg.liquidation.processUpdate F update = some opp) (haccepts : cfg.accepts opp = true)
    {s : PipelineState F} (hs : Ready s) (message : String) (n : Nat) :
    Ready (run cfg s (List.replicate n (submission update (.error message))).flatten) ∧
      (run cfg s (List.replicate n (submission update (.error message))).flatten).tracker =
        s.tracker ∧
      (run cfg s (List.replicate n (submission update (.error message))).flatten).executed.length =
        s.executed.length + n := by
  induction n with
  | zero => exact ⟨hs, by simp [run], by simp [run]⟩
  | succ n ih =>
      obtain ⟨hready, htracker, hexecuted⟩ := ih
      rw [List.replicate_succ', List.flatten_append, run_append, List.flatten_singleton]
      obtain ⟨hready', htracker', hexecuted'⟩ :=
        refused_submission henabled hopp haccepts hready message
      exact ⟨hready', htracker'.trans htracker, by omega⟩

end Runs

/-! ## A sample liquidation -/

section Sample

open MevLending MevExact MevRates MevSubmitted ExactF64

/-- A Kamino obligation account: no deposits, one borrow. -/
def obligationData : List UInt8 :=
  List.replicate 100 0 ++ toLeBytes 4 1 ++ List.replicate 48 0 ++ toLeBytes 16 (2 ^ 40)
    ++ toLeBytes 16 (2 ^ 40) ++ List.replicate 216 0

/-- The update that carries the sample account. -/
def obligationUpdate : AccountUpdate :=
  { pubkey := keyOf 3, slot := 1, data := obligationData, lamports := 0, owner := KAMINO_KLEND }

/-- The one borrow of the account, worth a dollar. -/
def sampleBorrow : LendingPosition := ⟨Pubkey.default, Pubkey.default, 0, 1048576, 1048576⟩

/-- What the account decodes to. -/
noncomputable def sampleObligation (address : Pubkey) : ObligationState ExactF64 :=
  { address, protocol := .kamino, owner := Pubkey.default, deposits := []
    borrows := [sampleBorrow], totalDepositUsd := 0, totalBorrowUsd := 1048576
    healthFactor := healthFactor 0 1048576, maxLiquidationAmount := 524288
    liquidationBonusBps := 250, slot := 0 }

/-- What the decoder reads of the sample account. -/
theorem obligationData_reads :
    obligationData.length = 400 ∧ readPubkey obligationData 64 = .ok Pubkey.default ∧
      readU32 obligationData 96 = .ok 0 ∧ readU32 obligationData 100 = .ok 1 ∧
      parseLiquidity Kamino.usd obligationData 1 104 = .ok [sampleBorrow] := by
  decide +kernel

/-- The sample account has one borrow and no deposits. -/
theorem obligationData_decoded (address : Pubkey) :
    Kamino.decodeObligation address obligationData = .ok (some (sampleObligation address)) := by
  obtain ⟨hlen, howner, hdeposits, hborrows, hrecords⟩ := obligationData_reads
  rw [Kamino.decodeObligation_eq, if_neg (by rw [hlen]; decide)]
  simp [Kamino.OWNER_OFFSET, Kamino.DEPOSITS_LEN_OFFSET, bind, Except.bind, pure, Except.pure,
    howner, hdeposits, hborrows, hrecords, parseCollateral, hlen, sampleObligation, sampleBorrow,
    maxLiquidation, Kamino.KAMINO_LIQUIDATION_BONUS_BPS]

/-- The Kamino adapter decodes it, under its program's key. -/
theorem obligationUpdate_decoded :
    decodeObligationUpdate (KaminoAdapter ExactF64) obligationUpdate =
      some (sampleObligation (keyOf 3)) := by
  have howner : obligationUpdate.owner = (KaminoAdapter ExactF64).programId := rfl
  have hdecoded : (KaminoAdapter ExactF64).decodeObligation obligationUpdate.pubkey
      obligationUpdate.data = .ok (some (sampleObligation (keyOf 3))) := by
    simp only [KaminoAdapter, obligationUpdate]
    exact obligationData_decoded (keyOf 3)
  rw [decodeObligationUpdate, if_pos howner, hdecoded]

/-- A debt without collateral. -/
theorem sampleObligation_liquidatable (address : Pubkey) :
    (sampleObligation address).isLiquidatable = true := by
  have hhealth : (sampleObligation address).healthFactor = fin 0 := by
    show healthFactor 0 1048576 = fin 0
    rw [healthFactor, if_pos (by decide), ofNat_eq, ofNat_eq,
      fin_div _ (Nat.cast_ne_zero.mpr (by decide))]
    norm_num
  have hlt : F64.lt (sampleObligation address).healthFactor 1.0 = true := by
    rw [hhealth, fin_scientific, lt_fin]
    norm_num
  rw [ObligationState.isLiquidatable, hlt]
  rfl

/-- The liquidation of the sample obligation. -/
noncomputable def sampleLiquidation : Opportunity :=
  { strategy := "liquidation_kamino", path := [liquidationStep (sampleObligation (keyOf 3)) 524288]
    expectedProfitLamports := 13107, estimatedComputeUnits := 400000, detectedAtSlot := 0 }

/-- Two and a half percent of half the borrow. -/
theorem sampleProfit :
    (F64.toI64 (F64.ofNat 524288 * (F64.ofNat 250 / 10000.0 : ExactF64)) : Int64) = 13107 := by
  rw [ofNat_eq, ofNat_eq, fin_scientific, fin_div _ (by norm_num), fin_mul]
  show Int64.ofInt (max (-2 ^ 63) (min (trunc _) (2 ^ 63 - 1))) = 13107
  have htrunc : trunc (524288 * (250 / 10000.0) : ℝ) = 13107 := by
    rw [trunc, if_pos (by norm_num), Int.floor_eq_iff]
    norm_num
  norm_num at htrunc ⊢
  rw [htrunc]
  decide

/-- The liquidation task finds it. -/
theorem obligationUpdate_found :
    (⟨200, 100000⟩ : LiquidationStrategy).processUpdate ExactF64 obligationUpdate =
      some sampleLiquidation := by
  rw [LiquidationStrategy.processUpdate, lendingAdapters, List.findSome?_cons,
    obligationUpdate_decoded]
  show LiquidationStrategy.evaluateObligation _ (sampleObligation (keyOf 3)) = _
  rw [LiquidationStrategy.evaluateObligation, sampleObligation_liquidatable]
  show some ({ expectedProfitLamports := _, .. } : Opportunity) = _
  rw [sampleLiquidation, ← sampleProfit]
  rfl

/-- A configuration for which the sample liquidation is good enough. -/
noncomputable def liquidationConfig (maxLossLamports : Int64) : PipelineConfig ExactF64 :=
  { sdk := solanaSdk, payer := keyOf 7
    risk := { maxPositionLamports := 10000000000, minProfitLamports := 1,
              maxTipLamports := 10000, tipFraction := 0.5 }
    blacklist := ⟨[], []⟩, maxHops := 4, anchorMints := [keyOf 1], liquidationEnabled := true
    liquidation := ⟨200, 100000⟩, circuitBreakerWindowSecs := 300
    circuitBreakerMaxLossLamports := maxLossLamports, dryRun := false }

/-- The filters let it through. -/
theorem liquidationConfig_accepts (maxLossLamports : Int64) :
    (liquidationConfig maxLossLamports).accepts sampleLiquidation = true := by
  have hcheck : (liquidationConfig maxLossLamports).risk.check sampleLiquidation = .approved := by
    have hprofit : ¬sampleLiquidation.expectedProfitLamports <
        (liquidationConfig maxLossLamports).risk.minProfitLamports := by
      show ¬(13107 : Int64) < 1
      decide
    rw [RiskLimits.check, if_neg hprofit]
    exact if_neg (show ¬(524288 : UInt64) > 10000000000 from by decide)
  rw [PipelineConfig.accepts, hcheck]
  rfl

theorem min_max_self (t u : UInt64) : min (max t u) u = u := by
  by_cases h : t ≤ u
  · rw [UInt64.max_def, if_pos h, UInt64.min_def, ite_self]
  · rw [UInt64.max_def, if_neg h, UInt64.min_def, if_neg h]

/-- The configuration always tips the minimum. -/
theorem liquidationConfig_tip (maxLossLamports : Int64) :
    (liquidationConfig maxLossLamports).risk.calculateTip
      sampleLiquidation.expectedProfitLamports = 10000 := by
  rw [show sampleLiquidation.expectedProfitLamports = 13107 from rfl, RiskLimits.calculateTip,
    if_neg (by decide)]
  exact min_max_self _ 10000

/-- At the start both tasks are idle and nothing is queued. -/
theorem ready_init (maxLossLamports : Int64) :
    Ready (PipelineState.init (liquidationConfig maxLossLamports) AccountCache.new) :=
  ⟨rfl, rfl, rfl⟩

/-- `2 ^ 64 - 1` submissions the block engine refuses and one it takes. -/
def overflowingRun : List PipelineEvent :=
  (List.replicate (2 ^ 64 - 1) (submission obligationUpdate (.error "refused"))).flatten ++
    submission obligationUpdate (.ok "bundle")

/-- **THE SUBMISSION COUNTER WRAPS**: after `2 ^ 64` submissions one bundle is
    pending and none is submitted. -/
theorem overflowingRun_unbalanced :
    ¬CountersBalance
      (run (liquidationConfig 1000000000)
        (PipelineState.init (liquidationConfig 1000000000) AccountCache.new) overflowingRun)
      (bookedOf (liquidationConfig 1000000000) AccountCache.new overflowingRun) := by
  have hledger := reconciled_run (liquidationConfig 1000000000) AccountCache.new overflowingRun
  have hfound : (liquidationConfig 1000000000).liquidation.processUpdate ExactF64
    obligationUpdate = some sampleLiquidation := obligationUpdate_found
  obtain ⟨hready, htracker, hexecuted⟩ := refused_submissions (liquidationConfig 1000000000) rfl
    hfound (liquidationConfig_accepts _) (ready_init _) "refused" (2 ^ 64 - 1)
  obtain ⟨-, htracker', -, hexecuted'⟩ := taken_submission (liquidationConfig 1000000000)
    rfl rfl hfound (liquidationConfig_accepts _) hready "bundle"
  rw [← run_append] at htracker' hexecuted'
  change (run _ _ overflowingRun).tracker = _ at htracker'
  change (run _ _ overflowingRun).executed.length = _ at hexecuted'
  have hlen : (run (liquidationConfig 1000000000)
      (PipelineState.init (liquidationConfig 1000000000) AccountCache.new)
      overflowingRun).executed.length = 2 ^ 64 := by
    rw [hexecuted', hexecuted]
    rfl
  have hpending : (run (liquidationConfig 1000000000)
      (PipelineState.init (liquidationConfig 1000000000) AccountCache.new)
      overflowingRun).tracker.pendingCount = 1 := by
    rw [htracker', htracker]
    rfl
  have hsubmitted := congrArg UInt64.toNat hledger.submitted
  rw [hlen, UInt64.toNat_ofNat', Nat.mod_self] at hsubmitted
  rintro ⟨hle, -⟩
  rw [hsubmitted, hpending] at hle
  omega

end Sample

end MevAccounts
