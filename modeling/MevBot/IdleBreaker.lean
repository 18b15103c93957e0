import Mathlib.Algebra.Order.BigOperators.Group.List
import Mathlib.Algebra.Order.Ring.Int
import MevBot.BreakerLaws
import MevBot.BundleAccounts
import MevBot.ExecutedTrades

/-! # The breaker over a session

    A bundle that lands is booked with the profit it was EXPECTED to make, and a
    bundle that fails with zero: no loss ever reaches the circuit breaker.  Under
    limits that are not negative it stays open in every run (`breaker_idle`); only
    an `i64` overflow of the booked profits could close it. -/

namespace MevIdle

open MevMachine MevTypes MevCache MevStrategy MevRisk MevTracker MevTrackerLaws MevPipeline
open MevLedger MevAccounts MevBreaker MevExecuted

/-! ## Booking profits -/

/-- The exact sum of a list of lamports. -/
def exactSum (xs : List Int64) : Int := (xs.map Int64.toInt).sum

@[simp] theorem exactSum_cons (x : Int64) (xs : List Int64) :
    exactSum (x :: xs) = x.toInt + exactSum xs := rfl

theorem exactSum_le_of_sublist {xs ys : List Int64} (h : xs.Sublist ys)
    (hys : ∀ y ∈ ys, 0 ≤ y.toInt) : exactSum xs ≤ exactSum ys := by
  refine (h.map Int64.toInt).sum_le_sum ?_
  intro a ha
  obtain ⟨y, hy, rfl⟩ := List.mem_map.mp ha
  exact hys y hy

theorem exactSum_nonneg {xs : List Int64} (h : ∀ x ∈ xs, 0 ≤ x.toInt) : 0 ≤ exactSum xs :=
  exactSum_le_of_sublist (List.nil_sublist xs) h

/-- A sum of profits that an `i64` holds is not negative. -/
theorem toInt_sum_nonneg {xs : List Int64} (h : ∀ x ∈ xs, 0 ≤ x.toInt)
    (hfits : exactSum xs < 2 ^ 63) : 0 ≤ xs.sum.toInt := by
  have hnonneg := exactSum_nonneg h
  rw [toInt_sum]
  have hexact : (xs.map Int64.toInt).sum.bmod (2 ^ 64) = exactSum xs :=
    bmod_fits ⟨by rw [exactSum] at hnonneg; omega, hfits⟩
  rw [hexact]
  exact hnonneg

theorem tradeOf_profitOf {o : BundleOutcome} {profit : Int64} (h : tradeOf o = some profit) :
    profitOf o = profit := by
  cases o with
  | landed bundleId strategy profitLamports tipLamports => exact Option.some.inj h
  | failed bundleId strategy reason => exact Option.some.inj h
  | pending => cases h

/-- A breaker that holds profits of the records only, and allows trades. -/
structure Quiet (records : List (BundleOutcome × Nat)) (c : CircuitBreaker) : Prop where
  limit : 0 ≤ c.maxLossLamports.toInt
  trades : (c.trades.map (·.2)).Sublist (records.map fun r => profitOf r.1)
  allowed : c.tripped = false

theorem Quiet.isAllowed {records : List (BundleOutcome × Nat)} {c : CircuitBreaker}
    (h : Quiet records c) : c.isAllowed = true := by
  rw [CircuitBreaker.isAllowed, h.allowed]
  rfl

/-- **ONE RECORD** of a profit leaves the breaker quiet. -/
theorem Quiet.bookTrade {records : List (BundleOutcome × Nat)} {c : CircuitBreaker}
    (h : Quiet records c) {r : BundleOutcome × Nat}
    (hprofits : ∀ x ∈ (records ++ [r]).map (fun r => profitOf r.1), 0 ≤ x.toInt)
    (hfits : exactSum ((records ++ [r]).map fun r => profitOf r.1) < 2 ^ 63) :
    Quiet (records ++ [r]) (bookTrade c r) := by
  rw [MevLedger.bookTrade]
  rw [List.map_append] at hprofits hfits
  cases htrade : tradeOf r.1 with
  | none =>
      refine ⟨h.limit, ?_, h.allowed⟩
      rw [List.map_append]
      exact h.trades.trans (List.sublist_append_left _ _)
  | some profit =>
      rw [Option.elim_some]
      have htrades : ((c.recordTrade profit r.2).trades.map (·.2)).Sublist
          (records.map (fun r => profitOf r.1) ++ [r].map fun r => profitOf r.1) := by
        rw [recordTrade_trades]
        have hkept : (((ageWindow c.window).evict r.2
            (c.trades ++ [(r.2, profit)])).map (·.2)).Sublist
            ((c.trades ++ [(r.2, profit)]).map (·.2)) := (List.dropWhile_sublist _).map _
        refine hkept.trans ?_
        rw [List.map_append]
        refine h.trades.append ?_
        rw [List.map_singleton, List.map_singleton, tradeOf_profitOf htrade]
      refine ⟨?_, ?_, ?_⟩
      · rw [recordTrade_maxLossLamports]
        exact h.limit
      · rw [List.map_append]
        exact htrades
      -- the sum the code compares is a sum of profits: it is not below the limit
      · refine eq_false_of_ne_true ?_
        intro htripped
        rcases (recordTrade_tripped c profit r.2).mp htripped with hold | hloss
        · rw [h.allowed] at hold
          cases hold
        · have hsum := toInt_sum_nonneg
            (fun x hx => hprofits x (htrades.subset hx))
            (lt_of_le_of_lt (exactSum_le_of_sublist htrades hprofits) hfits)
          have hlimit := h.limit
          rw [Int64.lt_iff_toInt_lt, toInt_neg_limit (Int64.lt_iff_toInt_lt.mpr
            (lt_of_lt_of_le (by decide) hlimit))] at hloss
          omega

/-- **ANY RECORDS** of profits leave it quiet. -/
theorem quiet_records (windowSecs : Nat) {maxLossLamports : Int64}
    (hlimit : 0 ≤ maxLossLamports.toInt) (records : List (BundleOutcome × Nat))
    (hprofits : ∀ x ∈ records.map (fun r => profitOf r.1), 0 ≤ x.toInt)
    (hfits : exactSum (records.map fun r => profitOf r.1) < 2 ^ 63) :
    Quiet records
      (records.foldl bookTrade (CircuitBreaker.new windowSecs maxLossLamports)) := by
  induction records using List.reverseRecOn with
  | nil => exact ⟨hlimit, List.nil_sublist _, rfl⟩
  | append_singleton records r ih =>
      have hsub : (records.map fun r => profitOf r.1).Sublist
          ((records ++ [r]).map fun r => profitOf r.1) :=
        (List.sublist_append_left _ _).map _
      rw [List.foldl_append]
      refine (ih ?_ ?_).bookTrade hprofits hfits
      · intro x hx
        exact hprofits x (hsub.subset hx)
      · exact lt_of_le_of_lt (exactSum_le_of_sublist hsub hprofits) hfits

section Runs

variable {F : Type}

/-! ## What is booked -/

/-- The expected profits of the executed opportunities, in order. -/
def executedProfits (s : PipelineState F) : List Int64 :=
  s.executed.map fun p => p.2.expectedProfitLamports

/-- The expected profits, by the number of the execution. -/
theorem executedProfits_eq (s : PipelineState F) :
    executedProfits s = (List.range s.executed.length).map (submittedProfit s) := by
  refine List.ext_getElem? ?_
  intro i
  rw [executedProfits, List.getElem?_map, List.getElem?_map]
  by_cases hi : i < s.executed.length
  · rw [List.getElem?_range hi, List.getElem?_eq_getElem hi, Option.map_some, Option.map_some,
      submittedProfit, List.getElem?_eq_getElem hi]
    rfl
  · rw [List.getElem?_eq_none (by omega), List.getElem?_eq_none (by
      rw [List.length_range]
      omega)]
    rfl

/-- What is not landed adds nothing to the exact sum. -/
theorem exactSum_profitOf (outcomes : List BundleOutcome) :
    exactSum (outcomes.map profitOf) = exactSum ((outcomes.filter isLanded).map profitOf) := by
  induction outcomes with
  | nil => rfl
  | cons o os ih =>
      cases o with
      | landed bundleId strategy profit tip =>
          rw [List.filter_cons_of_pos rfl]
          simp [ih]
      | failed bundleId strategy reason => simp [isLanded, profitOf, ih]
      | pending => simp [isLanded, profitOf, ih]

/-- The profits booked are those of the executions counted as landed. -/
theorem landed_profits {cfg : PipelineConfig F} {s : PipelineState F}
    {calls : List (Nat × TrackerOp)} {booked : List (BundleOutcome × Nat)}
    (h : Reconciled cfg s calls booked) :
    ((booked.map (·.1)).filter isLanded).map profitOf =
      (countedOf calls).map (submittedProfit s) := by
  rw [← landedTickets_outcomes h, countedOf, List.map_map, List.map_map]
  refine List.map_congr_left ?_
  intro r hr
  exact (submittedProfit_landed h hr).symm

/-- **NO MORE PROFIT IS BOOKED THAN WAS EXECUTED**, if no bundle promised a loss. -/
theorem booked_le_executed {cfg : PipelineConfig F} {s : PipelineState F}
    {calls : List (Nat × TrackerOp)} {booked : List (BundleOutcome × Nat)}
    (h : Reconciled cfg s calls booked) (hprofits : ∀ x ∈ executedProfits s, 0 ≤ x.toInt) :
    exactSum (booked.map fun r => profitOf r.1) ≤ exactSum (executedProfits s) := by
  have hsub : countedOf calls ⊆ List.range s.executed.length := by
    intro n hn
    obtain ⟨r, hr, rfl⟩ := List.mem_map.mp hn
    obtain ⟨x, p, hx, hp, -⟩ := resolved_execution h (List.mem_filter.mp hr).1
    rw [executionOf, hx, List.mem_range]
    exact (List.getElem?_eq_some_iff.mp hp).1
  -- the landed executions, each once, are a part of all of them
  obtain ⟨counted, hperm, hpart⟩ := List.Nodup.subperm (countedOf_nodup h) hsub
  have hbooked : exactSum (booked.map fun r => profitOf r.1) =
      exactSum ((countedOf calls).map (submittedProfit s)) := by
    rw [← landed_profits h, ← exactSum_profitOf, List.map_map]
    rfl
  rw [hbooked, executedProfits_eq]
  rw [executedProfits_eq] at hprofits
  calc exactSum ((countedOf calls).map (submittedProfit s))
      = exactSum (counted.map (submittedProfit s)) :=
        (((hperm.map (submittedProfit s)).map Int64.toInt).sum_eq).symm
    _ ≤ exactSum ((List.range s.executed.length).map (submittedProfit s)) :=
        exactSum_le_of_sublist (hpart.map _) hprofits

/-- A booked profit is zero or one that a bundle was executed for. -/
theorem booked_profit {cfg : PipelineConfig F} {s : PipelineState F}
    {calls : List (Nat × TrackerOp)} {booked : List (BundleOutcome × Nat)}
    (h : Reconciled cfg s calls booked) {x : Int64}
    (hx : x ∈ booked.map fun r => profitOf r.1) : x = 0 ∨ x ∈ executedProfits s := by
  obtain ⟨r, hr, rfl⟩ := List.mem_map.mp hx
  have hmem : r.1 ∈ (booksOfCalls calls).resolved.map (·.2) := by
    rw [resolved_outcomes h]
    exact List.mem_map_of_mem hr
  obtain ⟨t, ht, heq⟩ := List.mem_map.mp hmem
  obtain ⟨x, p, -, hp, hsub, hreports⟩ := resolved_execution h ht
  rw [← heq]
  rcases hreports with hland | ⟨reason, hfail⟩
  · rw [hland, profitOf, hsub.profit]
    exact Or.inr (List.mem_map_of_mem (List.mem_of_getElem? hp))
  · rw [hfail]
    exact Or.inl rfl

/-! ## The session -/

variable [F64 F]

/-- Above a floor that is not negative, no executed bundle promises a loss. -/
theorem executedProfits_nonneg (cfg : PipelineConfig F) (cache : AccountCache)
    (events : List PipelineEvent) (hfloor : 0 ≤ cfg.risk.minProfitLamports) :
    ∀ x ∈ executedProfits (run cfg (PipelineState.init cfg cache) events), 0 ≤ x.toInt := by
  intro x hx
  obtain ⟨p, hp, rfl⟩ := List.mem_map.mp hx
  obtain ⟨-, hprofit, -⟩ := (accepts_iff cfg p.1).mp (executed_found cfg cache events hp).1
  obtain ⟨blockhash, tipIndex, hbundle⟩ := run_built cfg cache events p hp
  rw [hbundle]
  exact Int64.le_iff_toInt_le.mp (Int64.le_trans hfloor hprofit)

/-- **THE BREAKER IS NEVER CLOSED**: under a profit floor and a loss limit that are not
    negative, every interleaving leaves the breaker open and its rolling P&L not negative,
    as long as an `i64` holds the sum of the profits the executed bundles promised. -/
theorem breaker_idle (cfg : PipelineConfig F) (cache : AccountCache)
    (events : List PipelineEvent) (hfloor : 0 ≤ cfg.risk.minProfitLamports)
    (hlimit : 0 ≤ cfg.circuitBreakerMaxLossLamports)
    (hfits : exactSum (executedProfits (run cfg (PipelineState.init cfg cache) events)) <
      2 ^ 63) :
    let s := run cfg (PipelineState.init cfg cache) events
    s.breaker.isAllowed = true ∧ ∀ now, 0 ≤ s.breaker.rollingPnl now := by
  have h := reconciled_run cfg cache events
  have hexecuted := executedProfits_nonneg cfg cache events hfloor
  have hprofits : ∀ x ∈ (bookedOf cfg cache events).map (fun r => profitOf r.1),
      0 ≤ x.toInt := by
    intro x hx
    rcases booked_profit h hx with rfl | hx
    · exact Int.le_refl 0
    · exact hexecuted x hx
  have hbooked := lt_of_le_of_lt (booked_le_executed h hexecuted) hfits
  have hquiet := quiet_records cfg.circuitBreakerWindowSecs (Int64.le_iff_toInt_le.mp hlimit)
    (bookedOf cfg cache events) hprofits hbooked
  rw [← h.breaker] at hquiet
  intro s
  refine ⟨hquiet.isAllowed, ?_⟩
  intro now
  have hwindow : ((s.breaker.trades.filter fun t =>
      decide (now - t.1 ≤ s.breaker.window)).map (·.2)).Sublist
      ((bookedOf cfg cache events).map fun r => profitOf r.1) :=
    (List.filter_sublist.map _).trans hquiet.trades
  refine Int64.le_iff_toInt_le.mpr ?_
  exact toInt_sum_nonneg (fun x hx => hprofits x (hwindow.subset hx))
    (lt_of_le_of_lt (exactSum_le_of_sublist hwindow hprofits) hbooked)

end Runs

/-! ## A landed bundle -/

section Sample

/-- One liquidation is submitted, and is reported as confirmed. -/
def landedRun : List PipelineEvent :=
  submission obligationUpdate (.ok "a") ++ [.poll 0 (.ok confirmedResponse) fun _ => 0]

theorem landedRun_profits :
    executedProfits (run (liquidationConfig 1000000000)
      (PipelineState.init (liquidationConfig 1000000000) AccountCache.new) landedRun) =
      [13107] := by
  have henabled : (liquidationConfig 1000000000).liquidationEnabled = true := rfl
  have hsubmitted := submission_run henabled obligationUpdate_found
    (liquidationConfig_accepts _) (ready_init 1000000000) (.ok "a")
  have hpoll : ∀ s : PipelineState MevExact.ExactF64,
      (step (liquidationConfig 1000000000) s
        (.poll 0 (.ok confirmedResponse) fun _ => 0)).executed = s.executed := by
    intro s
    rcases step_poll_cases (liquidationConfig 1000000000) s 0 (.ok confirmedResponse)
      fun _ => 0 with heq | heq
    · rw [heq]
    · rw [heq]
  rw [landedRun, run_concat, executedProfits, hpoll, hsubmitted]
  rfl

/-- A bundle has landed, and the breaker is open. -/
theorem landedRun_open :
    let s := run (liquidationConfig 1000000000)
      (PipelineState.init (liquidationConfig 1000000000) AccountCache.new) landedRun
    s.breaker.isAllowed = true ∧ ∀ now, 0 ≤ s.breaker.rollingPnl now := by
  refine breaker_idle (liquidationConfig 1000000000) AccountCache.new landedRun ?_ ?_ ?_
  · show (0 : Int64) ≤ 1
    decide
  · show (0 : Int64) ≤ 1000000000
    decide
  · rw [landedRun_profits]
    decide

end Sample

end MevIdle
