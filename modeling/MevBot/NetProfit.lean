import MevBot.BreakerLaws
import MevBot.BundleAccounts

/-! # Profit net of tips

    The tip of a landed bundle is counted, but neither ledger subtracts it:
    `net_profit_sol` reports the gross profit and the breaker records the gross
    profit as the trade.  So the two are net of tips exactly in the runs in which
    no landed bundle carries a tip (`net_iff_tipless`). -/

namespace MevNet

open MevMachine MevTypes MevCache MevStrategy MevRisk MevTracker MevTrackerLaws MevPipeline
open MevLedger MevAccounts MevBreaker

variable {F : Type}

/-! ## Net of tips -/

/-- What a landed bundle earned after its tip, as an `i64`. -/
def netOf : BundleOutcome → Int64
  | .landed _ _ profitLamports tipLamports => profitLamports - tipLamports.toInt64
  | _ => 0

/-- The counters and the breaker after a list of records. -/
def ledgers (cfg : PipelineConfig F) (records : List (BundleOutcome × Nat)) :
    PnlTracker × CircuitBreaker :=
  records.foldl (fun s r => recordOutcome r.2 s r.1)
    (PnlTracker.new,
      CircuitBreaker.new cfg.circuitBreakerWindowSecs cfg.circuitBreakerMaxLossLamports)

/-- The records whose trades the breaker's deque holds after one more record. -/
def pushRecord (window : Nat) (held : List (BundleOutcome × Nat)) (r : BundleOutcome × Nat) :
    List (BundleOutcome × Nat) :=
  (held ++ [r]).dropWhile fun x => decide (r.2 - x.2 > window)

/-- The records in the breaker's window after the last one. -/
def heldRecords (cfg : PipelineConfig F) (records : List (BundleOutcome × Nat)) :
    List (BundleOutcome × Nat) :=
  records.foldl (pushRecord (cfg.circuitBreakerWindowSecs * 1000000000)) []

/-- Both ledgers are net of tips after the last of the records: the profit
    counter, and the breaker on the bundles in its window. -/
structure NetOfTips (cfg : PipelineConfig F) (records : List (BundleOutcome × Nat)) : Prop where
  profit : (ledgers cfg records).1.totalProfitLamports = (records.map fun r => netOf r.1).sum
  breaker : ((heldRecords cfg records).map fun r => netOf r.1).sum <
      -cfg.circuitBreakerMaxLossLamports →
    (ledgers cfg records).2.tripped = true

/-! ## What the ledgers hold -/

theorem ledgers_booked (cfg : PipelineConfig F) (records : List (BundleOutcome × Nat)) :
    Booked (PnlTracker.new,
      CircuitBreaker.new cfg.circuitBreakerWindowSecs cfg.circuitBreakerMaxLossLamports) records
      (ledgers cfg records) := by
  have h := foldl_booked (fun r => r.2) records (PnlTracker.new,
    CircuitBreaker.new cfg.circuitBreakerWindowSecs cfg.circuitBreakerMaxLossLamports)
  rw [List.map_id''] at h
  · exact h
  · intro r
    rfl

/-- The profit counter is the GROSS sum. -/
theorem ledgers_profit (cfg : PipelineConfig F) (records : List (BundleOutcome × Nat)) :
    (ledgers cfg records).1.totalProfitLamports = (records.map fun r => profitOf r.1).sum := by
  rw [(ledgers_booked cfg records).profit]
  exact Int64.zero_add _

/-- The last record is booked on what the others left. -/
theorem ledgers_concat (cfg : PipelineConfig F) (records : List (BundleOutcome × Nat))
    (r : BundleOutcome × Nat) :
    ledgers cfg (records ++ [r]) = recordOutcome r.2 (ledgers cfg records) r.1 := by
  rw [ledgers, List.foldl_append]
  rfl

/-- The last record enters the window. -/
theorem heldRecords_concat (cfg : PipelineConfig F) (records : List (BundleOutcome × Nat))
    (r : BundleOutcome × Nat) :
    heldRecords cfg (records ++ [r]) =
      pushRecord (cfg.circuitBreakerWindowSecs * 1000000000) (heldRecords cfg records) r := by
  rw [heldRecords, List.foldl_append]
  rfl

/-- The window holds some of the records. -/
theorem heldRecords_subset (cfg : PipelineConfig F) (records : List (BundleOutcome × Nat)) :
    heldRecords cfg records ⊆ records := by
  induction records using List.reverseRecOn with
  | nil => exact List.Subset.refl []
  | append_singleton records r ih =>
      intro x hx
      rw [heldRecords_concat] at hx
      rcases List.mem_append.mp ((List.dropWhile_sublist _).subset hx) with hx | hx
      · exact List.mem_append_left _ (ih hx)
      · exact List.mem_append_right _ hx

/-- The trade a record is, with its stamp. -/
def stamped (r : BundleOutcome × Nat) : Nat × Int64 := (r.2, profitOf r.1)

theorem recordOutcome_final {now : Nat} {s : PnlTracker × CircuitBreaker} {o : BundleOutcome}
    (h : (tradeOf o).isSome = true) :
    (recordOutcome now s o).2 = s.2.recordTrade (profitOf o) now := by
  cases o with
  | landed bundleId strategy profit tip => rfl
  | failed bundleId strategy reason => rfl
  | pending => cases h

/-- The breaker's deque holds the GROSS profits of the records in its window. -/
structure Holds (cfg : PipelineConfig F) (records : List (BundleOutcome × Nat)) : Prop where
  trades : (ledgers cfg records).2.trades = (heldRecords cfg records).map stamped
  sameWindow : (ledgers cfg records).2.window = cfg.circuitBreakerWindowSecs * 1000000000
  sameLimit : (ledgers cfg records).2.maxLossLamports = cfg.circuitBreakerMaxLossLamports

theorem holds_records (cfg : PipelineConfig F) (records : List (BundleOutcome × Nat))
    (hfinal : ∀ r ∈ records, (tradeOf r.1).isSome = true) : Holds cfg records := by
  induction records using List.reverseRecOn with
  | nil => exact ⟨rfl, rfl, rfl⟩
  | append_singleton records r ih =>
      have h := ih fun x hx => hfinal x (List.mem_append_left _ hx)
      have hr := hfinal r (List.mem_append_right _ (List.mem_singleton_self r))
      refine ⟨?_, ?_, ?_⟩
      · rw [ledgers_concat, heldRecords_concat, recordOutcome_final hr, recordTrade_trades,
          h.trades, h.sameWindow, pushRecord]
        show List.dropWhile _ (_ ++ List.map stamped [r]) = _
        rw [← List.map_append, List.dropWhile_map]
        congr 2
        funext x
        show (!decide (r.2 - x.2 ≤ _)) = decide (r.2 - x.2 > _)
        rw [← decide_not]
        exact decide_eq_decide.mpr Nat.not_le
      · rw [ledgers_concat, recordOutcome_final hr, recordTrade_window]
        exact h.sameWindow
      · rw [ledgers_concat, recordOutcome_final hr, recordTrade_maxLossLamports]
        exact h.sameLimit

/-- After a record, a windowed gross sum below the limit has tripped the breaker. -/
theorem gross_tripped {cfg : PipelineConfig F} {records : List (BundleOutcome × Nat)}
    (hfinal : ∀ r ∈ records, (tradeOf r.1).isSome = true) (hne : records ≠ [])
    (hloss : ((heldRecords cfg records).map fun r => profitOf r.1).sum <
      -cfg.circuitBreakerMaxLossLamports) :
    (ledgers cfg records).2.tripped = true := by
  obtain ⟨before, r, rfl⟩ : ∃ before r, records = before ++ [r] :=
    ⟨records.dropLast, records.getLast hne, (List.dropLast_append_getLast hne).symm⟩
  have h := holds_records cfg _ hfinal
  have hr := hfinal r (List.mem_append_right _ (List.mem_singleton_self r))
  have htrades := h.trades
  have hlimit := h.sameLimit
  rw [ledgers_concat, recordOutcome_final hr] at htrades hlimit ⊢
  refine (recordTrade_tripped _ _ _).mpr (Or.inr ?_)
  rw [recordTrade_maxLossLamports] at hlimit
  rw [htrades, hlimit, List.map_map]
  exact hloss

/-! ## The law -/

/-- Without a tip, net is gross. -/
theorem netOf_tipless {o : BundleOutcome} (h : tipOf o = 0) : netOf o = profitOf o := by
  cases o with
  | landed bundleId strategy profit tip =>
      obtain rfl : tip = 0 := h
      exact Int64.sub_zero profit
  | failed bundleId strategy reason => rfl
  | pending => rfl

/-- With a tip it is not. -/
theorem tipless_of_netOf {o : BundleOutcome} (h : netOf o = profitOf o) : tipOf o = 0 := by
  cases o with
  | landed bundleId strategy profit tip =>
      have hsub : profit - tip.toInt64 = profit - 0 := h.trans (Int64.sub_zero profit).symm
      have hzero : tip.toInt64 = 0 := (Int64.sub_right_inj profit).mp hsub
      exact congrArg Int64.toUInt64 hzero
  | failed bundleId strategy reason => rfl
  | pending => rfl

/-- One more record whose ledgers are net adds no tip. -/
theorem tipless_of_net {cfg : PipelineConfig F} (before : List (BundleOutcome × Nat))
    {r : BundleOutcome × Nat}
    (hbefore : (ledgers cfg before).1.totalProfitLamports = (before.map fun r => netOf r.1).sum)
    (h : NetOfTips cfg (before ++ [r])) : tipOf r.1 = 0 := by
  have hprofit := h.profit
  rw [ledgers_profit, List.map_append, List.map_append, List.sum_append, List.sum_append,
    ← hbefore, ledgers_profit] at hprofit
  have hlast := (Int64.add_right_inj _).mp hprofit
  rw [List.map_singleton, List.map_singleton, List.sum_singleton, List.sum_singleton] at hlast
  exact tipless_of_netOf hlast.symm

/-- **NET OF TIPS EXACTLY WITHOUT TIPS**: in a run of the executor both ledgers
    are net of tips after every record if and only if no bundle that landed in it
    carried a tip. -/
theorem net_iff_tipless [F64 F] (cfg : PipelineConfig F) (cache : AccountCache)
    (events : List PipelineEvent) :
    let s := run cfg (PipelineState.init cfg cache) events
    let records := bookedOf cfg cache events
    (s.pnl.totalProfitLamports = (ledgers cfg records).1.totalProfitLamports ∧
      s.breaker = (ledgers cfg records).2) ∧
    ((∀ before after, records = before ++ after → before ≠ [] → NetOfTips cfg before) ↔
      ∀ r ∈ records, tipOf r.1 = 0) := by
  have hledger := reconciled_run cfg cache events
  have hfinal : ∀ r ∈ bookedOf cfg cache events, (tradeOf r.1).isSome = true :=
    fun r hr => booked_final hledger hr
  refine ⟨⟨?_, ?_⟩, ?_, ?_⟩
  · rw [ledgers_profit]
    exact hledger.profit
  · rw [(ledgers_booked cfg _).breaker]
    exact hledger.breaker
  · intro hnet r hr
    obtain ⟨before, after, hsplit⟩ := List.append_of_mem hr
    refine tipless_of_net before ?_ (hnet (before ++ [r]) after (by simp [hsplit]) ?_)
    · -- before the record the counter is net already: nothing is recorded, or by the law
      by_cases hnil : before = []
      · rw [hnil]
        rfl
      · exact (hnet before (r :: after) hsplit hnil).profit
    · exact List.append_ne_nil_of_right_ne_nil _ (List.cons_ne_nil _ _)
  · intro htipless before after hsplit hne
    have hmem : ∀ r ∈ before, r ∈ bookedOf cfg cache events := by
      intro r hr
      rw [hsplit]
      exact List.mem_append_left _ hr
    refine ⟨?_, ?_⟩
    · rw [ledgers_profit]
      refine congrArg List.sum (List.map_congr_left ?_)
      intro r hr
      exact (netOf_tipless (htipless r (hmem r hr))).symm
    · intro hloss
      refine gross_tripped (fun r hr => hfinal r (hmem r hr)) hne ?_
      have hgross : (heldRecords cfg before).map (fun r => netOf r.1) =
          (heldRecords cfg before).map fun r => profitOf r.1 := by
        refine List.map_congr_left ?_
        intro r hr
        exact netOf_tipless (htipless r (hmem r (heldRecords_subset cfg before hr)))
      rw [← hgross]
      exact hloss

/-! ## A landed bundle with its tip -/

section Sample

open MevExact

/-- The sample liquidation is submitted, and the first poll finds it confirmed. -/
def landedRun : List PipelineEvent :=
  submission obligationUpdate (.ok "a") ++ [.poll 1 (.ok confirmedResponse) fun _ => 0]

theorem landedRun_booked (maxLossLamports : Int64) :
    bookedOf (liquidationConfig maxLossLamports) AccountCache.new landedRun =
      [(.landed "a" "liquidation_kamino" 13107 10000, 0)] := by
  obtain ⟨-, htracker, -, -⟩ := taken_submission (liquidationConfig maxLossLamports) rfl rfl
    obligationUpdate_found (liquidationConfig_accepts _) (ready_init _) "a"
  rw [liquidationConfig_tip] at htracker
  rw [bookedOf, landedRun, collect_concat, booking, htracker]
  -- none of the four turns of the submission books anything
  show [] ++ (if ((BundleStatusTracker.new 64 30).track "a" "liquidation_kamino" 13107 10000
      0).pendingCount > 0 then
    (((BundleStatusTracker.new 64 30).track "a" "liquidation_kamino" 13107 10000 0).poll 1
      (.ok confirmedResponse)).2.zipIdx.map fun o => (o.1, 0)
    else []) = _
  decide

/-- **THE TIP IS REPORTED AS PROFIT**: the bundle earned 3107 lamports after its
    tip, and the ledgers say 13107. -/
theorem landedRun_gross :
    ¬∀ before after, bookedOf (liquidationConfig 1000000000) AccountCache.new landedRun =
        before ++ after → before ≠ [] → NetOfTips (liquidationConfig 1000000000) before := by
  intro hnet
  have h := hnet _ [] (List.append_nil _).symm
    (by rw [landedRun_booked]; exact List.cons_ne_nil _ _)
  have hprofit := h.profit
  rw [ledgers_profit, landedRun_booked] at hprofit
  exact absurd hprofit (by decide)

end Sample

end MevNet
