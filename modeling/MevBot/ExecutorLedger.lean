import Mathlib.Data.List.Induction
import Mathlib.Algebra.BigOperators.Group.List.Basic
import Mathlib.Data.UInt
import MevBot.Pipeline
import MevBot.TrackerLaws

/-! # The executor's ledger

    The executor task keeps three records of its bundles: the tracker's queue,
    the P&L counters and the breaker's trades.  Over any run they are all read
    off one log, the calls of the tracker (`callsOf`) and the outcomes it
    returned with the clock at each record (`bookedOf`). -/

namespace MevLedger

open MevMachine MevTypes MevCache MevStrategy MevRisk MevTracker MevTrackerLaws MevPipeline
open TicketQueue

variable {F : Type} [F64 F]

/-! ## The log of a run -/

/-- What the turns of a run emit, in order. -/
def collect {α : Type} (cfg : PipelineConfig F)
    (emit : PipelineState F → PipelineEvent → List α) (s : PipelineState F) :
    List PipelineEvent → List α
  | [] => []
  | event :: events => emit s event ++ collect cfg emit (step cfg s event) events

/-- The last event of a run. -/
theorem run_concat (cfg : PipelineConfig F) (s : PipelineState F) (events : List PipelineEvent)
    (event : PipelineEvent) :
    run cfg s (events ++ [event]) = step cfg (run cfg s events) event := by
  rw [run, List.foldl_append]
  rfl

/-- A run can be interrupted. -/
theorem run_append (cfg : PipelineConfig F) (s : PipelineState F)
    (events events' : List PipelineEvent) :
    run cfg s (events ++ events') = run cfg (run cfg s events) events' :=
  List.foldl_append

/-- What the last event emits comes last. -/
theorem collect_concat {α : Type} (cfg : PipelineConfig F)
    (emit : PipelineState F → PipelineEvent → List α) (s : PipelineState F)
    (events : List PipelineEvent) (event : PipelineEvent) :
    collect cfg emit s (events ++ [event]) =
      collect cfg emit s events ++ emit (run cfg s events) event := by
  induction events generalizing s with
  | nil => simp [collect, run]
  | cons e events ih =>
      show emit s e ++ collect cfg emit (step cfg s e) (events ++ [event]) = _
      rw [ih, ← List.append_assoc]
      rfl

/-- The call a turn makes of the tracker, with the number of bundles executed
    before it. -/
def trackerCall (cfg : PipelineConfig F) (s : PipelineState F) :
    PipelineEvent → List (Nat × TrackerOp)
  | .execute (some _) _ (.ok bundleId) now =>
      if cfg.dryRun then []
      else s.channel.head?.toList.map fun opp =>
        (s.executed.length, .track bundleId opp.strategy opp.expectedProfitLamports
          (cfg.risk.calculateTip opp.expectedProfitLamports) now)
  | .poll now response _ =>
      if s.tracker.pendingCount > 0 then [(s.executed.length, .poll now response)] else []
  | _ => []

/-- The outcomes a turn books, each with the clock at its record. -/
def booking (s : PipelineState F) : PipelineEvent → List (BundleOutcome × Nat)
  | .poll now response recordedAt =>
      if s.tracker.pendingCount > 0 then
        (s.tracker.poll now response).2.zipIdx.map fun o => (o.1, recordedAt o.2)
      else []
  | _ => []

/-- The calls of the tracker in a run. -/
def callsOf (cfg : PipelineConfig F) (cache : AccountCache) (events : List PipelineEvent) :
    List (Nat × TrackerOp) :=
  collect cfg (trackerCall cfg) (PipelineState.init cfg cache) events

/-- The outcomes booked in a run. -/
def bookedOf (cfg : PipelineConfig F) (cache : AccountCache) (events : List PipelineEvent) :
    List (BundleOutcome × Nat) :=
  collect cfg booking (PipelineState.init cfg cache) events

/-! ## Booking -/

/-- The profit an outcome adds to the P&L. -/
def profitOf : BundleOutcome → Int64
  | .landed _ _ profitLamports _ => profitLamports
  | _ => 0

/-- The tip an outcome adds to the P&L. -/
def tipOf : BundleOutcome → UInt64
  | .landed _ _ _ tipLamports => tipLamports
  | _ => 0

/-- The trade an outcome is for the breaker. -/
def tradeOf : BundleOutcome → Option Int64
  | .landed _ _ profitLamports _ => some profitLamports
  | .failed _ _ _ => some 0
  | .pending => none

/-- One outcome on the breaker. -/
def bookTrade (c : CircuitBreaker) (r : BundleOutcome × Nat) : CircuitBreaker :=
  (tradeOf r.1).elim c fun profit => c.recordTrade profit r.2

/-- What booking a list of outcomes makes of the counters and the breaker. -/
structure Booked (s : PnlTracker × CircuitBreaker) (records : List (BundleOutcome × Nat))
    (s' : PnlTracker × CircuitBreaker) : Prop where
  submitted : s'.1.totalBundlesSubmitted = s.1.totalBundlesSubmitted
  landed : s'.1.totalBundlesLanded =
    s.1.totalBundlesLanded + UInt64.ofNat (records.countP fun r => isLanded r.1)
  profit : s'.1.totalProfitLamports =
    s.1.totalProfitLamports + (records.map fun r => profitOf r.1).sum
  tip : s'.1.totalTipLamports = s.1.totalTipLamports + (records.map fun r => tipOf r.1).sum
  breaker : s'.2 = records.foldl bookTrade s.2

/-- One outcome is one record. -/
theorem recordOutcome_booked (now : Nat) (s : PnlTracker × CircuitBreaker) (o : BundleOutcome) :
    Booked s [(o, now)] (recordOutcome now s o) := by
  cases o with
  | landed bundleId strategy profit tip =>
      exact ⟨rfl, rfl, by simp [recordOutcome, PnlTracker.recordBundleLanded, profitOf],
        by simp [recordOutcome, PnlTracker.recordBundleLanded, tipOf], rfl⟩
  | failed bundleId strategy reason =>
      exact ⟨rfl, by simp [recordOutcome, isLanded], by simp [recordOutcome, profitOf],
        by simp [recordOutcome, tipOf], rfl⟩
  | pending =>
      exact ⟨rfl, by simp [recordOutcome, isLanded], by simp [recordOutcome, profitOf],
        by simp [recordOutcome, tipOf], rfl⟩

/-- Records, and those after them. -/
theorem Booked.trans {s s' s'' : PnlTracker × CircuitBreaker}
    {xs ys : List (BundleOutcome × Nat)} (h : Booked s xs s') (h' : Booked s' ys s'') :
    Booked s (xs ++ ys) s'' := by
  refine ⟨h'.submitted.trans h.submitted, ?_, ?_, ?_, ?_⟩
  · rw [h'.landed, h.landed, List.countP_append, UInt64.ofNat_add, UInt64.add_assoc]
  · rw [h'.profit, h.profit, List.map_append, List.sum_append, Int64.add_assoc]
  · rw [h'.tip, h.tip, List.map_append, List.sum_append, UInt64.add_assoc]
  · rw [h'.breaker, h.breaker, List.foldl_append]

/-- No records change nothing. -/
theorem Booked.nil (s : PnlTracker × CircuitBreaker) : Booked s [] s :=
  ⟨rfl, by simp, by simp, by simp, rfl⟩

/-- The outcomes of a poll, each at its own time. -/
theorem foldl_booked (f : BundleOutcome × Nat → Nat) (records : List (BundleOutcome × Nat))
    (s : PnlTracker × CircuitBreaker) :
    Booked s (records.map fun o => (o.1, f o))
      (records.foldl (fun s o => recordOutcome (f o) s o.1) s) := by
  induction records generalizing s with
  | nil => exact Booked.nil s
  | cons o records ih => exact (recordOutcome_booked (f o) s o.1).trans (ih _)

/-- The outcome loop books its outcomes. -/
theorem recordOutcomes_booked (recordedAt : Nat → Nat) (s : PnlTracker × CircuitBreaker)
    (outcomes : List BundleOutcome) :
    Booked s (outcomes.zipIdx.map fun o => (o.1, recordedAt o.2))
      (recordOutcomes recordedAt s outcomes) :=
  foldl_booked (fun o => recordedAt o.2) outcomes.zipIdx s

/-- The outcome loop leaves the opportunities as they are. -/
theorem recordOutcomes_opportunities (recordedAt : Nat → Nat) (s : PnlTracker × CircuitBreaker)
    (outcomes : List BundleOutcome) :
    (recordOutcomes recordedAt s outcomes).1.totalOpportunities = s.1.totalOpportunities := by
  refine List.foldlRecOn (motive := fun s' : PnlTracker × CircuitBreaker =>
    s'.1.totalOpportunities = s.1.totalOpportunities) _ _ rfl ?_
  intro s' h o _
  rw [← h]
  cases o.1 with
  | landed bundleId strategy profit tip => rfl
  | failed bundleId strategy reason => rfl
  | pending => rfl

/-! ## One turn -/

/-- The counters are equal but for the opportunities. -/
structure SameCounters (p p' : PnlTracker) : Prop where
  submitted : p'.totalBundlesSubmitted = p.totalBundlesSubmitted
  landed : p'.totalBundlesLanded = p.totalBundlesLanded
  profit : p'.totalProfitLamports = p.totalProfitLamports
  tip : p'.totalTipLamports = p.totalTipLamports

/-- What a turn can do to the ledger, with the tracker calls and the outcomes it
    logs. -/
inductive Turn (cfg : PipelineConfig F) (s s' : PipelineState F) :
    List (Nat × TrackerOp) → List (BundleOutcome × Nat) → Prop
  /-- Nothing. -/
  | quiet (counters : SameCounters s.pnl s'.pnl) (breaker : s'.breaker = s.breaker)
      (tracker : s'.tracker = s.tracker) (executed : s'.executed = s.executed) :
      Turn cfg s s' [] []
  /-- A bundle is handed to the executor and not tracked: a dry run, or an error. -/
  | submit (opp : Opportunity) (tx : Transaction)
      (pnl : s'.pnl = s.pnl.recordBundleSubmitted) (breaker : s'.breaker = s.breaker)
      (tracker : s'.tracker = s.tracker)
      (executed : s'.executed = s.executed ++
        [(opp, bundleOf opp tx (cfg.risk.calculateTip opp.expectedProfitLamports))]) :
      Turn cfg s s' [] []
  /-- A bundle is handed to the executor and tracked. -/
  | track (opp : Opportunity) (tx : Transaction) (bundleId : String) (now : Nat)
      (pnl : s'.pnl = s.pnl.recordBundleSubmitted) (breaker : s'.breaker = s.breaker)
      (tracker : s'.tracker = s.tracker.track bundleId opp.strategy opp.expectedProfitLamports
        (cfg.risk.calculateTip opp.expectedProfitLamports) now)
      (executed : s'.executed = s.executed ++
        [(opp, bundleOf opp tx (cfg.risk.calculateTip opp.expectedProfitLamports))]) :
      Turn cfg s s'
        [(s.executed.length, .track bundleId opp.strategy opp.expectedProfitLamports
          (cfg.risk.calculateTip opp.expectedProfitLamports) now)] []
  /-- A poll. -/
  | poll (now : Nat) (response : Except String Json) (recordedAt : Nat → Nat)
      (books : (s'.pnl, s'.breaker) =
        recordOutcomes recordedAt (s.pnl, s.breaker) (s.tracker.poll now response).2)
      (tracker : s'.tracker = (s.tracker.poll now response).1)
      (executed : s'.executed = s.executed) :
      Turn cfg s s' [(s.executed.length, .poll now response)]
        ((s.tracker.poll now response).2.zipIdx.map fun o => (o.1, recordedAt o.2))

omit [F64 F] in
/-- A check counts opportunities only. -/
theorem check_counters (cfg : PipelineConfig F) (o : Outbox) (pnl : PnlTracker) :
    SameCounters pnl (o.check cfg pnl).2 := by
  rcases o.check_cases cfg pnl with heq | ⟨opp, rest, -, heq⟩
  · rw [heq]
    exact ⟨rfl, rfl, rfl, rfl⟩
  · rw [heq]
    exact ⟨rfl, rfl, rfl, rfl⟩

/-- A turn that neither submits nor resolves. -/
theorem Turn.idle (cfg : PipelineConfig F) (s : PipelineState F) : Turn cfg s s [] [] :=
  .quiet ⟨rfl, rfl, rfl, rfl⟩ rfl rfl rfl

/-- The executor's turn on an opportunity. -/
theorem executeOne_turn (cfg : PipelineConfig F) {s : PipelineState F} {opp : Opportunity}
    {rest : List Opportunity} (hchannel : s.channel = opp :: rest) (blockhash : Option Hash)
    (tipIndex : Fin 8) (answer : Except String String) (now : Nat) :
    Turn cfg s (executeOne cfg { s with channel := rest } opp blockhash tipIndex answer now)
      (trackerCall cfg s (.execute blockhash tipIndex answer now)) [] := by
  cases blockhash with
  | none => exact .quiet ⟨rfl, rfl, rfl, rfl⟩ rfl rfl rfl
  | some blockhash =>
      simp only [executeOne]
      cases answer with
      | error message =>
          rw [ite_self]
          exact .submit opp _ rfl rfl rfl rfl
      | ok bundleId =>
          rw [trackerCall, hchannel]
          by_cases hdry : cfg.dryRun = true
          · rw [if_pos hdry, if_pos hdry]
            exact .submit opp _ rfl rfl rfl rfl
          · rw [if_neg hdry, if_neg hdry]
            exact .track opp _ bundleId now rfl rfl rfl rfl

/-- **ONE TURN**, and what it logs. -/
theorem step_turn (cfg : PipelineConfig F) (s : PipelineState F) (event : PipelineEvent) :
    Turn cfg s (step cfg s event) (trackerCall cfg s event) (booking s event) := by
  cases event with
  | cacheUpdate update => exact .quiet ⟨rfl, rfl, rfl, rfl⟩ rfl rfl rfl
  | dexReceive update =>
      rcases step_dexReceive_cases cfg s update with heq | ⟨-, heq⟩
      · rw [heq]
        exact Turn.idle cfg s
      · rw [heq]
        exact .quiet ⟨rfl, rfl, rfl, rfl⟩ rfl rfl rfl
  | dexProcess =>
      rcases step_dexProcess_cases cfg s with heq | ⟨update, -, heq⟩
      · rw [heq]
        exact Turn.idle cfg s
      · rw [heq]
        exact .quiet ⟨rfl, rfl, rfl, rfl⟩ rfl rfl rfl
  | dexCheck => exact .quiet (check_counters cfg s.dexOutbox s.pnl) rfl rfl rfl
  | dexSend => exact .quiet ⟨rfl, rfl, rfl, rfl⟩ rfl rfl rfl
  | liquidationReceive update =>
      rcases step_liquidationReceive_cases cfg s update with heq | ⟨-, heq⟩
      · rw [heq]
        exact Turn.idle cfg s
      · rw [heq]
        exact .quiet ⟨rfl, rfl, rfl, rfl⟩ rfl rfl rfl
  | liquidationProcess =>
      rcases step_liquidationProcess_cases cfg s with heq | ⟨update, -, heq⟩
      · rw [heq]
        exact Turn.idle cfg s
      · rw [heq]
        exact .quiet ⟨rfl, rfl, rfl, rfl⟩ rfl rfl rfl
  | liquidationCheck => exact .quiet (check_counters cfg s.liquidationOutbox s.pnl) rfl rfl rfl
  | liquidationSend => exact .quiet ⟨rfl, rfl, rfl, rfl⟩ rfl rfl rfl
  | execute blockhash tipIndex answer now =>
      cases hchannel : s.channel with
      | nil =>
          have hcall : trackerCall cfg s (.execute blockhash tipIndex answer now) = [] := by
            rw [trackerCall.eq_def]
            split
            · rw [hchannel]
              exact ite_self _
            · rename_i heq
              cases heq
            · rfl
          rw [step_execute_nil cfg s _ _ _ _ hchannel, hcall]
          exact Turn.idle cfg s
      | cons opp rest =>
          rw [step_execute_cons cfg s _ _ _ _ hchannel]
          exact executeOne_turn cfg hchannel blockhash tipIndex answer now
  | poll now response recordedAt =>
      simp only [step, trackerCall, booking]
      split
      · exact .poll now response recordedAt rfl rfl rfl
      · exact Turn.idle cfg s

/-! ## The invariant -/

/-- The tracked bundles, each with the number of its execution. -/
def trackedOf (calls : List (Nat × TrackerOp)) : List (Nat × PendingBundle) :=
  calls.filterMap fun c => c.2.tracked.map (c.1, ·)

omit [F64 F] in
theorem trackedOf_bundles (calls : List (Nat × TrackerOp)) :
    (trackedOf calls).map (·.2) = trackedBundles (calls.map (·.2)) := by
  rw [trackedOf, trackedBundles, List.map_filterMap, List.filterMap_map]
  refine List.filterMap_congr ?_
  intro c _
  cases h : c.2.tracked with
  | none => simp [h]
  | some b => simp [h]

/-- The tracked bundle carries the strategy, the profit and the tip of the
    submitted one. -/
structure SubmittedAs (bundle : JitoBundle) (b : PendingBundle) : Prop where
  strategy : b.strategy = bundle.strategy
  profit : b.expectedProfitLamports = bundle.expectedProfitLamports
  tip : b.tipLamports = bundle.tipLamports

/-- The three records agree with the log. -/
structure Reconciled (cfg : PipelineConfig F) (s : PipelineState F)
    (calls : List (Nat × TrackerOp)) (booked : List (BundleOutcome × Nat)) : Prop where
  tracker : runTracker 64 30 (calls.map (·.2)) = (s.tracker, booked.map (·.1))
  submitted : s.pnl.totalBundlesSubmitted = UInt64.ofNat s.executed.length
  landed : s.pnl.totalBundlesLanded = UInt64.ofNat (booked.countP fun r => isLanded r.1)
  profit : s.pnl.totalProfitLamports = (booked.map fun r => profitOf r.1).sum
  tip : s.pnl.totalTipLamports = (booked.map fun r => tipOf r.1).sum
  breaker : s.breaker = booked.foldl bookTrade
    (CircuitBreaker.new cfg.circuitBreakerWindowSecs cfg.circuitBreakerMaxLossLamports)
  /-- A later tracked bundle was executed later, and an execution is tracked once. -/
  inOrder : ((trackedOf calls).map (·.1)).Pairwise (· < ·)
  matched : ∀ x ∈ trackedOf calls, ∃ p, s.executed[x.1]? = some p ∧ SubmittedAs p.2 x.2

omit [F64 F] in
/-- At the start there is nothing to reconcile. -/
theorem Reconciled.init (cfg : PipelineConfig F) (cache : AccountCache) :
    Reconciled cfg (PipelineState.init cfg cache) [] [] where
  tracker := rfl
  submitted := rfl
  landed := rfl
  profit := rfl
  tip := rfl
  breaker := rfl
  inOrder := List.Pairwise.nil
  matched := fun _ hx => absurd hx List.not_mem_nil

omit [F64 F] in
theorem Reconciled.executed_lt {cfg : PipelineConfig F} {s : PipelineState F}
    {calls : List (Nat × TrackerOp)} {booked : List (BundleOutcome × Nat)}
    (h : Reconciled cfg s calls booked) {x : Nat × PendingBundle} (hx : x ∈ trackedOf calls) :
    x.1 < s.executed.length := by
  obtain ⟨p, hp, -⟩ := h.matched x hx
  exact (List.getElem?_eq_some_iff.mp hp).1

omit [F64 F] in
theorem Reconciled.tracked_nodup {cfg : PipelineConfig F} {s : PipelineState F}
    {calls : List (Nat × TrackerOp)} {booked : List (BundleOutcome × Nat)}
    (h : Reconciled cfg s calls booked) : ((trackedOf calls).map (·.1)).Nodup :=
  h.inOrder.imp fun hlt => Nat.ne_of_lt hlt

omit [F64 F] in
/-- One more execution leaves the tracked bundles where they were. -/
theorem Reconciled.matched_append {cfg : PipelineConfig F} {s : PipelineState F}
    {calls : List (Nat × TrackerOp)} {booked : List (BundleOutcome × Nat)}
    (h : Reconciled cfg s calls booked) (p : Opportunity × JitoBundle) :
    ∀ x ∈ trackedOf calls, ∃ q, (s.executed ++ [p])[x.1]? = some q ∧ SubmittedAs q.2 x.2 := by
  intro x hx
  obtain ⟨q, hq, hsub⟩ := h.matched x hx
  exact ⟨q, (List.getElem?_append_left (h.executed_lt hx)).trans hq, hsub⟩

omit [F64 F] in
/-- A bundle handed to the executor is one more on the submitted counter only. -/
theorem Reconciled.counted {cfg : PipelineConfig F} {s s' : PipelineState F}
    {calls : List (Nat × TrackerOp)} {booked : List (BundleOutcome × Nat)}
    (h : Reconciled cfg s calls booked) {p : Opportunity × JitoBundle}
    (pnl : s'.pnl = s.pnl.recordBundleSubmitted) (executed : s'.executed = s.executed ++ [p]) :
    s'.pnl.totalBundlesSubmitted = UInt64.ofNat s'.executed.length ∧
      s'.pnl.totalBundlesLanded = UInt64.ofNat (booked.countP fun r => isLanded r.1) ∧
      s'.pnl.totalProfitLamports = (booked.map fun r => profitOf r.1).sum ∧
      s'.pnl.totalTipLamports = (booked.map fun r => tipOf r.1).sum := by
  rw [pnl, executed]
  refine ⟨?_, h.landed, h.profit, h.tip⟩
  rw [List.length_append, UInt64.ofNat_add, ← h.submitted]
  rfl

/-- A tracked bundle is logged under the number of the execution it comes from. -/
theorem Reconciled.track {cfg : PipelineConfig F} {s s' : PipelineState F}
    {calls : List (Nat × TrackerOp)} {booked : List (BundleOutcome × Nat)}
    (h : Reconciled cfg s calls booked) (opp : Opportunity) (tx : Transaction)
    (bundleId : String) (now : Nat) (pnl : s'.pnl = s.pnl.recordBundleSubmitted)
    (breaker : s'.breaker = s.breaker)
    (tracker : s'.tracker = s.tracker.track bundleId opp.strategy opp.expectedProfitLamports
      (cfg.risk.calculateTip opp.expectedProfitLamports) now)
    (executed : s'.executed = s.executed ++
      [(opp, bundleOf opp tx (cfg.risk.calculateTip opp.expectedProfitLamports))]) :
    Reconciled cfg s' (calls ++
      [(s.executed.length, .track bundleId opp.strategy opp.expectedProfitLamports
        (cfg.risk.calculateTip opp.expectedProfitLamports) now)]) booked := by
  obtain ⟨hsubmitted, hlanded, hprofit, htip⟩ := h.counted pnl executed
  refine ⟨?_, hsubmitted, hlanded, hprofit, htip, breaker.trans h.breaker, ?_, ?_⟩
  · rw [List.map_append, tracker]
    show runTracker 64 30 (_ ++ [_]) = _
    rw [runTracker_concat, h.tracker]
    rfl
  -- its number is above those of the bundles tracked before
  · rw [trackedOf, List.filterMap_append, List.map_append]
    refine List.pairwise_append.mpr ⟨h.inOrder, List.pairwise_singleton _ _, ?_⟩
    intro i hi j hj
    obtain ⟨x, hx, rfl⟩ := List.mem_map.mp hi
    rw [List.mem_singleton.mp hj]
    exact h.executed_lt hx
  · intro x hx
    rw [trackedOf, List.filterMap_append] at hx
    rw [executed]
    rcases List.mem_append.mp hx with hx | hx
    · exact h.matched_append _ x hx
    · rw [List.mem_singleton.mp hx]
      exact ⟨_, List.getElem?_concat_length, rfl, rfl, rfl⟩

omit [F64 F] in
/-- A poll books its outcomes and tracks nothing. -/
theorem Reconciled.poll {cfg : PipelineConfig F} {s s' : PipelineState F}
    {calls : List (Nat × TrackerOp)} {booked : List (BundleOutcome × Nat)}
    (h : Reconciled cfg s calls booked) (now : Nat) (response : Except String Json)
    (recordedAt : Nat → Nat)
    (books : (s'.pnl, s'.breaker) =
      recordOutcomes recordedAt (s.pnl, s.breaker) (s.tracker.poll now response).2)
    (tracker : s'.tracker = (s.tracker.poll now response).1)
    (executed : s'.executed = s.executed) :
    Reconciled cfg s' (calls ++ [(s.executed.length, .poll now response)])
      (booked ++ (s.tracker.poll now response).2.zipIdx.map fun o => (o.1, recordedAt o.2)) := by
  have hbooks := recordOutcomes_booked recordedAt (s.pnl, s.breaker)
    (s.tracker.poll now response).2
  rw [← books] at hbooks
  have htracked : trackedOf (calls ++ [(s.executed.length, .poll now response)]) =
      trackedOf calls := by
    rw [trackedOf, List.filterMap_append]
    exact List.append_nil _
  refine ⟨?_, ?_, ?_, ?_, ?_, ?_, ?_, ?_⟩
  · rw [List.map_append, List.map_append, List.map_map]
    show runTracker 64 30 (_ ++ [_]) = _
    rw [runTracker_concat, h.tracker, tracker]
    show (_, _ ++ _) = (_, _ ++ _)
    congr 2
    exact (List.zipIdx_map_fst 0 _).symm
  · rw [executed]
    exact hbooks.submitted.trans h.submitted
  · rw [List.countP_append, UInt64.ofNat_add, ← h.landed]
    exact hbooks.landed
  · rw [List.map_append, List.sum_append, ← h.profit]
    exact hbooks.profit
  · rw [List.map_append, List.sum_append, ← h.tip]
    exact hbooks.tip
  · rw [List.foldl_append, ← h.breaker]
    exact hbooks.breaker
  · rw [htracked]
    exact h.inOrder
  · rw [htracked, executed]
    exact h.matched

/-- **ONE TURN** keeps the records in agreement with the log. -/
theorem Reconciled.turn {cfg : PipelineConfig F} {s s' : PipelineState F}
    {calls calls' : List (Nat × TrackerOp)} {booked booked' : List (BundleOutcome × Nat)}
    (h : Reconciled cfg s calls booked) (hturn : Turn cfg s s' calls' booked') :
    Reconciled cfg s' (calls ++ calls') (booked ++ booked') := by
  cases hturn with
  | quiet counters breaker tracker executed =>
      rw [List.append_nil, List.append_nil]
      refine ⟨?_, ?_, counters.landed.trans h.landed, counters.profit.trans h.profit,
        counters.tip.trans h.tip, breaker.trans h.breaker, h.inOrder, ?_⟩
      · rw [tracker]
        exact h.tracker
      · rw [executed]
        exact counters.submitted.trans h.submitted
      · rw [executed]
        exact h.matched
  | submit opp tx pnl breaker tracker executed =>
      rw [List.append_nil, List.append_nil]
      obtain ⟨hsubmitted, hlanded, hprofit, htip⟩ := h.counted pnl executed
      refine ⟨?_, hsubmitted, hlanded, hprofit, htip, breaker.trans h.breaker, h.inOrder, ?_⟩
      · rw [tracker]
        exact h.tracker
      · rw [executed]
        exact h.matched_append _
  | track opp tx bundleId now pnl breaker tracker executed =>
      rw [List.append_nil]
      exact h.track opp tx bundleId now pnl breaker tracker executed
  | poll now response recordedAt books tracker executed =>
      exact h.poll now response recordedAt books tracker executed

/-- **ANY INTERLEAVING** keeps the three records in agreement with the log. -/
theorem reconciled_run (cfg : PipelineConfig F) (cache : AccountCache)
    (events : List PipelineEvent) :
    Reconciled cfg (run cfg (PipelineState.init cfg cache) events) (callsOf cfg cache events)
      (bookedOf cfg cache events) := by
  induction events using List.reverseRecOn with
  | nil => exact Reconciled.init cfg cache
  | append_singleton events event ih =>
      rw [run_concat, callsOf, bookedOf, collect_concat, collect_concat]
      exact ih.turn (step_turn cfg _ event)

end MevLedger
