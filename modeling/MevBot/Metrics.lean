import MevBot.ExecutedTrades

/-! # The exported counters

    Beside the P&L counters the tasks keep Prometheus counters by strategy label.
    Over any run a label's submitted bundles are its landed, failed and pending
    ones and those the tracker evicted, which no counter shows
    (`metrics_conserved`). -/

namespace MevMetrics

open MevMachine MevTypes MevCache MevStrategy MevLending MevRisk MevTracker MevTrackerLaws
open MevPipeline MevLedger MevDelivery MevExecuted
open MevSubmitted hiding Outbox.AllBare

/-! ## The counters -/

/-- The counters of `BotMetrics`: four by strategy label, two plain ones. -/
structure BotMetrics where
  opportunitiesFound : String → UInt64
  bundlesSubmitted : String → UInt64
  bundlesLanded : String → UInt64
  bundlesFailed : String → UInt64
  profitLamports : UInt64
  tipLamports : UInt64

/-- `BotMetrics::new`. -/
def BotMetrics.new : BotMetrics :=
  ⟨fun _ => 0, fun _ => 0, fun _ => 0, fun _ => 0, 0, 0⟩

/-- `with_label_values(&[label]).inc()`. -/
def inc (vec : String → UInt64) (label : String) : String → UInt64 :=
  Function.update vec label (vec label + 1)

variable {F : Type} [F64 F]

/-- The count of a loop's next opportunity. -/
def meterCheck (o : Outbox) (m : BotMetrics) (label : String) : BotMetrics :=
  match o.sending, o.queue with
  | none, _ :: _ => { m with opportunitiesFound := inc m.opportunitiesFound label }
  | _, _ => m

/-- The count of an executed bundle, and of its failed submission. -/
def meterExecute (cfg : PipelineConfig F) (m : BotMetrics) (opp : Opportunity)
    (answer : Except String String) : BotMetrics :=
  let m := { m with bundlesSubmitted := inc m.bundlesSubmitted opp.strategy }
  if cfg.dryRun then m
  else
    match answer with
    | .ok _ => m
    | .error _ => { m with bundlesFailed := inc m.bundlesFailed opp.strategy }

/-- The count of one outcome. -/
def meterOutcome (m : BotMetrics) : BundleOutcome → BotMetrics
  | .landed _ strategy _ _ => { m with bundlesLanded := inc m.bundlesLanded strategy }
  | .failed _ strategy _ => { m with bundlesFailed := inc m.bundlesFailed strategy }
  | .pending => m

/-- What a turn counts. -/
def meter (cfg : PipelineConfig F) (s : PipelineState F) (m : BotMetrics) :
    PipelineEvent → BotMetrics
  | .dexCheck => meterCheck s.dexOutbox m "dex_arb"
  | .liquidationCheck => meterCheck s.liquidationOutbox m "liquidation"
  | .execute (some _) _ answer _ =>
      match s.channel with
      | opp :: _ => meterExecute cfg m opp answer
      | [] => m
  | .poll now response _ =>
      if s.tracker.pendingCount > 0 then (s.tracker.poll now response).2.foldl meterOutcome m
      else m
  | _ => m

/-- A turn with its counts. -/
def meteredStep (cfg : PipelineConfig F) (x : PipelineState F × BotMetrics)
    (event : PipelineEvent) : PipelineState F × BotMetrics :=
  (step cfg x.1 event, meter cfg x.1 x.2 event)

/-- A run with its counts. -/
def meteredRun (cfg : PipelineConfig F) (cache : AccountCache) (events : List PipelineEvent) :
    PipelineState F × BotMetrics :=
  events.foldl (meteredStep cfg) (PipelineState.init cfg cache, BotMetrics.new)

/-- The last event is metered on what the others left. -/
theorem meteredRun_concat (cfg : PipelineConfig F) (cache : AccountCache)
    (events : List PipelineEvent) (event : PipelineEvent) :
    meteredRun cfg cache (events ++ [event]) =
      meteredStep cfg (meteredRun cfg cache events) event := by
  rw [meteredRun, List.foldl_append]
  rfl

/-- Counting does not disturb the pipeline. -/
theorem meteredRun_fst (cfg : PipelineConfig F) (cache : AccountCache)
    (events : List PipelineEvent) :
    (meteredRun cfg cache events).1 = run cfg (PipelineState.init cfg cache) events := by
  induction events using List.reverseRecOn with
  | nil => rfl
  | append_singleton events event ih => rw [meteredRun_concat, run_concat, meteredStep, ih]

/-! ## The increments of a run -/

/-- The counters by label. -/
inductive Family where
  | found
  | submitted
  | landed
  | failed
deriving DecidableEq, Repr

/-- The counter of a family. -/
def BotMetrics.vec (m : BotMetrics) : Family → String → UInt64
  | .found => m.opportunitiesFound
  | .submitted => m.bundlesSubmitted
  | .landed => m.bundlesLanded
  | .failed => m.bundlesFailed

/-- The increment of a loop's next opportunity. -/
def checkIncrements (o : Outbox) (label : String) : List (Family × String) :=
  match o.sending, o.queue with
  | none, _ :: _ => [(.found, label)]
  | _, _ => []

/-- The increment of a failed submission. -/
def rejectIncrements (cfg : PipelineConfig F) (opp : Opportunity)
    (answer : Except String String) : List (Family × String) :=
  if cfg.dryRun then []
  else
    match answer with
    | .ok _ => []
    | .error _ => [(.failed, opp.strategy)]

/-- The increments of an executed bundle. -/
def executeIncrements (cfg : PipelineConfig F) (opp : Opportunity)
    (answer : Except String String) : List (Family × String) :=
  (.submitted, opp.strategy) :: rejectIncrements cfg opp answer

/-- The increment of an outcome. -/
def outcomeIncrement : BundleOutcome → Option (Family × String)
  | .landed _ strategy _ _ => some (.landed, strategy)
  | .failed _ strategy _ => some (.failed, strategy)
  | .pending => none

/-- The increments of a turn. -/
def increments (cfg : PipelineConfig F) (s : PipelineState F) :
    PipelineEvent → List (Family × String)
  | .dexCheck => checkIncrements s.dexOutbox "dex_arb"
  | .liquidationCheck => checkIncrements s.liquidationOutbox "liquidation"
  | .execute (some _) _ answer _ =>
      match s.channel with
      | opp :: _ => executeIncrements cfg opp answer
      | [] => []
  | .poll now response _ =>
      if s.tracker.pendingCount > 0 then
        (s.tracker.poll now response).2.filterMap outcomeIncrement
      else []
  | _ => []

/-- The increments of a run. -/
def incrementsOf (cfg : PipelineConfig F) (cache : AccountCache) (events : List PipelineEvent) :
    List (Family × String) :=
  collect cfg (increments cfg) (PipelineState.init cfg cache) events

/-- The metrics after some increments, the plain counters untouched. -/
structure Counted (m : BotMetrics) (incs : List (Family × String)) (m' : BotMetrics) : Prop where
  vec : ∀ family label,
    m'.vec family label = m.vec family label + UInt64.ofNat (incs.count (family, label))
  profit : m'.profitLamports = m.profitLamports
  tip : m'.tipLamports = m.tipLamports

/-- Nothing is counted. -/
theorem Counted.nil (m : BotMetrics) : Counted m [] m :=
  ⟨fun _ _ => (UInt64.add_zero _).symm, rfl, rfl⟩

/-- Increments, and those after them. -/
theorem Counted.trans {m m' m'' : BotMetrics} {xs ys : List (Family × String)}
    (h : Counted m xs m') (h' : Counted m' ys m'') : Counted m (xs ++ ys) m'' := by
  refine ⟨?_, h'.profit.trans h.profit, h'.tip.trans h.tip⟩
  intro family label
  rw [h'.vec, h.vec, List.count_append, UInt64.ofNat_add, UInt64.add_assoc]

/-- One increment moves one label of one counter. -/
theorem Counted.one {m m' : BotMetrics} {family : Family} {label : String}
    (hinc : m'.vec family = inc (m.vec family) label)
    (hother : ∀ other, other ≠ family → m'.vec other = m.vec other)
    (hprofit : m'.profitLamports = m.profitLamports) (htip : m'.tipLamports = m.tipLamports) :
    Counted m [(family, label)] m' := by
  refine ⟨?_, hprofit, htip⟩
  intro other l
  rw [List.count_singleton]
  by_cases hfamily : other = family
  · subst hfamily
    rw [hinc, inc]
    by_cases hl : l = label
    · subst hl
      rw [Function.update_self, if_pos (by simp)]
      rfl
    · rw [Function.update_of_ne hl, if_neg (by simpa using Ne.symm hl)]
      exact (UInt64.add_zero _).symm
  · rw [hother other hfamily, if_neg (by simpa using fun h => absurd h.symm hfamily)]
    exact (UInt64.add_zero _).symm

/-- A check counts what it found. -/
theorem meterCheck_counted (o : Outbox) (m : BotMetrics) (label : String) :
    Counted m (checkIncrements o label) (meterCheck o m label) := by
  rw [checkIncrements, meterCheck]
  split
  · refine .one rfl ?_ rfl rfl
    intro other hother
    cases other with
    | found => exact absurd rfl hother
    | submitted => rfl
    | landed => rfl
    | failed => rfl
  · exact .nil m

omit [F64 F] in
/-- The executor counts what it submitted. -/
theorem meterExecute_counted (cfg : PipelineConfig F) (m : BotMetrics) (opp : Opportunity)
    (answer : Except String String) :
    Counted m (executeIncrements cfg opp answer) (meterExecute cfg m opp answer) := by
  have hsubmitted : Counted m [(.submitted, opp.strategy)]
      { m with bundlesSubmitted := inc m.bundlesSubmitted opp.strategy } := by
    refine .one rfl ?_ rfl rfl
    intro other hother
    cases other with
    | submitted => exact absurd rfl hother
    | found => rfl
    | landed => rfl
    | failed => rfl
  show Counted m ([(.submitted, opp.strategy)] ++ rejectIncrements cfg opp answer) _
  refine hsubmitted.trans ?_
  by_cases hdry : cfg.dryRun = true
  · simp only [rejectIncrements, meterExecute, if_pos hdry]
    exact .nil _
  · simp only [rejectIncrements, meterExecute, if_neg hdry]
    cases answer with
    | ok bundleId => exact .nil _
    | error message =>
        refine .one rfl ?_ rfl rfl
        intro other hother
        cases other with
        | failed => exact absurd rfl hother
        | found => rfl
        | submitted => rfl
        | landed => rfl

/-- An outcome is one increment, or none. -/
theorem meterOutcome_counted (m : BotMetrics) (o : BundleOutcome) :
    Counted m (outcomeIncrement o).toList (meterOutcome m o) := by
  cases o with
  | landed bundleId strategy profit tip =>
      refine .one rfl ?_ rfl rfl
      intro other hother
      cases other with
      | landed => exact absurd rfl hother
      | found => rfl
      | submitted => rfl
      | failed => rfl
  | failed bundleId strategy reason =>
      refine .one rfl ?_ rfl rfl
      intro other hother
      cases other with
      | failed => exact absurd rfl hother
      | found => rfl
      | submitted => rfl
      | landed => rfl
  | pending => exact .nil m

theorem meterOutcomes_counted (m : BotMetrics) (outcomes : List BundleOutcome) :
    Counted m (outcomes.filterMap outcomeIncrement) (outcomes.foldl meterOutcome m) := by
  induction outcomes generalizing m with
  | nil => exact .nil m
  | cons o outcomes ih =>
      have h := (meterOutcome_counted m o).trans (ih (meterOutcome m o))
      rw [List.filterMap_cons]
      cases ho : outcomeIncrement o with
      | none =>
          rw [ho] at h
          exact h
      | some i =>
          rw [ho] at h
          exact h

omit [F64 F] in
/-- **ONE TURN** counts its increments. -/
theorem meter_counted (cfg : PipelineConfig F) (s : PipelineState F) (m : BotMetrics)
    (event : PipelineEvent) : Counted m (increments cfg s event) (meter cfg s m event) := by
  cases event with
  | dexCheck => exact meterCheck_counted s.dexOutbox m "dex_arb"
  | liquidationCheck => exact meterCheck_counted s.liquidationOutbox m "liquidation"
  | execute blockhash tipIndex answer now =>
      cases blockhash with
      | none => exact .nil m
      | some blockhash =>
          rw [increments, meter]
          cases s.channel with
          | nil => exact .nil m
          | cons opp rest => exact meterExecute_counted cfg m opp answer
  | poll now response recordedAt =>
      rw [increments, meter]
      split
      · exact meterOutcomes_counted m _
      · exact .nil m
  | cacheUpdate update => exact .nil m
  | dexReceive update => exact .nil m
  | dexProcess => exact .nil m
  | dexSend => exact .nil m
  | liquidationReceive update => exact .nil m
  | liquidationProcess => exact .nil m
  | liquidationSend => exact .nil m

/-- **ANY INTERLEAVING** counts its increments. -/
theorem meteredRun_counted (cfg : PipelineConfig F) (cache : AccountCache)
    (events : List PipelineEvent) :
    Counted BotMetrics.new (incrementsOf cfg cache events) (meteredRun cfg cache events).2 := by
  induction events using List.reverseRecOn with
  | nil => exact .nil _
  | append_singleton events event ih =>
      rw [meteredRun_concat, incrementsOf, collect_concat, ← meteredRun_fst]
      exact ih.trans (meter_counted cfg _ _ event)

/-- A counter shows the number of its increments. -/
theorem meteredRun_vec (cfg : PipelineConfig F) (cache : AccountCache)
    (events : List PipelineEvent) (family : Family) (label : String) :
    (meteredRun cfg cache events).2.vec family label =
      UInt64.ofNat ((incrementsOf cfg cache events).count (family, label)) := by
  rw [(meteredRun_counted cfg cache events).vec]
  cases family with
  | found => exact UInt64.zero_add _
  | submitted => exact UInt64.zero_add _
  | landed => exact UInt64.zero_add _
  | failed => exact UInt64.zero_add _

/-! ## Where the submitted bundles are -/

/-- The pending bundles of a label. -/
def pendingWith (label : String) (t : BundleStatusTracker) : Nat :=
  t.pending.countP fun b => b.strategy = label

/-- The label of the bundle that a turn evicts from a full tracker. -/
def evicting (cfg : PipelineConfig F) (s : PipelineState F) : PipelineEvent → List String
  | .execute (some _) _ (.ok _) _ =>
      if cfg.dryRun ∨ s.channel = [] ∨ s.tracker.pending.length < s.tracker.maxPending then []
      else s.tracker.pending.head?.toList.map (·.strategy)
  | _ => []

/-- The labels of the bundles evicted in a run. -/
def evictedOf (cfg : PipelineConfig F) (cache : AccountCache) (events : List PipelineEvent) :
    List String :=
  collect cfg (evicting cfg) (PipelineState.init cfg cache) events

theorem resolve_strategy {timeout now : Nat} {statuses : Json} {b : PendingBundle}
    {o : BundleOutcome} (h : resolve timeout now statuses b = some o) :
    outcomeIncrement o = some (.landed, b.strategy) ∨
      outcomeIncrement o = some (.failed, b.strategy) := by
  rcases resolve_reports h with rfl | ⟨reason, rfl⟩
  · exact Or.inl rfl
  · exact Or.inr rfl

/-- The outcomes of a label, landed and failed. -/
def resolvedWith (label : String) (incs : List (Family × String)) : Nat :=
  incs.count (.landed, label) + incs.count (.failed, label)

theorem resolvedWith_append (label : String) (xs ys : List (Family × String)) :
    resolvedWith label (xs ++ ys) = resolvedWith label xs + resolvedWith label ys := by
  rw [resolvedWith, resolvedWith, resolvedWith, List.count_append, List.count_append]
  omega

/-- An outcome counts for the label of its bundle. -/
theorem resolvedWith_cons {timeout now : Nat} {statuses : Json} {b : PendingBundle}
    {o : BundleOutcome} (h : resolve timeout now statuses b = some o) (label : String)
    (outcomes : List BundleOutcome) :
    resolvedWith label ((o :: outcomes).filterMap outcomeIncrement) =
      resolvedWith label (outcomes.filterMap outcomeIncrement) +
        (if b.strategy = label then 1 else 0) := by
  rcases resolve_strategy h with ho | ho
  · rw [List.filterMap_cons_some ho, resolvedWith, resolvedWith, List.count_cons, List.count_cons]
    by_cases hl : b.strategy = label
    · simp [hl]
      omega
    · simp [hl]
  · rw [List.filterMap_cons_some ho, resolvedWith, resolvedWith, List.count_cons, List.count_cons]
    by_cases hl : b.strategy = label
    · simp [hl]
      omega
    · simp [hl]

/-- The drain loop splits the bundles of a label into resolved and still pending ones. -/
theorem drain_balance (label : String) (timeout now : Nat) (statuses : Json)
    (bs : List PendingBundle) :
    bs.countP (fun b => b.strategy = label) =
      (bs.filter fun b => (resolve timeout now statuses b).isNone).countP
          (fun b => b.strategy = label) +
        resolvedWith label
          ((bs.filterMap (resolve timeout now statuses)).filterMap outcomeIncrement) := by
  induction bs with
  | nil => rfl
  | cons b bs ih =>
      cases hb : resolve timeout now statuses b with
      | none =>
          rw [List.filter_cons_of_pos (by rw [hb]; rfl), List.filterMap_cons_none hb,
            List.countP_cons, List.countP_cons, ih]
          omega
      | some o =>
          rw [List.filter_cons_of_neg (by rw [hb]; exact Bool.false_ne_true),
            List.filterMap_cons_some hb, resolvedWith_cons hb, List.countP_cons, ih]
          simp only [decide_eq_true_eq]
          omega

/-- A poll moves bundles from the queue to the outcomes, label by label. -/
theorem poll_balance (label : String) (t : BundleStatusTracker) (now : Nat)
    (response : Except String Json) :
    pendingWith label t = pendingWith label (t.poll now response).1 +
      resolvedWith label ((t.poll now response).2.filterMap outcomeIncrement) := by
  cases response with
  | error message =>
      rw [poll_error]
      rfl
  | ok statuses =>
      rw [poll_ok]
      exact drain_balance label t.timeout now statuses t.pending

/-- A tracked bundle joins the queue, and may push the oldest out of it. -/
theorem track_balance (label : String) (t : BundleStatusTracker) (bundleId strategy : String)
    (profit : Int64) (tip : UInt64) (now : Nat) (hmax : 0 < t.maxPending) :
    pendingWith label t + [strategy].count label =
      pendingWith label (t.track bundleId strategy profit tip now) +
        (if t.pending.length < t.maxPending then []
         else t.pending.head?.toList.map (·.strategy)).count label := by
  rw [BundleStatusTracker.track]
  by_cases hfull : t.pending.length < t.maxPending
  · rw [if_pos hfull, if_neg (by omega)]
    simp [pendingWith, List.countP_append, List.count_singleton, List.countP_singleton]
  · rw [if_neg hfull, if_pos (by omega)]
    cases hpending : t.pending with
    | nil =>
        rw [hpending, List.length_nil] at hfull
        exact absurd hmax hfull
    | cons b bs =>
        simp [pendingWith, hpending, List.countP_cons, List.countP_append, List.count_singleton]
        omega

/-- The increments of a label's bundles that are sent; a dry run sends none. -/
def sentWith (cfg : PipelineConfig F) (label : String) (incs : List (Family × String)) : Nat :=
  if cfg.dryRun then 0 else incs.count (.submitted, label)

omit [F64 F] in
theorem sentWith_append (cfg : PipelineConfig F) (label : String)
    (xs ys : List (Family × String)) :
    sentWith cfg label (xs ++ ys) = sentWith cfg label xs + sentWith cfg label ys := by
  rw [sentWith, sentWith, sentWith]
  split
  · rfl
  · exact List.count_append

/-- The tracker's bound never changes. -/
theorem run_maxPending (cfg : PipelineConfig F) (cache : AccountCache)
    (events : List PipelineEvent) :
    (run cfg (PipelineState.init cfg cache) events).tracker.maxPending = 64 := by
  have htracker := (reconciled_run cfg cache events).tracker
  have hcapacity := (mirrors_run 64 30 ((callsOf cfg cache events).map (·.2))).capacity
  rw [htracker] at hcapacity
  exact hcapacity

/-- One label in balance over a turn: what was pending or is sent now is pending,
    resolved or evicted after it. -/
def Balanced (cfg : PipelineConfig F) (label : String) (t t' : BundleStatusTracker)
    (incs : List (Family × String)) (evicted : List String) : Prop :=
  pendingWith label t + sentWith cfg label incs =
    pendingWith label t' + resolvedWith label incs + evicted.count label

theorem outcomes_unsent (label : String) (outcomes : List BundleOutcome) :
    (outcomes.filterMap outcomeIncrement).count (.submitted, label) = 0 := by
  refine List.count_eq_zero.mpr ?_
  intro h
  obtain ⟨o, -, ho⟩ := List.mem_filterMap.mp h
  cases o with
  | landed bundleId strategy profit tip => cases ho
  | failed bundleId strategy reason => cases ho
  | pending => cases ho

omit [F64 F] in
/-- Nothing happens. -/
theorem Balanced.nil (cfg : PipelineConfig F) (label : String) (t : BundleStatusTracker) :
    Balanced cfg label t t [] [] := by
  rw [Balanced, sentWith, List.count_nil, ite_self]
  rfl

omit [F64 F] in
theorem Balanced.check (cfg : PipelineConfig F) (label : String) (t : BundleStatusTracker)
    (o : Outbox) (found : String) : Balanced cfg label t t (checkIncrements o found) [] := by
  rw [checkIncrements]
  split
  · simp [Balanced, sentWith, resolvedWith]
  · exact Balanced.nil cfg label t

/-- The executor's turn: a bundle is tracked, rejected or a dry run. -/
theorem Balanced.execute (cfg : PipelineConfig F) (label : String) {s : PipelineState F}
    (hmax : 0 < s.tracker.maxPending) {opp : Opportunity} {rest : List Opportunity}
    (hchannel : s.channel = opp :: rest) (blockhash : Hash) (tipIndex : Fin 8)
    (answer : Except String String) (now : Nat) :
    Balanced cfg label s.tracker
      (executeOne cfg { s with channel := rest } opp (some blockhash) tipIndex answer now).tracker
      (executeIncrements cfg opp answer)
      (evicting cfg s (.execute (some blockhash) tipIndex answer now)) := by
  cases hdry : cfg.dryRun with
  | true =>
      have hevict : evicting cfg s (.execute (some blockhash) tipIndex answer now) = [] := by
        cases answer with
        | ok bundleId => exact if_pos (Or.inl hdry)
        | error message => rfl
      have hsame : (executeOne cfg { s with channel := rest } opp (some blockhash) tipIndex answer
          now).tracker = s.tracker := by
        simp only [executeOne, hdry, if_true]
      rw [hevict, hsame]
      simp [Balanced, executeIncrements, rejectIncrements, sentWith, resolvedWith, hdry]
  | false =>
      cases answer with
      | error message =>
          have hsame : (executeOne cfg { s with channel := rest } opp (some blockhash) tipIndex
              (.error message) now).tracker = s.tracker := by
            simp only [executeOne, hdry, Bool.false_eq_true, if_false]
          rw [hsame]
          simp [Balanced, executeIncrements, rejectIncrements, sentWith, resolvedWith, hdry,
            evicting, List.count_cons]
      | ok bundleId =>
          have htracked : (executeOne cfg { s with channel := rest } opp (some blockhash) tipIndex
              (.ok bundleId) now).tracker = s.tracker.track bundleId opp.strategy
                opp.expectedProfitLamports (cfg.risk.calculateTip opp.expectedProfitLamports)
                now := by
            simp only [executeOne, hdry, Bool.false_eq_true, if_false]
          have hevict : evicting cfg s (.execute (some blockhash) tipIndex (.ok bundleId) now) =
              if s.tracker.pending.length < s.tracker.maxPending then []
              else s.tracker.pending.head?.toList.map (·.strategy) := by
            simp [evicting, hdry, hchannel]
          have hbalance := track_balance label s.tracker bundleId opp.strategy
            opp.expectedProfitLamports (cfg.risk.calculateTip opp.expectedProfitLamports) now hmax
          have hsent : sentWith cfg label (executeIncrements cfg opp (.ok bundleId)) =
              [opp.strategy].count label := by
            simp [sentWith, executeIncrements, rejectIncrements, hdry, List.count_cons]
          have hresolved : resolvedWith label (executeIncrements cfg opp (.ok bundleId)) = 0 := by
            simp [resolvedWith, executeIncrements, rejectIncrements, hdry]
          rw [htracked, hevict, Balanced, hsent, hresolved, hbalance, Nat.add_zero]

/-- **ONE TURN** keeps every label in balance. -/
theorem step_balanced (cfg : PipelineConfig F) {s : PipelineState F}
    (hmax : 0 < s.tracker.maxPending) (event : PipelineEvent) (label : String) :
    Balanced cfg label s.tracker (step cfg s event).tracker (increments cfg s event)
      (evicting cfg s event) := by
  cases event with
  | execute blockhash tipIndex answer now =>
      cases blockhash with
      | none =>
          cases hchannel : s.channel with
          | nil =>
              rw [step_execute_nil cfg s _ _ _ _ hchannel]
              exact .nil cfg label _
          | cons opp rest =>
              rw [step_execute_cons cfg s _ _ _ _ hchannel]
              exact .nil cfg label _
      | some blockhash =>
          cases hchannel : s.channel with
          | nil =>
              rw [step_execute_nil cfg s _ _ _ _ hchannel]
              have hinc : increments cfg s (.execute (some blockhash) tipIndex answer now) =
                  [] := by
                simp only [increments, hchannel]
              have hevict : evicting cfg s (.execute (some blockhash) tipIndex answer now) =
                  [] := by
                cases answer with
                | ok bundleId => exact if_pos (Or.inr (Or.inl hchannel))
                | error message => rfl
              rw [hinc, hevict]
              exact .nil cfg label _
          | cons opp rest =>
              rw [step_execute_cons cfg s _ _ _ _ hchannel]
              have hinc : increments cfg s (.execute (some blockhash) tipIndex answer now) =
                  executeIncrements cfg opp answer := by
                simp only [increments, hchannel]
              rw [hinc]
              exact .execute cfg label hmax hchannel blockhash tipIndex answer now
  | poll now response recordedAt =>
      rw [increments, step]
      split
      · show Balanced cfg label s.tracker (s.tracker.poll now response).1 _ []
        rw [Balanced, sentWith, outcomes_unsent, ite_self]
        exact poll_balance label s.tracker now response
      · exact .nil cfg label _
  | dexReceive update =>
      rcases step_dexReceive_cases cfg s update with heq | ⟨-, heq⟩
      · rw [heq]
        exact .nil cfg label _
      · rw [heq]
        exact .nil cfg label _
  | dexProcess =>
      rcases step_dexProcess_cases cfg s with heq | ⟨update, -, heq⟩
      · rw [heq]
        exact .nil cfg label _
      · rw [heq]
        exact .nil cfg label _
  | liquidationReceive update =>
      rcases step_liquidationReceive_cases cfg s update with heq | ⟨-, heq⟩
      · rw [heq]
        exact .nil cfg label _
      · rw [heq]
        exact .nil cfg label _
  | liquidationProcess =>
      rcases step_liquidationProcess_cases cfg s with heq | ⟨update, -, heq⟩
      · rw [heq]
        exact .nil cfg label _
      · rw [heq]
        exact .nil cfg label _
  | dexCheck => exact .check cfg label _ s.dexOutbox "dex_arb"
  | liquidationCheck => exact .check cfg label _ s.liquidationOutbox "liquidation"
  | cacheUpdate update => exact .nil cfg label _
  | dexSend => exact .nil cfg label _
  | liquidationSend => exact .nil cfg label _

omit [F64 F] in
/-- One stretch after the other. -/
theorem Balanced.trans {cfg : PipelineConfig F} {label : String}
    {t t' t'' : BundleStatusTracker} {incs incs' : List (Family × String)}
    {evicted evicted' : List String} (h : Balanced cfg label t t' incs evicted)
    (h' : Balanced cfg label t' t'' incs' evicted') :
    Balanced cfg label t t'' (incs ++ incs') (evicted ++ evicted') := by
  rw [Balanced] at h h' ⊢
  rw [sentWith_append, resolvedWith_append, List.count_append]
  omega

/-- **ANY INTERLEAVING** keeps every label in balance. -/
theorem run_balanced (cfg : PipelineConfig F) (cache : AccountCache)
    (events : List PipelineEvent) (label : String) :
    Balanced cfg label (BundleStatusTracker.new 64 30)
      (run cfg (PipelineState.init cfg cache) events).tracker (incrementsOf cfg cache events)
      (evictedOf cfg cache events) := by
  induction events using List.reverseRecOn with
  | nil => exact .nil cfg label _
  | append_singleton events event ih =>
      rw [run_concat, incrementsOf, evictedOf, collect_concat, collect_concat]
      refine ih.trans (step_balanced cfg ?_ event label)
      rw [run_maxPending]
      decide

/-! ## The counters and the P&L -/

/-- The increments of one family. -/
def totalOf (family : Family) (incs : List (Family × String)) : Nat :=
  incs.countP fun i => i.1 = family

/-- What a turn adds to the P&L counters and to the record of executed bundles. -/
structure Tallied (s s' : PipelineState F) (incs : List (Family × String)) : Prop where
  found : s'.pnl.totalOpportunities =
    s.pnl.totalOpportunities + UInt64.ofNat (totalOf .found incs)
  submitted : s'.pnl.totalBundlesSubmitted =
    s.pnl.totalBundlesSubmitted + UInt64.ofNat (totalOf .submitted incs)
  landed : s'.pnl.totalBundlesLanded =
    s.pnl.totalBundlesLanded + UInt64.ofNat (totalOf .landed incs)
  executed : ∀ label, s'.executed.countP (fun p => p.1.strategy = label) =
    s.executed.countP (fun p => p.1.strategy = label) + incs.count (.submitted, label)

omit [F64 F] in
/-- A turn that counts nothing and leaves both records. -/
theorem Tallied.same {s s' : PipelineState F} (hpnl : s'.pnl = s.pnl)
    (hexecuted : s'.executed = s.executed) : Tallied s s' [] := by
  refine ⟨?_, ?_, ?_, ?_⟩
  · rw [hpnl]
    exact (UInt64.add_zero _).symm
  · rw [hpnl]
    exact (UInt64.add_zero _).symm
  · rw [hpnl]
    exact (UInt64.add_zero _).symm
  · intro label
    rw [hexecuted]
    rfl

omit [F64 F] in
theorem Tallied.check (cfg : PipelineConfig F) {s s' : PipelineState F} (o : Outbox)
    (label : String) (hpnl : s'.pnl = (o.check cfg s.pnl).2)
    (hexecuted : s'.executed = s.executed) : Tallied s s' (checkIncrements o label) := by
  cases o with
  | received update => exact .same hpnl hexecuted
  | forwarding queue sending =>
      cases sending with
      | some opp => exact .same hpnl hexecuted
      | none =>
          cases queue with
          | nil => exact .same hpnl hexecuted
          | cons opp rest =>
              have hpnl : s'.pnl = s.pnl.recordOpportunity := hpnl
              refine ⟨?_, ?_, ?_, ?_⟩
              · rw [hpnl]
                rfl
              · rw [hpnl]
                exact (UInt64.add_zero _).symm
              · rw [hpnl]
                exact (UInt64.add_zero _).symm
              · intro l
                rw [hexecuted]
                simp [checkIncrements, Outbox.sending, Outbox.queue]

theorem Tallied.execute (cfg : PipelineConfig F) {s : PipelineState F} (opp : Opportunity)
    (rest : List Opportunity) (blockhash : Hash) (tipIndex : Fin 8)
    (answer : Except String String) (now : Nat) :
    Tallied s (executeOne cfg { s with channel := rest } opp (some blockhash) tipIndex answer now)
      (executeIncrements cfg opp answer) := by
  have hrejected : totalOf .found (rejectIncrements cfg opp answer) = 0 ∧
      totalOf .submitted (rejectIncrements cfg opp answer) = 0 ∧
      totalOf .landed (rejectIncrements cfg opp answer) = 0 ∧
      ∀ label, (rejectIncrements cfg opp answer).count (.submitted, label) = 0 := by
    rw [rejectIncrements.eq_def]
    split
    · exact ⟨rfl, rfl, rfl, fun _ => rfl⟩
    · cases answer with
      | ok bundleId => exact ⟨rfl, rfl, rfl, fun _ => rfl⟩
      | error message => exact ⟨rfl, rfl, rfl, fun label => by simp⟩
  obtain ⟨hfound, hsubmitted, hlanded, hnone⟩ := hrejected
  obtain ⟨bundle, hexecuted, hpnl⟩ : ∃ bundle,
      (executeOne cfg { s with channel := rest } opp (some blockhash) tipIndex answer
        now).executed = s.executed ++ [(opp, bundle)] ∧
      (executeOne cfg { s with channel := rest } opp (some blockhash) tipIndex answer now).pnl =
        s.pnl.recordBundleSubmitted := by
    simp only [executeOne]
    split
    · exact ⟨_, rfl, rfl⟩
    · cases answer with
      | ok bundleId => exact ⟨_, rfl, rfl⟩
      | error message => exact ⟨_, rfl, rfl⟩
  refine ⟨?_, ?_, ?_, ?_⟩
  · rw [hpnl, executeIncrements, totalOf, List.countP_cons_of_neg (by simp), ← totalOf, hfound]
    exact (UInt64.add_zero _).symm
  · rw [hpnl, executeIncrements, totalOf, List.countP_cons_of_pos (by simp), ← totalOf,
      hsubmitted]
    rfl
  · rw [hpnl, executeIncrements, totalOf, List.countP_cons_of_neg (by simp), ← totalOf, hlanded]
    exact (UInt64.add_zero _).symm
  · intro label
    rw [hexecuted, executeIncrements, List.countP_append, List.countP_singleton, List.count_cons,
      hnone]
    simp

theorem totalOf_outcomes (outcomes : List BundleOutcome) :
    totalOf .found (outcomes.filterMap outcomeIncrement) = 0 ∧
      totalOf .submitted (outcomes.filterMap outcomeIncrement) = 0 ∧
      totalOf .landed (outcomes.filterMap outcomeIncrement) = outcomes.countP isLanded := by
  induction outcomes with
  | nil => exact ⟨rfl, rfl, rfl⟩
  | cons o outcomes ih =>
      obtain ⟨hfound, hsubmitted, hlanded⟩ := ih
      cases o with
      | landed bundleId strategy profit tip =>
          refine ⟨hfound, hsubmitted, ?_⟩
          rw [List.countP_cons, ← hlanded]
          exact List.countP_cons
      | failed bundleId strategy reason =>
          refine ⟨hfound, hsubmitted, ?_⟩
          rw [List.countP_cons, ← hlanded]
          exact List.countP_cons
      | pending => exact ⟨hfound, hsubmitted, hlanded⟩

omit [F64 F] in
theorem Tallied.poll {s s' : PipelineState F} (now : Nat) (response : Except String Json)
    (recordedAt : Nat → Nat)
    (hpnl : s'.pnl = (recordOutcomes recordedAt (s.pnl, s.breaker)
      (s.tracker.poll now response).2).1) (hexecuted : s'.executed = s.executed) :
    Tallied s s' ((s.tracker.poll now response).2.filterMap outcomeIncrement) := by
  obtain ⟨hfound, hsubmitted, hlanded⟩ := totalOf_outcomes (s.tracker.poll now response).2
  have hbooks := recordOutcomes_booked recordedAt (s.pnl, s.breaker)
    (s.tracker.poll now response).2
  refine ⟨?_, ?_, ?_, ?_⟩
  · rw [hfound, hpnl, recordOutcomes_opportunities]
    exact (UInt64.add_zero _).symm
  · rw [hsubmitted, hpnl, hbooks.submitted]
    exact (UInt64.add_zero _).symm
  · rw [hlanded, hpnl, hbooks.landed, List.countP_map]
    show _ + UInt64.ofNat ((s.tracker.poll now response).2.zipIdx.countP (isLanded ∘ Prod.fst)) = _
    rw [← List.countP_map, List.zipIdx_map_fst]
  · intro label
    rw [hexecuted, outcomes_unsent]
    rfl

/-- **ONE TURN** moves the P&L counters by its increments. -/
theorem step_tallied (cfg : PipelineConfig F) (s : PipelineState F) (event : PipelineEvent) :
    Tallied s (step cfg s event) (increments cfg s event) := by
  cases event with
  | execute blockhash tipIndex answer now =>
      cases hchannel : s.channel with
      | nil =>
          have hinc : increments cfg s (.execute blockhash tipIndex answer now) = [] := by
            cases blockhash with
            | none => rfl
            | some blockhash => simp only [increments, hchannel]
          rw [step_execute_nil cfg s _ _ _ _ hchannel, hinc]
          exact .same rfl rfl
      | cons opp rest =>
          rw [step_execute_cons cfg s _ _ _ _ hchannel]
          cases blockhash with
          | none => exact .same rfl rfl
          | some blockhash =>
              rw [show increments cfg s (.execute (some blockhash) tipIndex answer now) =
                executeIncrements cfg opp answer by simp only [increments, hchannel]]
              exact .execute cfg opp rest blockhash tipIndex answer now
  | poll now response recordedAt =>
      rw [increments, step]
      split
      · exact .poll now response recordedAt rfl rfl
      · exact .same rfl rfl
  | dexReceive update =>
      rcases step_dexReceive_cases cfg s update with heq | ⟨-, heq⟩
      · rw [heq]
        exact .same rfl rfl
      · rw [heq]
        exact .same rfl rfl
  | dexProcess =>
      rcases step_dexProcess_cases cfg s with heq | ⟨update, -, heq⟩
      · rw [heq]
        exact .same rfl rfl
      · rw [heq]
        exact .same rfl rfl
  | liquidationReceive update =>
      rcases step_liquidationReceive_cases cfg s update with heq | ⟨-, heq⟩
      · rw [heq]
        exact .same rfl rfl
      · rw [heq]
        exact .same rfl rfl
  | liquidationProcess =>
      rcases step_liquidationProcess_cases cfg s with heq | ⟨update, -, heq⟩
      · rw [heq]
        exact .same rfl rfl
      · rw [heq]
        exact .same rfl rfl
  | dexCheck => exact .check cfg s.dexOutbox "dex_arb" rfl rfl
  | liquidationCheck => exact .check cfg s.liquidationOutbox "liquidation" rfl rfl
  | cacheUpdate update => exact .same rfl rfl
  | dexSend => exact .same rfl rfl
  | liquidationSend => exact .same rfl rfl

/-- **ANY INTERLEAVING** moves them by all its increments. -/
theorem run_tallied (cfg : PipelineConfig F) (cache : AccountCache)
    (events : List PipelineEvent) :
    Tallied (PipelineState.init cfg cache) (run cfg (PipelineState.init cfg cache) events)
      (incrementsOf cfg cache events) := by
  induction events using List.reverseRecOn with
  | nil => exact .same rfl rfl
  | append_singleton events event ih =>
      have h := step_tallied cfg (run cfg (PipelineState.init cfg cache) events) event
      rw [run_concat, incrementsOf, collect_concat]
      refine ⟨?_, ?_, ?_, ?_⟩
      · rw [h.found, ih.found, totalOf, totalOf, totalOf, List.countP_append, UInt64.ofNat_add,
          UInt64.add_assoc, incrementsOf]
      · rw [h.submitted, ih.submitted, totalOf, totalOf, totalOf, List.countP_append,
          UInt64.ofNat_add, UInt64.add_assoc, incrementsOf]
      · rw [h.landed, ih.landed, totalOf, totalOf, totalOf, List.countP_append, UInt64.ofNat_add,
          UInt64.add_assoc, incrementsOf]
      · intro label
        rw [h.executed, ih.executed, List.count_append, Nat.add_assoc, incrementsOf]

/-! ## The law -/

/-- **THE BUNDLES OF A LABEL ARE ACCOUNTED FOR**, in every interleaving: they are the
    executed ones, and of these the ones neither counted as landed nor as failed are
    those still pending and those a full tracker evicted, which no counter shows.  A dry
    run counts neither. -/
theorem metrics_conserved (cfg : PipelineConfig F) (cache : AccountCache)
    (events : List PipelineEvent) (label : String) :
    let x := meteredRun cfg cache events
    x.2.bundlesSubmitted label =
        UInt64.ofNat (x.1.executed.countP fun p => p.1.strategy = label) ∧
      (cfg.dryRun = false → x.2.bundlesSubmitted label =
        x.2.bundlesLanded label + x.2.bundlesFailed label +
          UInt64.ofNat (pendingWith label x.1.tracker) +
          UInt64.ofNat ((evictedOf cfg cache events).count label)) ∧
      (cfg.dryRun = true → x.2.bundlesLanded label = 0 ∧ x.2.bundlesFailed label = 0) := by
  intro x
  have hbalanced := run_balanced cfg cache events label
  have hexecuted := (run_tallied cfg cache events).executed label
  have hsubmitted : x.2.bundlesSubmitted label = _ :=
    meteredRun_vec cfg cache events .submitted label
  have hlanded : x.2.bundlesLanded label = _ := meteredRun_vec cfg cache events .landed label
  have hfailed : x.2.bundlesFailed label = _ := meteredRun_vec cfg cache events .failed label
  have hstate : x.1 = run cfg (PipelineState.init cfg cache) events := meteredRun_fst ..
  -- a new tracker holds no bundle, so all that was sent is accounted for
  rw [Balanced, show pendingWith label (BundleStatusTracker.new 64 30) = 0 from rfl,
    Nat.zero_add, sentWith, resolvedWith] at hbalanced
  refine ⟨?_, ?_, ?_⟩
  · rw [hsubmitted, hstate, hexecuted]
    exact congrArg UInt64.ofNat (Nat.zero_add _).symm
  · intro hdry
    rw [if_neg (by rw [hdry]; exact Bool.false_ne_true)] at hbalanced
    rw [hsubmitted, hlanded, hfailed, hstate, ← UInt64.ofNat_add, ← UInt64.ofNat_add,
      ← UInt64.ofNat_add, hbalanced]
    congr 1
    omega
  · intro hdry
    rw [if_pos hdry] at hbalanced
    rw [hlanded, hfailed]
    rw [show (incrementsOf cfg cache events).count (.landed, label) = 0 by omega,
      show (incrementsOf cfg cache events).count (.failed, label) = 0 by omega]
    exact ⟨rfl, rfl⟩

end MevMetrics
