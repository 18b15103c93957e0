import MevBot.Metrics

/-! # The labels of the counters

    Opportunities are counted under the name of the task that found them, bundles
    under the strategy of the opportunity.  Summed over their labels the counters
    agree with the P&L, but a liquidation is found under one label and submitted
    under another (`metrics_match_pnl`). -/

namespace MevMetrics

open MevMachine MevTypes MevCache MevStrategy MevLending MevRisk MevTracker MevTrackerLaws
open MevPipeline MevLedger MevDelivery MevExecuted

variable {F : Type} [F64 F]

/-! ## The labels -/

/-- The labels bundles are counted under. -/
def bundleLabels : List String :=
  ["dex_arb", "liquidation_kamino", "liquidation_marginfi", "liquidation_save"]

/-- The labels of an increment: opportunities under the task's name, bundles under the
    opportunity's strategy. -/
def Labelled (i : Family × String) : Prop :=
  if i.1 = .found then i.2 = "dex_arb" ∨ i.2 = "liquidation" else i.2 ∈ bundleLabels

/-- The strategy signs its opportunities. -/
theorem simulateCycle_strategy {cache : AccountCache} {arbPath : MevSearch.ArbPath F}
    {opp : Opportunity} (h : DexArbStrategy.simulateCycle cache arbPath = some opp) :
    opp.strategy = "dex_arb" := by
  simp only [DexArbStrategy.simulateCycle, Option.bind_eq_bind, Option.bind_eq_some_iff] at h
  obtain ⟨states, -, h⟩ := h
  split at h
  · cases h
  · obtain ⟨steps, -, h⟩ := Option.bind_eq_some_iff.mp h
    obtain rfl := Option.some.inj h
    rfl

/-- Whatever a task finds has one of the labels. -/
theorem found_label {cfg : PipelineConfig F} {s : PipelineState F} {event : PipelineEvent}
    {lane : Lane} {batch : List Opportunity} (h : found cfg s event = some (lane, batch)) :
    ∀ opp ∈ batch, opp.strategy ∈ bundleLabels := by
  intro opp hopp
  obtain ⟨update, -, ⟨rfl, rfl, rfl⟩ | ⟨rfl, rfl, rfl⟩⟩ := found_cases h
  · rw [DexArbStrategy.processUpdate] at hopp
    split at hopp
    · obtain ⟨anchor, -, hopp⟩ := List.mem_flatMap.mp hopp
      obtain ⟨cycle, -, hopp⟩ := List.mem_filterMap.mp hopp
      rw [simulateCycle_strategy (Option.filter_eq_some_iff.mp hopp).1]
      exact List.mem_cons_self
    · exact absurd hopp List.not_mem_nil
  · obtain ⟨-, -, obligation, -, -, -, -, -, -, hstrategy, -⟩ :=
      (processUpdate_liquidates (Option.mem_toList.mp hopp)).decoded
    rw [hstrategy]
    cases obligation.protocol with
    | kamino => decide
    | marginfi => decide
    | save => decide

/-- Whatever waits in the channel has one of the labels. -/
theorem channel_label (cfg : PipelineConfig F) (cache : AccountCache)
    (events : List PipelineEvent) :
    ∀ opp ∈ (run cfg (PipelineState.init cfg cache) events).channel,
      opp.strategy ∈ bundleLabels := by
  intro opp hopp
  obtain ⟨h, hmirrors, hoffered, -, hdelivered⟩ := run_records cfg cache events
  rw [← hmirrors.channel] at hopp
  obtain ⟨x, hx, rfl⟩ := List.mem_map.mp hopp
  have hin := (hdelivered.accepted (List.mem_append_right h.taken hx)).1
  rw [hoffered] at hin
  obtain ⟨before, event, after, -, hmem⟩ := mem_collect hin
  obtain ⟨batch, hbatch, hopp⟩ := mem_foundBy hmem
  exact found_label hbatch x.2 hopp

/-- Every pending bundle has one of the labels. -/
def PendingLabelled (t : BundleStatusTracker) : Prop :=
  ∀ b ∈ t.pending, b.strategy ∈ bundleLabels

/-- A bundle is tracked under the name it was found by. -/
theorem PendingLabelled.track {t : BundleStatusTracker} (h : PendingLabelled t)
    {strategy : String} (hstrategy : strategy ∈ bundleLabels) (bundleId : String)
    (profit : Int64) (tip : UInt64) (now : Nat) :
    PendingLabelled (t.track bundleId strategy profit tip now) := by
  intro b hb
  rcases List.mem_append.mp hb with hb | hb
  · split at hb
    · exact h b (List.mem_of_mem_tail hb)
    · exact h b hb
  · rw [List.mem_singleton.mp hb]
    exact hstrategy

/-- A poll keeps bundles that were pending, and its outcomes are theirs. -/
theorem PendingLabelled.poll {t : BundleStatusTracker} (h : PendingLabelled t) (now : Nat)
    (response : Except String Json) :
    PendingLabelled (t.poll now response).1 ∧
      ∀ i ∈ (t.poll now response).2.filterMap outcomeIncrement, Labelled i := by
  cases response with
  | error message =>
      rw [poll_error]
      exact ⟨h, fun i hi => absurd hi List.not_mem_nil⟩
  | ok statuses =>
      rw [poll_ok]
      refine ⟨fun b hb => h b (List.mem_filter.mp hb).1, ?_⟩
      intro i hi
      obtain ⟨o, ho, hi⟩ := List.mem_filterMap.mp hi
      obtain ⟨b, hb, hresolve⟩ := List.mem_filterMap.mp ho
      rcases resolve_strategy hresolve with heq | heq
      · rw [heq] at hi
        obtain rfl := Option.some.inj hi
        exact h b hb
      · rw [heq] at hi
        obtain rfl := Option.some.inj hi
        exact h b hb

/-- A check counts under its task's label. -/
theorem checkIncrements_labelled {o : Outbox} {label : String}
    (h : label = "dex_arb" ∨ label = "liquidation") :
    ∀ i ∈ checkIncrements o label, Labelled i := by
  intro i hi
  rw [checkIncrements] at hi
  split at hi
  · rw [List.mem_singleton.mp hi]
    exact h
  · exact absurd hi List.not_mem_nil

omit [F64 F] in
/-- A submission counts under the opportunity's. -/
theorem executeIncrements_labelled {cfg : PipelineConfig F} {opp : Opportunity}
    (h : opp.strategy ∈ bundleLabels) (answer : Except String String) :
    ∀ i ∈ executeIncrements cfg opp answer, Labelled i := by
  intro i hi
  rcases List.mem_cons.mp hi with rfl | hi
  · exact h
  · rw [rejectIncrements.eq_def] at hi
    split at hi
    · exact absurd hi List.not_mem_nil
    · cases answer with
      | ok bundleId => exact absurd hi List.not_mem_nil
      | error message =>
          rw [List.mem_singleton.mp hi]
          exact h

/-- **ONE TURN** counts under the labels, and tracks bundles under them. -/
theorem step_labelled (cfg : PipelineConfig F) {s : PipelineState F}
    (hchannel : ∀ opp ∈ s.channel, opp.strategy ∈ bundleLabels)
    (hpending : PendingLabelled s.tracker) (event : PipelineEvent) :
    (∀ i ∈ increments cfg s event, Labelled i) ∧
      PendingLabelled (step cfg s event).tracker := by
  have hnone : ∀ i ∈ ([] : List (Family × String)), Labelled i :=
    fun i hi => absurd hi List.not_mem_nil
  cases event with
  | execute blockhash tipIndex answer now =>
      cases hc : s.channel with
      | nil =>
          have hinc : increments cfg s (.execute blockhash tipIndex answer now) = [] := by
            cases blockhash with
            | none => rfl
            | some blockhash => simp only [increments, hc]
          rw [step_execute_nil cfg s _ _ _ _ hc, hinc]
          exact ⟨hnone, hpending⟩
      | cons opp rest =>
          have hopp : opp.strategy ∈ bundleLabels := hchannel opp (hc ▸ List.mem_cons_self)
          rw [step_execute_cons cfg s _ _ _ _ hc]
          cases blockhash with
          | none => exact ⟨hnone, hpending⟩
          | some blockhash =>
              rw [show increments cfg s (.execute (some blockhash) tipIndex answer now) =
                executeIncrements cfg opp answer by simp only [increments, hc]]
              refine ⟨executeIncrements_labelled hopp answer, ?_⟩
              simp only [executeOne]
              split
              · exact hpending
              · cases answer with
                | ok bundleId => exact hpending.track hopp _ _ _ _
                | error message => exact hpending
  | poll now response recordedAt =>
      rw [increments, step]
      split
      · exact (hpending.poll now response).symm
      · exact ⟨hnone, hpending⟩
  | dexReceive update =>
      rcases step_dexReceive_cases cfg s update with heq | ⟨-, heq⟩
      · rw [heq]
        exact ⟨hnone, hpending⟩
      · rw [heq]
        exact ⟨hnone, hpending⟩
  | dexProcess =>
      rcases step_dexProcess_cases cfg s with heq | ⟨update, -, heq⟩
      · rw [heq]
        exact ⟨hnone, hpending⟩
      · rw [heq]
        exact ⟨hnone, hpending⟩
  | liquidationReceive update =>
      rcases step_liquidationReceive_cases cfg s update with heq | ⟨-, heq⟩
      · rw [heq]
        exact ⟨hnone, hpending⟩
      · rw [heq]
        exact ⟨hnone, hpending⟩
  | liquidationProcess =>
      rcases step_liquidationProcess_cases cfg s with heq | ⟨update, -, heq⟩
      · rw [heq]
        exact ⟨hnone, hpending⟩
      · rw [heq]
        exact ⟨hnone, hpending⟩
  | dexCheck => exact ⟨checkIncrements_labelled (Or.inl rfl), hpending⟩
  | liquidationCheck => exact ⟨checkIncrements_labelled (Or.inr rfl), hpending⟩
  | cacheUpdate update => exact ⟨hnone, hpending⟩
  | dexSend => exact ⟨hnone, hpending⟩
  | liquidationSend => exact ⟨hnone, hpending⟩

/-- **ANY INTERLEAVING** counts under the labels. -/
theorem run_labelled (cfg : PipelineConfig F) (cache : AccountCache)
    (events : List PipelineEvent) :
    (∀ i ∈ incrementsOf cfg cache events, Labelled i) ∧
      PendingLabelled (run cfg (PipelineState.init cfg cache) events).tracker := by
  induction events using List.reverseRecOn with
  | nil => exact ⟨fun i hi => absurd hi List.not_mem_nil, fun b hb => absurd hb List.not_mem_nil⟩
  | append_singleton events event ih =>
      obtain ⟨hincs, hpending⟩ := step_labelled cfg (channel_label cfg cache events) ih.2 event
      rw [run_concat, incrementsOf, collect_concat]
      refine ⟨?_, hpending⟩
      intro i hi
      rcases List.mem_append.mp hi with hi | hi
      · exact ih.1 i hi
      · exact hincs i hi

theorem sum_indicator (label : String) (labels : List String) :
    (labels.map fun l => if (label == l) = true then 1 else 0).sum = labels.count label := by
  induction labels with
  | nil => rfl
  | cons l labels ih =>
      rw [List.map_cons, List.sum_cons, ih, List.count_cons, Bool.beq_comm, Nat.add_comm]

/-- The increments of a family are those of its labels. -/
theorem totalOf_eq_sum (family : Family) {labels : List String} (hlabels : labels.Nodup)
    {incs : List (Family × String)} (h : ∀ i ∈ incs, i.1 = family → i.2 ∈ labels) :
    totalOf family incs = (labels.map fun label => incs.count (family, label)).sum := by
  induction incs with
  | nil => simp [totalOf]
  | cons i incs ih =>
      have hrest := ih fun i' hi' => h i' (List.mem_cons_of_mem i hi')
      obtain ⟨f, l⟩ := i
      rw [totalOf, List.countP_cons, ← totalOf, hrest]
      simp only [List.count_cons, List.sum_map_add]
      congr 1
      by_cases hf : f = family
      · subst hf
        have hl : l ∈ labels := h (f, l) List.mem_cons_self rfl
        have hone := sum_indicator l labels
        rw [List.count_eq_one_of_mem hlabels hl] at hone
        simpa using hone.symm
      · simp [hf]

theorem sum_ofNat (counts : String → Nat) (labels : List String) :
    (labels.map fun label => UInt64.ofNat (counts label)).sum =
      UInt64.ofNat (labels.map counts).sum := by
  induction labels with
  | nil => rfl
  | cons l labels ih =>
      rw [List.map_cons, List.map_cons, List.sum_cons, List.sum_cons, ih, UInt64.ofNat_add]

/-! ## The law -/

/-- The counters of a family sum up to all its increments. -/
theorem sum_vec (cfg : PipelineConfig F) (cache : AccountCache) (events : List PipelineEvent)
    (family : Family) (labels : List String) (hnodup : labels.Nodup)
    (hin : ∀ i ∈ incrementsOf cfg cache events, i.1 = family → i.2 ∈ labels) :
    (labels.map ((meteredRun cfg cache events).2.vec family)).sum =
      UInt64.ofNat (totalOf family (incrementsOf cfg cache events)) := by
  rw [totalOf_eq_sum family hnodup hin, ← sum_ofNat]
  exact congrArg List.sum (List.map_congr_left fun label _ => meteredRun_vec ..)

/-- A label without increments counts nothing. -/
theorem vec_absent (cfg : PipelineConfig F) (cache : AccountCache)
    (events : List PipelineEvent) (family : Family) (label : String)
    (h : (family, label) ∉ incrementsOf cfg cache events) :
    (meteredRun cfg cache events).2.vec family label = 0 := by
  have hvec : (meteredRun cfg cache events).2.vec family label = _ := meteredRun_vec ..
  rw [hvec, List.count_eq_zero.mpr h]
  rfl

/-- **THE COUNTERS AGREE WITH THE P&L**, in every interleaving: summed over their labels
    they are its totals.  But liquidations are found under one label and submitted under
    those of the protocols, so no label of theirs has both counts, and the profit and tip
    counters stay at zero. -/
theorem metrics_match_pnl (cfg : PipelineConfig F) (cache : AccountCache)
    (events : List PipelineEvent) :
    let x := meteredRun cfg cache events
    x.2.opportunitiesFound "dex_arb" + x.2.opportunitiesFound "liquidation" =
        x.1.pnl.totalOpportunities ∧
      (bundleLabels.map x.2.bundlesSubmitted).sum = x.1.pnl.totalBundlesSubmitted ∧
      (bundleLabels.map x.2.bundlesLanded).sum = x.1.pnl.totalBundlesLanded ∧
      (∀ label, label ≠ "dex_arb" → label ≠ "liquidation" → x.2.opportunitiesFound label = 0) ∧
      (∀ label ∉ bundleLabels, x.2.bundlesSubmitted label = 0 ∧
        x.2.bundlesLanded label = 0 ∧ x.2.bundlesFailed label = 0) ∧
      x.2.profitLamports = 0 ∧ x.2.tipLamports = 0 := by
  intro x
  have htallied := run_tallied cfg cache events
  have hlabelled := (run_labelled cfg cache events).1
  have hstate : x.1 = run cfg (PipelineState.init cfg cache) events := meteredRun_fst ..
  have hbundle : ∀ family, family ≠ .found →
      ∀ i ∈ incrementsOf cfg cache events, i.1 = family → i.2 ∈ bundleLabels := by
    intro family hfamily i hi heq
    have h := hlabelled i hi
    rwa [Labelled, if_neg (heq ▸ hfamily)] at h
  refine ⟨?_, ?_, ?_, ?_, ?_, ?_, ?_⟩
  · have hfound := sum_vec cfg cache events .found ["dex_arb", "liquidation"]
      (by decide) fun i hi heq => by
        have h := hlabelled i hi
        rw [Labelled, if_pos heq] at h
        simpa using h
    rw [hstate, htallied.found]
    refine Eq.trans ?_ (hfound.trans (UInt64.zero_add _).symm)
    show _ = x.2.opportunitiesFound "dex_arb" + (x.2.opportunitiesFound "liquidation" + 0)
    rw [UInt64.add_zero]
  · rw [hstate, htallied.submitted]
    exact (sum_vec cfg cache events .submitted _ (by decide) (hbundle .submitted (by decide))).trans
      (UInt64.zero_add _).symm
  · rw [hstate, htallied.landed]
    exact (sum_vec cfg cache events .landed _ (by decide) (hbundle .landed (by decide))).trans
      (UInt64.zero_add _).symm
  · intro label h1 h2
    refine vec_absent cfg cache events .found label fun hi => ?_
    rcases hlabelled _ hi with h | h
    · exact h1 h
    · exact h2 h
  · intro label hlabel
    exact ⟨vec_absent cfg cache events .submitted label fun hi => hlabel (hlabelled _ hi),
      vec_absent cfg cache events .landed label fun hi => hlabel (hlabelled _ hi),
      vec_absent cfg cache events .failed label fun hi => hlabel (hlabelled _ hi)⟩
  · exact (meteredRun_counted cfg cache events).profit
  · exact (meteredRun_counted cfg cache events).tip

end MevMetrics
