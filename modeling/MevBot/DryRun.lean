import MevBot.BundleAccounts

/-! # A dry run

    With `dry_run` set the executor builds and counts its bundles and sends
    nothing.  Such a run is a rehearsal: it books nothing, and on the same turns
    it finds, forwards and executes what the live bot does, until the breaker of
    the live bot trips (`dry_run_rehearses`). -/

namespace MevDryRun

open MevMachine MevTypes MevCache MevStrategy MevRisk MevTracker MevPipeline MevLedger

variable {F : Type} [F64 F]

/-- The configuration with `dry_run` set or not. -/
def inMode (cfg : PipelineConfig F) (dryRun : Bool) : PipelineConfig F := { cfg with dryRun }

/-- The executor's books are as they were at the start. -/
structure Unbooked (cfg : PipelineConfig F) (s : PipelineState F) : Prop where
  tracker : s.tracker = BundleStatusTracker.new 64 30
  breaker : s.breaker =
    CircuitBreaker.new cfg.circuitBreakerWindowSecs cfg.circuitBreakerMaxLossLamports
  landed : s.pnl.totalBundlesLanded = 0
  profit : s.pnl.totalProfitLamports = 0
  tip : s.pnl.totalTipLamports = 0

/-- Two states that differ in the executor's books only. -/
structure SameWork (s t : PipelineState F) : Prop where
  cache : s.cache = t.cache
  dexArb : s.dexArb = t.dexArb
  dexOutbox : s.dexOutbox = t.dexOutbox
  liquidationOutbox : s.liquidationOutbox = t.liquidationOutbox
  channel : s.channel = t.channel
  executed : s.executed = t.executed
  opportunities : s.pnl.totalOpportunities = t.pnl.totalOpportunities
  submitted : s.pnl.totalBundlesSubmitted = t.pnl.totalBundlesSubmitted

omit [F64 F] in
theorem SameWork.refl (s : PipelineState F) : SameWork s s :=
  ⟨rfl, rfl, rfl, rfl, rfl, rfl, rfl, rfl⟩

/-! ## The books of a dry run -/

omit [F64 F] in
/-- The books look at these fields of a state only. -/
theorem Unbooked.of_same {cfg : PipelineConfig F} {s s' : PipelineState F} (h : Unbooked cfg s)
    (tracker : s'.tracker = s.tracker) (breaker : s'.breaker = s.breaker)
    (landed : s'.pnl.totalBundlesLanded = s.pnl.totalBundlesLanded)
    (profit : s'.pnl.totalProfitLamports = s.pnl.totalProfitLamports)
    (tip : s'.pnl.totalTipLamports = s.pnl.totalTipLamports) : Unbooked cfg s' :=
  ⟨tracker.trans h.tracker, breaker.trans h.breaker, landed.trans h.landed,
    profit.trans h.profit, tip.trans h.tip⟩

/-- Without a pending bundle there is nothing to poll for. -/
theorem step_poll_unbooked {cfg : PipelineConfig F} {s : PipelineState F}
    (h : Unbooked cfg s) (now : Nat) (response : Except String Json) (recordedAt : Nat → Nat) :
    step (inMode cfg true) s (.poll now response recordedAt) = s := by
  simp only [MevPipeline.step]
  rw [if_neg]
  rw [h.tracker]
  exact Nat.lt_irrefl 0

/-- **ONE TURN** of a dry run books nothing. -/
theorem Unbooked.step {cfg : PipelineConfig F} {s : PipelineState F} (h : Unbooked cfg s)
    (event : PipelineEvent) : Unbooked cfg (step (inMode cfg true) s event) := by
  cases event with
  | cacheUpdate update => exact h.of_same rfl rfl rfl rfl rfl
  | dexReceive update =>
      rcases step_dexReceive_cases (inMode cfg true) s update with heq | ⟨-, heq⟩
      · rw [heq]
        exact h
      · rw [heq]
        exact h.of_same rfl rfl rfl rfl rfl
  | dexProcess =>
      rcases step_dexProcess_cases (inMode cfg true) s with heq | ⟨update, -, heq⟩
      · rw [heq]
        exact h
      · rw [heq]
        exact h.of_same rfl rfl rfl rfl rfl
  | dexCheck =>
      have hcounters := check_counters (inMode cfg true) s.dexOutbox s.pnl
      exact h.of_same rfl rfl hcounters.landed hcounters.profit hcounters.tip
  | dexSend => exact h.of_same rfl rfl rfl rfl rfl
  | liquidationReceive update =>
      rcases step_liquidationReceive_cases (inMode cfg true) s update with heq | ⟨-, heq⟩
      · rw [heq]
        exact h
      · rw [heq]
        exact h.of_same rfl rfl rfl rfl rfl
  | liquidationProcess =>
      rcases step_liquidationProcess_cases (inMode cfg true) s with heq | ⟨update, -, heq⟩
      · rw [heq]
        exact h
      · rw [heq]
        exact h.of_same rfl rfl rfl rfl rfl
  | liquidationCheck =>
      have hcounters := check_counters (inMode cfg true) s.liquidationOutbox s.pnl
      exact h.of_same rfl rfl hcounters.landed hcounters.profit hcounters.tip
  | liquidationSend => exact h.of_same rfl rfl rfl rfl rfl
  | execute blockhash tipIndex answer now =>
      cases hchannel : s.channel with
      | nil =>
          rw [step_execute_nil _ s _ _ _ _ hchannel]
          exact h
      | cons opp rest =>
          rw [step_execute_cons _ s _ _ _ _ hchannel]
          cases blockhash with
          | none => exact h.of_same rfl rfl rfl rfl rfl
          | some blockhash => exact h.of_same rfl rfl rfl rfl rfl
  | poll now response recordedAt =>
      rw [step_poll_unbooked h]
      exact h

/-- **A DRY RUN BOOKS NOTHING.** -/
theorem unbooked_run (cfg : PipelineConfig F) (cache : AccountCache)
    (events : List PipelineEvent) :
    Unbooked cfg (run (inMode cfg true) (PipelineState.init cfg cache) events) := by
  induction events using List.reverseRecOn with
  | nil => exact ⟨rfl, rfl, rfl, rfl, rfl⟩
  | append_singleton events event ih =>
      rw [run_concat]
      exact ih.step event

/-! ## The rehearsal -/

omit [F64 F] in
/-- The same opportunity is checked and counted on both sides. -/
theorem check_same (cfg : PipelineConfig F) (o : Outbox) {p q : PnlTracker}
    (h : p.totalOpportunities = q.totalOpportunities) :
    (o.check (inMode cfg true) p).1 = (o.check (inMode cfg false) q).1 ∧
      (o.check (inMode cfg true) p).2.totalOpportunities =
        (o.check (inMode cfg false) q).2.totalOpportunities := by
  rw [Outbox.check, Outbox.check]
  split
  · exact ⟨rfl, congrArg (· + 1) h⟩
  · exact ⟨rfl, h⟩

/-- **ONE TURN**, dry and live, with both breakers open: the same work. -/
theorem SameWork.step {cfg : PipelineConfig F} {s t : PipelineState F} (h : SameWork s t)
    (hbooks : Unbooked cfg s) (hallowed : t.breaker.isAllowed = true) (event : PipelineEvent) :
    SameWork (step (inMode cfg true) s event) (step (inMode cfg false) t event) := by
  have hdry : s.breaker.isAllowed = true := by
    rw [hbooks.breaker]
    rfl
  have hpoll := fun now response recordedAt =>
    step_poll_unbooked hbooks now response recordedAt
  obtain ⟨cache, dexArb, dexOutbox, liquidationOutbox, channel, breaker, tracker, pnl,
    executed⟩ := s
  obtain ⟨cache', dexArb', dexOutbox', liquidationOutbox', channel', breaker', tracker', pnl',
    executed'⟩ := t
  obtain ⟨rfl, rfl, rfl, rfl, rfl, rfl, hopps, hsubmitted⟩ := h
  change breaker.isAllowed = true at hdry
  change breaker'.isAllowed = true at hallowed
  change pnl.totalOpportunities = pnl'.totalOpportunities at hopps
  change pnl.totalBundlesSubmitted = pnl'.totalBundlesSubmitted at hsubmitted
  -- the checks count on both sides and look at nothing the modes differ in
  have hcheck : ∀ o : Outbox, (o.check (inMode cfg true) pnl).1 =
      (o.check (inMode cfg false) pnl').1 ∧
      (o.check (inMode cfg true) pnl).2.totalOpportunities =
        (o.check (inMode cfg false) pnl').2.totalOpportunities ∧
      (o.check (inMode cfg true) pnl).2.totalBundlesSubmitted =
        (o.check (inMode cfg false) pnl').2.totalBundlesSubmitted := by
    intro o
    obtain ⟨houtbox, hcount⟩ := check_same cfg o hopps
    refine ⟨houtbox, hcount, ?_⟩
    rw [(check_counters _ o pnl).submitted, (check_counters _ o pnl').submitted]
    exact hsubmitted
  cases event with
  | cacheUpdate update => exact ⟨rfl, rfl, rfl, rfl, rfl, rfl, hopps, hsubmitted⟩
  | dexReceive update =>
      simp only [MevPipeline.step, hdry, hallowed]
      split
      · exact ⟨rfl, rfl, rfl, rfl, rfl, rfl, hopps, hsubmitted⟩
      · exact ⟨rfl, rfl, rfl, rfl, rfl, rfl, hopps, hsubmitted⟩
  | dexProcess =>
      cases dexOutbox with
      | received update => exact ⟨rfl, rfl, rfl, rfl, rfl, rfl, hopps, hsubmitted⟩
      | forwarding queue sending => exact ⟨rfl, rfl, rfl, rfl, rfl, rfl, hopps, hsubmitted⟩
  | dexCheck =>
      obtain ⟨houtbox, hcount, hsub⟩ := hcheck dexOutbox
      exact ⟨rfl, rfl, houtbox, rfl, rfl, rfl, hcount, hsub⟩
  | dexSend => exact ⟨rfl, rfl, rfl, rfl, rfl, rfl, hopps, hsubmitted⟩
  | liquidationReceive update =>
      simp only [MevPipeline.step, hdry, hallowed, inMode]
      split
      · exact ⟨rfl, rfl, rfl, rfl, rfl, rfl, hopps, hsubmitted⟩
      · exact ⟨rfl, rfl, rfl, rfl, rfl, rfl, hopps, hsubmitted⟩
  | liquidationProcess =>
      cases liquidationOutbox with
      | received update => exact ⟨rfl, rfl, rfl, rfl, rfl, rfl, hopps, hsubmitted⟩
      | forwarding queue sending => exact ⟨rfl, rfl, rfl, rfl, rfl, rfl, hopps, hsubmitted⟩
  | liquidationCheck =>
      obtain ⟨houtbox, hcount, hsub⟩ := hcheck liquidationOutbox
      exact ⟨rfl, rfl, rfl, houtbox, rfl, rfl, hcount, hsub⟩
  | liquidationSend => exact ⟨rfl, rfl, rfl, rfl, rfl, rfl, hopps, hsubmitted⟩
  | execute blockhash tipIndex answer now =>
      cases channel with
      | nil => exact ⟨rfl, rfl, rfl, rfl, rfl, rfl, hopps, hsubmitted⟩
      | cons opp rest =>
          cases blockhash with
          | none => exact ⟨rfl, rfl, rfl, rfl, rfl, rfl, hopps, hsubmitted⟩
          | some blockhash =>
              -- whatever the block engine answers, only the tracker takes note
              have hcount := congrArg (· + 1) hsubmitted
              cases answer with
              | ok bundleId => exact ⟨rfl, rfl, rfl, rfl, rfl, rfl, hopps, hcount⟩
              | error message => exact ⟨rfl, rfl, rfl, rfl, rfl, rfl, hopps, hcount⟩
  | poll now response recordedAt =>
      rw [hpoll]
      rcases step_poll_cases (inMode cfg false) ⟨cache, dexArb, dexOutbox, liquidationOutbox,
        channel, breaker', tracker', pnl', executed⟩ now response recordedAt with heq | heq
      · rw [heq]
        exact ⟨rfl, rfl, rfl, rfl, rfl, rfl, hopps, hsubmitted⟩
      · rw [heq]
        refine ⟨rfl, rfl, rfl, rfl, rfl, rfl, hopps.trans ?_, hsubmitted.trans ?_⟩
        · exact (recordOutcomes_opportunities recordedAt (pnl', breaker') _).symm
        · exact (recordOutcomes_booked recordedAt (pnl', breaker') _).submitted.symm

/-- **A DRY RUN REHEARSES**: in every interleaving a dry run tracks no bundle, books no
    profit and never trips its breaker; and it has found, forwarded and executed what the
    live bot has on the same turns, unless the breaker of the live bot has tripped. -/
theorem dry_run_rehearses (cfg : PipelineConfig F) (cache : AccountCache)
    (events : List PipelineEvent) :
    Unbooked cfg (run (inMode cfg true) (PipelineState.init cfg cache) events) ∧
      (SameWork (run (inMode cfg true) (PipelineState.init cfg cache) events)
          (run (inMode cfg false) (PipelineState.init cfg cache) events) ∨
        ∃ before after, events = before ++ after ∧
          (run (inMode cfg false) (PipelineState.init cfg cache) before).breaker.tripped =
            true) := by
  refine ⟨unbooked_run cfg cache events, ?_⟩
  induction events using List.reverseRecOn with
  | nil => exact Or.inl (SameWork.refl _)
  | append_singleton events event ih =>
      rcases ih with hsame | ⟨before, after, rfl, htripped⟩
      · cases htripped : (run (inMode cfg false) (PipelineState.init cfg cache)
            events).breaker.tripped with
        | true => exact Or.inr ⟨events, [event], rfl, htripped⟩
        | false =>
            left
            rw [run_concat, run_concat]
            refine hsame.step (unbooked_run cfg cache events) ?_ event
            rw [CircuitBreaker.isAllowed, htripped]
            rfl
      · exact Or.inr ⟨before, after ++ [event], by rw [List.append_assoc], htripped⟩

end MevDryRun
