import MevBot.BreakerLaws
import MevBot.BundleAccounts

/-! # What a tripped breaker stops

    The strategy tasks ask the breaker before they process an update; the
    executor task never asks it.  So an opportunity that is already past that
    question when the breaker trips is executed all the same, be it in an update
    still to process, in an outbox or in the channel.  A tripped breaker stops
    the executor exactly when no approved opportunity is on its way at the trip
    (`stops_iff_quietTrips`). -/

namespace MevGate

open MevMachine MevTypes MevCache MevStrategy MevRisk MevTracker MevTrackerLaws MevPipeline
open MevLedger MevAccounts MevBreaker

section Runs

variable {F : Type}

/-! ## Opportunities on their way -/

/-- The outbox is sending, or holds an opportunity the filters accept. -/
def Approved (cfg : PipelineConfig F) (o : Outbox) : Prop :=
  o.sending.isSome = true ∨ ∃ opp ∈ o.queue, cfg.accepts opp = true

/-- Nothing approved leaves an outbox without an approved opportunity. -/
theorem check_not_approved {cfg : PipelineConfig F} {o : Outbox} (h : ¬Approved cfg o)
    (pnl : PnlTracker) : ¬Approved cfg (o.check cfg pnl).1 := by
  rcases o.check_cases cfg pnl with heq | ⟨opp, rest, rfl, heq⟩
  · rw [heq]
    exact h
  · rw [heq]
    have hopp : ¬cfg.accepts opp = true := fun haccepts =>
      h (Or.inr ⟨opp, List.mem_cons_self, haccepts⟩)
    rw [if_neg hopp]
    rintro (hsome | ⟨opp', hmem, haccepts⟩)
    · cases hsome
    · exact h (Or.inr ⟨opp', List.mem_cons_of_mem opp hmem, haccepts⟩)

theorem send_not_approved {cfg : PipelineConfig F} {o : Outbox} (h : ¬Approved cfg o)
    (channel : List Opportunity) : o.send channel = (o, channel) := by
  rcases o.send_cases channel with heq | ⟨opp, hsending, -, -⟩
  · exact heq
  · exact absurd (Or.inl (by rw [hsending]; rfl)) h

/-- A batch that goes into the loop is approved if one of its opportunities is accepted. -/
theorem approved_forwarding_iff {cfg : PipelineConfig F} {batch : List Opportunity} :
    Approved cfg (.forwarding batch none) ↔ ∃ opp ∈ batch, cfg.accepts opp = true := by
  refine ⟨?_, Or.inr⟩
  rintro (hsome | haccepted)
  · cases hsome
  · exact haccepted

variable [F64 F]

/-- The DEX task holds an update that yields an accepted opportunity, on the cache as it
    is or after further updates of it. -/
def DexYields (cfg : PipelineConfig F) (s : PipelineState F) : Prop :=
  ∃ update, s.dexOutbox.unprocessed = some update ∧ ∃ us : List AccountUpdate,
    ∃ opp ∈ (s.dexArb.processUpdate (us.foldl AccountCache.update s.cache) update).2,
      cfg.accepts opp = true

/-- The liquidation task holds one; it reads no cache. -/
def LiquidationYields (cfg : PipelineConfig F) (s : PipelineState F) : Prop :=
  ∃ update, s.liquidationOutbox.unprocessed = some update ∧
    ∃ opp ∈ (cfg.liquidation.processUpdate F update).toList, cfg.accepts opp = true

/-- An approved opportunity is in the channel or on its way to it, if only in an update
    that a task was let have. -/
inductive InFlight (cfg : PipelineConfig F) (s : PipelineState F) : Prop
  | channel (h : s.channel ≠ [])
  | dex (h : Approved cfg s.dexOutbox)
  | liquidation (h : Approved cfg s.liquidationOutbox)
  | dexYields (h : DexYields cfg s)
  | liquidationYields (h : LiquidationYields cfg s)

/-! ## The latch -/

theorem bookTrade_tripped {c : CircuitBreaker} (h : c.tripped = true)
    (r : BundleOutcome × Nat) : (bookTrade c r).tripped = true := by
  rw [bookTrade]
  cases tradeOf r.1 with
  | none => exact h
  | some profit => exact (recordTrade_tripped c profit r.2).mpr (Or.inl h)

/-- No outcome opens the breaker. -/
theorem recordOutcomes_tripped {s : PnlTracker × CircuitBreaker} (h : s.2.tripped = true)
    (recordedAt : Nat → Nat) (outcomes : List BundleOutcome) :
    (recordOutcomes recordedAt s outcomes).2.tripped = true := by
  rw [(recordOutcomes_booked recordedAt s outcomes).breaker]
  refine List.foldlRecOn (motive := fun c : CircuitBreaker => c.tripped = true) _ _ h ?_
  intro c hc r _
  exact bookTrade_tripped hc r

/-- The opportunities are where they were, and what is to be found as it was. -/
structure SameFlow (s s' : PipelineState F) : Prop where
  channel : s'.channel = s.channel
  dexOutbox : s'.dexOutbox = s.dexOutbox
  liquidationOutbox : s'.liquidationOutbox = s.liquidationOutbox
  dexArb : s'.dexArb = s.dexArb
  cache : s'.cache = s.cache

theorem SameFlow.inFlight {cfg : PipelineConfig F} {s s' : PipelineState F} (h : SameFlow s s')
    (hflight : InFlight cfg s) : InFlight cfg s' := by
  obtain ⟨hchannel, hdex, hliquidation, hdexArb, hcache⟩ := h
  cases hflight with
  | channel h => exact .channel (by rwa [hchannel])
  | dex h => exact .dex (by rwa [hdex])
  | liquidation h => exact .liquidation (by rwa [hliquidation])
  | dexYields h => exact .dexYields (by rwa [DexYields, hdex, hdexArb, hcache])
  | liquidationYields h => exact .liquidationYields (by rwa [LiquidationYields, hliquidation])

omit [F64 F] in
theorem SameFlow.symm {s s' : PipelineState F} (h : SameFlow s s') : SameFlow s' s :=
  ⟨h.channel.symm, h.dexOutbox.symm, h.liquidationOutbox.symm, h.dexArb.symm, h.cache.symm⟩

theorem executeOne_breaker (cfg : PipelineConfig F) (s : PipelineState F) (opp : Opportunity)
    (blockhash : Option Hash) (tipIndex : Fin 8) (answer : Except String String) (now : Nat) :
    (executeOne cfg s opp blockhash tipIndex answer now).breaker = s.breaker := by
  unfold executeOne
  split
  · rfl
  · split
    · rfl
    · split
      · rfl
      · rfl

/-- Only a poll writes to the breaker, and a poll moves no opportunity. -/
theorem step_breaker_or_flow (cfg : PipelineConfig F) (s : PipelineState F)
    (event : PipelineEvent) :
    (step cfg s event).breaker = s.breaker ∨ SameFlow s (step cfg s event) := by
  cases event with
  | cacheUpdate update => exact Or.inl rfl
  | dexReceive update =>
      rcases step_dexReceive_cases cfg s update with heq | ⟨-, heq⟩
      · exact Or.inl (congrArg (·.breaker) heq)
      · exact Or.inl (congrArg (·.breaker) heq)
  | dexProcess =>
      rcases step_dexProcess_cases cfg s with heq | ⟨update, -, heq⟩
      · exact Or.inl (congrArg (·.breaker) heq)
      · exact Or.inl (congrArg (·.breaker) heq)
  | dexCheck => exact Or.inl rfl
  | dexSend => exact Or.inl rfl
  | liquidationReceive update =>
      rcases step_liquidationReceive_cases cfg s update with heq | ⟨-, heq⟩
      · exact Or.inl (congrArg (·.breaker) heq)
      · exact Or.inl (congrArg (·.breaker) heq)
  | liquidationProcess =>
      rcases step_liquidationProcess_cases cfg s with heq | ⟨update, -, heq⟩
      · exact Or.inl (congrArg (·.breaker) heq)
      · exact Or.inl (congrArg (·.breaker) heq)
  | liquidationCheck => exact Or.inl rfl
  | liquidationSend => exact Or.inl rfl
  | execute blockhash tipIndex answer now =>
      refine Or.inl ?_
      cases hchannel : s.channel with
      | nil => rw [step_execute_nil cfg s _ _ _ _ hchannel]
      | cons opp rest =>
          rw [step_execute_cons cfg s _ _ _ _ hchannel]
          exact executeOne_breaker _ _ _ _ _ _ _
  | poll now response recordedAt =>
      refine Or.inr ?_
      rcases step_poll_cases cfg s now response recordedAt with heq | heq
      · rw [heq]
        exact ⟨rfl, rfl, rfl, rfl, rfl⟩
      · rw [heq]
        exact ⟨rfl, rfl, rfl, rfl, rfl⟩

/-- A turn that trips the breaker moves no opportunity. -/
theorem step_trips {cfg : PipelineConfig F} {s : PipelineState F} {event : PipelineEvent}
    (hbefore : s.breaker.tripped = false) (hafter : (step cfg s event).breaker.tripped = true) :
    SameFlow s (step cfg s event) := by
  rcases step_breaker_or_flow cfg s event with heq | hflow
  · rw [heq, hbefore] at hafter
    cases hafter
  · exact hflow

/-! ## A tripped pipeline with nothing on its way -/

/-- The breaker is tripped and no approved opportunity is on its way. -/
structure Stopped (cfg : PipelineConfig F) (s : PipelineState F) : Prop where
  tripped : s.breaker.tripped = true
  empty : ¬InFlight cfg s

/-- A tripped breaker lets nothing more through. -/
theorem Stopped.receive {cfg : PipelineConfig F} {s : PipelineState F} (h : Stopped cfg s)
    (update : AccountUpdate) :
    step cfg s (.dexReceive update) = s ∧ step cfg s (.liquidationReceive update) = s := by
  have hstopped : s.breaker.isAllowed = false := by
    rw [CircuitBreaker.isAllowed, h.tripped]
    rfl
  refine ⟨?_, ?_⟩
  · rcases step_dexReceive_cases cfg s update with heq | ⟨⟨-, hallowed⟩, -⟩
    · exact heq
    · rw [hstopped] at hallowed
      cases hallowed
  · rcases step_liquidationReceive_cases cfg s update with heq | ⟨⟨-, hallowed, -⟩, -⟩
    · exact heq
    · rw [hstopped] at hallowed
      cases hallowed

/-- What the DEX task processes of what it was let have yields nothing. -/
theorem Stopped.dexProcess {cfg : PipelineConfig F} {s : PipelineState F} (h : Stopped cfg s) :
    ¬InFlight cfg (step cfg s .dexProcess) := by
  rcases step_dexProcess_cases cfg s with heq | ⟨update, hheld, heq⟩
  · rw [heq]
    exact h.empty
  · rw [heq]
    intro hflight
    cases hflight with
    | channel hne => exact h.empty (.channel hne)
    | dex happroved =>
        exact h.empty (.dexYields
          ⟨update, by rw [hheld]; rfl, [], approved_forwarding_iff.mp happroved⟩)
    | liquidation happroved => exact h.empty (.liquidation happroved)
    | dexYields hyields =>
        obtain ⟨_, hnone, -⟩ := hyields
        cases hnone
    | liquidationYields hyields => exact h.empty (.liquidationYields hyields)

/-- And so with the liquidation task. -/
theorem Stopped.liquidationProcess {cfg : PipelineConfig F} {s : PipelineState F}
    (h : Stopped cfg s) : ¬InFlight cfg (step cfg s .liquidationProcess) := by
  rcases step_liquidationProcess_cases cfg s with heq | ⟨update, hheld, heq⟩
  · rw [heq]
    exact h.empty
  · rw [heq]
    intro hflight
    cases hflight with
    | channel hne => exact h.empty (.channel hne)
    | dex happroved => exact h.empty (.dex happroved)
    | liquidation happroved =>
        exact h.empty (.liquidationYields
          ⟨update, by rw [hheld]; rfl, approved_forwarding_iff.mp happroved⟩)
    | dexYields hyields => exact h.empty (.dexYields hyields)
    | liquidationYields hyields =>
        obtain ⟨_, hnone, -⟩ := hyields
        cases hnone

/-- A cache update brings no more than the update to process could yield before. -/
theorem Stopped.cacheUpdate {cfg : PipelineConfig F} {s : PipelineState F} (h : Stopped cfg s)
    (update : AccountUpdate) : ¬InFlight cfg (step cfg s (.cacheUpdate update)) := by
  intro hflight
  cases hflight with
  | channel hne => exact h.empty (.channel hne)
  | dex happroved => exact h.empty (.dex happroved)
  | liquidation happroved => exact h.empty (.liquidation happroved)
  | dexYields hyields =>
      obtain ⟨u, hheld, us, hfound⟩ := hyields
      exact h.empty (.dexYields ⟨u, hheld, update :: us, hfound⟩)
  | liquidationYields hyields => exact h.empty (.liquidationYields hyields)

/-- A check drops what a stopped pipeline has in its loops. -/
theorem Stopped.check {cfg : PipelineConfig F} {s : PipelineState F} (h : Stopped cfg s) :
    ¬InFlight cfg (step cfg s .dexCheck) ∧ ¬InFlight cfg (step cfg s .liquidationCheck) := by
  refine ⟨?_, ?_⟩
  · intro hflight
    cases hflight with
    | channel hne => exact h.empty (.channel hne)
    | dex happroved => exact check_not_approved (fun h' => h.empty (.dex h')) s.pnl happroved
    | liquidation happroved => exact h.empty (.liquidation happroved)
    | dexYields hyields =>
        obtain ⟨u, hheld, hfound⟩ := hyields
        exact h.empty (.dexYields
          ⟨u, (s.dexOutbox.check_unprocessed cfg s.pnl).symm.trans hheld, hfound⟩)
    | liquidationYields hyields => exact h.empty (.liquidationYields hyields)
  · intro hflight
    cases hflight with
    | channel hne => exact h.empty (.channel hne)
    | dex happroved => exact h.empty (.dex happroved)
    | liquidation happroved =>
        exact check_not_approved (fun h' => h.empty (.liquidation h')) s.pnl happroved
    | dexYields hyields => exact h.empty (.dexYields hyields)
    | liquidationYields hyields =>
        obtain ⟨u, hheld, hfound⟩ := hyields
        exact h.empty (.liquidationYields
          ⟨u, (s.liquidationOutbox.check_unprocessed cfg s.pnl).symm.trans hheld, hfound⟩)

/-- A send has nothing to send. -/
theorem Stopped.send {cfg : PipelineConfig F} {s : PipelineState F} (h : Stopped cfg s) :
    step cfg s .dexSend = s ∧ step cfg s .liquidationSend = s := by
  refine ⟨?_, ?_⟩
  · simp only [MevPipeline.step]
    rw [send_not_approved fun happroved => h.empty (.dex happroved)]
  · simp only [MevPipeline.step]
    rw [send_not_approved fun happroved => h.empty (.liquidation happroved)]

/-- **ONE TURN** of a stopped pipeline: it stays stopped and executes nothing. -/
theorem Stopped.step {cfg : PipelineConfig F} {s : PipelineState F} (h : Stopped cfg s)
    (event : PipelineEvent) :
    Stopped cfg (step cfg s event) ∧ (MevPipeline.step cfg s event).executed = s.executed := by
  cases event with
  | cacheUpdate update => exact ⟨⟨h.tripped, h.cacheUpdate update⟩, rfl⟩
  | dexReceive update =>
      rw [(h.receive update).1]
      exact ⟨h, rfl⟩
  | dexProcess =>
      have hempty := h.dexProcess
      rcases step_dexProcess_cases cfg s with heq | ⟨update, -, heq⟩
      · rw [heq]
        exact ⟨h, rfl⟩
      · rw [heq] at hempty ⊢
        exact ⟨⟨h.tripped, hempty⟩, rfl⟩
  | dexCheck => exact ⟨⟨h.tripped, h.check.1⟩, rfl⟩
  | dexSend =>
      rw [h.send.1]
      exact ⟨h, rfl⟩
  | liquidationReceive update =>
      rw [(h.receive update).2]
      exact ⟨h, rfl⟩
  | liquidationProcess =>
      have hempty := h.liquidationProcess
      rcases step_liquidationProcess_cases cfg s with heq | ⟨update, -, heq⟩
      · rw [heq]
        exact ⟨h, rfl⟩
      · rw [heq] at hempty ⊢
        exact ⟨⟨h.tripped, hempty⟩, rfl⟩
  | liquidationCheck => exact ⟨⟨h.tripped, h.check.2⟩, rfl⟩
  | liquidationSend =>
      rw [h.send.2]
      exact ⟨h, rfl⟩
  | execute blockhash tipIndex answer now =>
      have hchannel : s.channel = [] := by
        by_contra hne
        exact h.empty (.channel hne)
      rw [step_execute_nil cfg s _ _ _ _ hchannel]
      exact ⟨h, rfl⟩
  | poll now response recordedAt =>
      rcases step_poll_cases cfg s now response recordedAt with heq | heq
      · rw [heq]
        exact ⟨h, rfl⟩
      · rw [heq]
        -- no outcome opens the breaker, and nothing moves
        have htripped := recordOutcomes_tripped (s := (s.pnl, s.breaker)) h.tripped recordedAt
          (s.tracker.poll now response).2
        refine ⟨⟨htripped, fun hflight => h.empty (SameFlow.inFlight ?_ hflight)⟩, rfl⟩
        exact ⟨rfl, rfl, rfl, rfl, rfl⟩

/-- **ANY INTERLEAVING** of a stopped pipeline executes nothing. -/
theorem Stopped.run {cfg : PipelineConfig F} {s : PipelineState F} (h : Stopped cfg s)
    (events : List PipelineEvent) :
    Stopped cfg (run cfg s events) ∧ (MevPipeline.run cfg s events).executed = s.executed := by
  induction events using List.reverseRecOn with
  | nil => exact ⟨h, rfl⟩
  | append_singleton events event ih =>
      obtain ⟨hstopped, hexecuted⟩ := ih
      rw [run_concat]
      obtain ⟨hstopped', hexecuted'⟩ := hstopped.step event
      exact ⟨hstopped', hexecuted'.trans hexecuted⟩

/-! ## Something on its way is executed -/

/-- The forwarding loop of a strategy task: its outbox and its two turns. -/
structure Lane (cfg : PipelineConfig F) where
  outbox : PipelineState F → Outbox
  check : PipelineEvent
  send : PipelineEvent
  checked : ∀ s, outbox (step cfg s check) = ((outbox s).check cfg s.pnl).1 ∧
    (step cfg s check).channel = s.channel ∧ (step cfg s check).executed = s.executed
  sent : ∀ s, (step cfg s send).channel = ((outbox s).send s.channel).2 ∧
    (step cfg s send).executed = s.executed

def dexLane (cfg : PipelineConfig F) : Lane cfg :=
  ⟨PipelineState.dexOutbox, .dexCheck, .dexSend, fun _ => ⟨rfl, rfl, rfl⟩, fun _ => ⟨rfl, rfl⟩⟩

def liquidationLane (cfg : PipelineConfig F) : Lane cfg :=
  ⟨PipelineState.liquidationOutbox, .liquidationCheck, .liquidationSend,
    fun _ => ⟨rfl, rfl, rfl⟩, fun _ => ⟨rfl, rfl⟩⟩

/-- The executor takes an opportunity with this turn. -/
def taking : PipelineEvent :=
  .execute (some (Vector.replicate 32 0)) (Fin.last 7) (.error "refused") 0

theorem channel_executed (cfg : PipelineConfig F) {s : PipelineState F} (h : s.channel ≠ []) :
    (step cfg s taking).executed ≠ s.executed := by
  obtain ⟨opp, rest, hchannel⟩ := List.exists_cons_of_ne_nil h
  simp only [step, taking, hchannel, executeOne, ite_self]
  intro heq
  have hlen := congrArg List.length heq
  rw [List.length_append, List.length_singleton] at hlen
  omega

theorem sending_executed {cfg : PipelineConfig F} (lane : Lane cfg) {s : PipelineState F}
    (h : (lane.outbox s).sending.isSome = true) :
    ∃ more, (run cfg s more).executed ≠ s.executed := by
  by_cases hchannel : s.channel = []
  · obtain ⟨opp, hopp⟩ := Option.isSome_iff_exists.mp h
    obtain ⟨hsent, hexecuted⟩ := lane.sent s
    refine ⟨[lane.send, taking], ?_⟩
    have hne : (step cfg s lane.send).channel ≠ [] := by
      rw [hsent, Outbox.send, hopp, hchannel]
      exact List.cons_ne_nil _ _
    rw [← hexecuted]
    exact channel_executed cfg hne
  · exact ⟨[taking], channel_executed cfg hchannel⟩

/-- An approved opportunity of an outbox can be executed: the loop gets to it. -/
theorem approved_executed {cfg : PipelineConfig F} (lane : Lane cfg) (queue : List Opportunity)
    {s : PipelineState F} (hqueue : (lane.outbox s).queue = queue)
    (h : Approved cfg (lane.outbox s)) : ∃ more, (run cfg s more).executed ≠ s.executed := by
  induction queue generalizing s with
  | nil =>
      rcases h with hsending | ⟨opp, hmem, -⟩
      · exact sending_executed lane hsending
      · rw [hqueue] at hmem
        exact absurd hmem List.not_mem_nil
  | cons opp rest ih =>
      by_cases hsending : (lane.outbox s).sending.isSome = true
      · exact sending_executed lane hsending
      · rw [Bool.not_eq_true, Option.isSome_eq_false_iff, Option.isNone_iff_eq_none] at hsending
        obtain ⟨hchecked, -, hexecuted⟩ := lane.checked s
        have hout : lane.outbox s = .forwarding (opp :: rest) none := by
          cases houtbox : lane.outbox s with
          | received update =>
              rw [houtbox] at hqueue
              cases hqueue
          | forwarding queue sending =>
              rw [houtbox] at hqueue hsending
              exact congrArg₂ Outbox.forwarding hqueue hsending
        rw [hout] at hchecked h
        have hmore : ∃ more, (run cfg (step cfg s lane.check) more).executed ≠
            (step cfg s lane.check).executed := by
          refine ih (by rw [hchecked]; rfl) ?_
          rw [hchecked]
          -- the head is taken up, or the approved opportunity is behind it
          obtain ⟨opp', hmem, haccepts'⟩ := approved_forwarding_iff.mp h
          by_cases haccepts : cfg.accepts opp = true
          · rw [Outbox.check_accepted haccepts]
            exact Or.inl rfl
          · rcases List.mem_cons.mp hmem with rfl | hmem
            · exact absurd haccepts' haccepts
            · exact Or.inr ⟨opp', hmem, haccepts'⟩
        obtain ⟨more, hne⟩ := hmore
        refine ⟨lane.check :: more, ?_⟩
        rw [← hexecuted]
        exact hne

/-- The cache updater writes updates to the cache. -/
theorem run_cacheUpdates (cfg : PipelineConfig F) (s : PipelineState F)
    (us : List AccountUpdate) :
    run cfg s (us.map .cacheUpdate) =
      { s with cache := us.foldl AccountCache.update s.cache } := by
  induction us generalizing s with
  | nil => rfl
  | cons u us ih => exact ih (step cfg s (.cacheUpdate u))

/-- What a first stretch leaves to execute, it has not executed. -/
theorem executed_after {cfg : PipelineConfig F} {s : PipelineState F}
    (first : List PipelineEvent) (hfirst : (run cfg s first).executed = s.executed)
    (h : ∃ more, (run cfg (run cfg s first) more).executed ≠ (run cfg s first).executed) :
    ∃ more, (run cfg s more).executed ≠ s.executed := by
  obtain ⟨more, hne⟩ := h
  refine ⟨first ++ more, ?_⟩
  rwa [run_append, ← hfirst]

/-- An update that yields can be processed while it does. -/
theorem dexYields_executed {cfg : PipelineConfig F} {s : PipelineState F} (h : DexYields cfg s) :
    ∃ more, (run cfg s more).executed ≠ s.executed := by
  obtain ⟨update, hheld, us, hfound⟩ := h
  have hout : s.dexOutbox = .received update := Outbox.unprocessed_iff.mp hheld
  have hprocessed : run cfg s (us.map .cacheUpdate ++ [.dexProcess]) = { s with
      cache := us.foldl AccountCache.update s.cache
      dexArb := (s.dexArb.processUpdate (us.foldl AccountCache.update s.cache) update).1
      dexOutbox := .forwarding
        (s.dexArb.processUpdate (us.foldl AccountCache.update s.cache) update).2 none } := by
    rw [run_concat, run_cacheUpdates]
    simp only [step, hout]
  refine executed_after (us.map .cacheUpdate ++ [.dexProcess]) (by rw [hprocessed]) ?_
  refine approved_executed (dexLane cfg) _ rfl ?_
  rw [hprocessed]
  exact approved_forwarding_iff.mpr hfound

theorem liquidationYields_executed {cfg : PipelineConfig F} {s : PipelineState F}
    (h : LiquidationYields cfg s) : ∃ more, (run cfg s more).executed ≠ s.executed := by
  obtain ⟨update, hheld, hfound⟩ := h
  have hout : s.liquidationOutbox = .received update := Outbox.unprocessed_iff.mp hheld
  have hprocessed : run cfg s [.liquidationProcess] = { s with
      liquidationOutbox := .forwarding (cfg.liquidation.processUpdate F update).toList none } := by
    rw [run, List.foldl_cons, List.foldl_nil]
    simp only [step, hout]
  refine executed_after [.liquidationProcess] (by rw [hprocessed]) ?_
  refine approved_executed (liquidationLane cfg) _ rfl ?_
  rw [hprocessed]
  exact approved_forwarding_iff.mpr hfound

/-- **WHAT IS ON ITS WAY CAN BE EXECUTED**, whatever the breaker says. -/
theorem inFlight_executed {cfg : PipelineConfig F} {s : PipelineState F} (h : InFlight cfg s) :
    ∃ more, (run cfg s more).executed ≠ s.executed := by
  cases h with
  | channel hchannel => exact ⟨[taking], channel_executed cfg hchannel⟩
  | dex happroved => exact approved_executed (dexLane cfg) _ rfl happroved
  | liquidation happroved => exact approved_executed (liquidationLane cfg) _ rfl happroved
  | dexYields hyields => exact dexYields_executed hyields
  | liquidationYields hyields => exact liquidationYields_executed hyields

/-! ## The law -/

/-- No turn of the run executes a bundle while the breaker is tripped. -/
def NeverWhileTripped (cfg : PipelineConfig F) (s : PipelineState F)
    (events : List PipelineEvent) : Prop :=
  ∀ before event after, events = before ++ event :: after →
    (run cfg s before).breaker.tripped = true →
    (run cfg s (before ++ [event])).executed = (run cfg s before).executed

/-- From every tripped state of the run on, no interleaving executes a bundle. -/
def StopsWhenTripped (cfg : PipelineConfig F) (s : PipelineState F)
    (events : List PipelineEvent) : Prop :=
  ∀ before after, events = before ++ after → (run cfg s before).breaker.tripped = true →
    ∀ more, (run cfg s (before ++ more)).executed = (run cfg s before).executed

/-- No turn of the run trips the breaker while an approved opportunity is on its
    way, or may yet be found in an update that a task was let have. -/
def QuietTrips (cfg : PipelineConfig F) (s : PipelineState F) (events : List PipelineEvent) :
    Prop :=
  ∀ before event after, events = before ++ event :: after →
    (run cfg s before).breaker.tripped = false →
    (run cfg s (before ++ [event])).breaker.tripped = true → ¬InFlight cfg (run cfg s before)

/-- In a run of quiet trips every tripped state is stopped. -/
theorem QuietTrips.stopped {cfg : PipelineConfig F} {s : PipelineState F}
    {events : List PipelineEvent} (h : QuietTrips cfg s events)
    (hinit : s.breaker.tripped = false) (before : List PipelineEvent) :
    ∀ after, events = before ++ after → (run cfg s before).breaker.tripped = true →
      Stopped cfg (run cfg s before) := by
  induction before using List.reverseRecOn with
  | nil =>
      intro after hsplit htripped
      exact absurd (htripped.symm.trans hinit) Bool.noConfusion
  | append_singleton before event ih =>
      intro after hsplit htripped
      rw [List.append_assoc, List.singleton_append] at hsplit
      cases hearlier : (run cfg s before).breaker.tripped with
      | true =>
          rw [run_concat]
          exact ((ih _ hsplit hearlier).step event).1
      | false =>
          have hquiet := h before event after hsplit hearlier htripped
          rw [run_concat] at htripped ⊢
          exact ⟨htripped, fun hflight =>
            hquiet ((step_trips hearlier htripped).symm.inFlight hflight)⟩

/-- **A TRIPPED BREAKER STOPS THE EXECUTOR EXACTLY AFTER QUIET TRIPS**: from the
    tripped states of a run on no interleaving executes a bundle if and only if no
    turn of the run tripped the breaker with an approved opportunity on its way, or
    still to be found in an update that a task was let have; and in such a run no
    turn executed one. -/
theorem stops_iff_quietTrips (cfg : PipelineConfig F) (cache : AccountCache)
    (events : List PipelineEvent) :
    let s := PipelineState.init cfg cache
    (StopsWhenTripped cfg s events ↔ QuietTrips cfg s events) ∧
      (QuietTrips cfg s events → NeverWhileTripped cfg s events) := by
  have hinit : (PipelineState.init cfg cache).breaker.tripped = false := rfl
  refine ⟨⟨?_, ?_⟩, ?_⟩
  · intro hstops before event after hsplit hbefore hafter hflight
    have hflow := step_trips hbefore (by rw [← run_concat]; exact hafter)
    -- what was on its way before the trip still is, and can be executed after it
    obtain ⟨more, hne⟩ := inFlight_executed (hflow.inFlight hflight)
    have hsame := hstops (before ++ [event]) after (by simp [hsplit]) hafter more
    rw [run_append, run_concat] at hsame
    exact hne hsame
  · intro hquiet before after hsplit htripped more
    rw [run_append]
    exact ((hquiet.stopped hinit before after hsplit htripped).run more).2
  · intro hquiet before event after hsplit htripped
    rw [run_concat]
    exact ((hquiet.stopped hinit before _ hsplit htripped).step event).2

end Runs

/-! ## A queued opportunity outruns the trip -/

section Sample

/-- One liquidation is submitted, another waits in the channel when the first is
    given up, and is executed then. -/
def queuedRun : List PipelineEvent :=
  submission obligationUpdate (.ok "a") ++
    (enqueue obligationUpdate ++ [.poll 31000000000 (.ok .null) fun _ => 0])

/-- The poll of that run: the pending bundle times out, and the breaker trips. -/
theorem timeout_trips {F : Type} [F64 F] (cfg : PipelineConfig F) {s : PipelineState F}
    (htracker : s.tracker =
      (BundleStatusTracker.new 64 30).track "a" "liquidation_kamino" 13107 10000 0)
    (hbreaker : s.breaker = CircuitBreaker.new 300 (-1)) :
    (step cfg s (.poll 31000000000 (.ok .null) fun _ => 0)).breaker.tripped = true ∧
      (step cfg s (.poll 31000000000 (.ok .null) fun _ => 0)).channel = s.channel := by
  have hpending : s.tracker.pendingCount > 0 := by
    rw [htracker]
    decide
  have houtcomes : (s.tracker.poll 31000000000 (.ok .null)).2 =
      [.failed "a" "liquidation_kamino" "timeout"] := by
    rw [htracker]
    decide
  simp only [step, if_pos hpending, houtcomes, and_true]
  show (s.breaker.recordTrade 0 0).tripped = true
  rw [hbreaker]
  decide

/-- Behind a pending bundle an opportunity gets into the channel; then the poll. -/
theorem queued_trips {F : Type} [F64 F] (cfg : PipelineConfig F)
    (henabled : cfg.liquidationEnabled = true) {update : AccountUpdate} {opp : Opportunity}
    (hopp : cfg.liquidation.processUpdate F update = some opp) (haccepts : cfg.accepts opp = true)
    {s : PipelineState F} (hs : Ready s)
    (htracker : s.tracker =
      (BundleStatusTracker.new 64 30).track "a" "liquidation_kamino" 13107 10000 0)
    (hbreaker : s.breaker = CircuitBreaker.new 300 (-1)) :
    (run cfg s (enqueue update ++ [.poll 31000000000 (.ok .null) fun _ => 0])).breaker.tripped =
        true ∧
      (run cfg s (enqueue update ++ [.poll 31000000000 (.ok .null) fun _ => 0])).channel ≠ [] := by
  rw [run_concat, enqueue_run henabled hopp haccepts hs]
  obtain ⟨htripped, hchannel⟩ := timeout_trips cfg
    (s := { s with pnl := s.pnl.recordOpportunity, channel := [opp] }) htracker hbreaker
  rw [hchannel]
  exact ⟨htripped, List.cons_ne_nil _ _⟩

/-- **A BUNDLE IS EXECUTED WHILE THE BREAKER IS TRIPPED**, under the loss limit
    `-1`: one failed bundle trips it. -/
theorem queuedRun_executed :
    ¬NeverWhileTripped (liquidationConfig (-1))
      (PipelineState.init (liquidationConfig (-1)) AccountCache.new) (queuedRun ++ [taking]) := by
  obtain ⟨hready, htracker, hbreaker, -⟩ := taken_submission (liquidationConfig (-1))
    rfl rfl obligationUpdate_found (liquidationConfig_accepts _) (ready_init (-1)) "a"
  rw [liquidationConfig_tip] at htracker
  obtain ⟨htripped, hchannel⟩ := queued_trips (liquidationConfig (-1)) rfl
    obligationUpdate_found (liquidationConfig_accepts _) hready htracker hbreaker
  rw [← run_append, ← queuedRun] at htripped hchannel
  intro hnever
  have hsame := hnever queuedRun taking [] rfl htripped
  rw [run_concat] at hsame
  exact channel_executed _ hchannel hsame

end Sample

end MevGate
