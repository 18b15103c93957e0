import MevBot.ExecutorLedger
import MevBot.Library.Handover
import MevBot.SubmittedSwaps

/-! # How opportunities reach the executor

    The two strategy tasks forward what they find through one bounded channel,
    each blocked while the channel is full.  The pipeline is an instance of the
    handover (`step_mirrors`), so every opportunity the filters accept reaches
    the executor once and in the order its task found it
    (`opportunities_delivered`), and no schedule that lets every task move keeps
    one waiting for good (`opportunities_arrive`). -/

namespace MevDelivery

open MevMachine MevTypes MevCache MevStrategy MevRisk MevTracker MevPipeline MevLedger
open Handover hiding step run run_append

variable {F : Type} [F64 F]

/-! ## The two lanes -/

/-- The strategy tasks. -/
inductive Lane where
  | dexArb
  | liquidation
deriving DecidableEq, Repr

instance : Fintype Lane where
  elems := {.dexArb, .liquidation}
  complete := fun lane => by cases lane <;> decide

/-- The forwarding loop of a task. -/
def outboxOf (s : PipelineState F) : Lane → Outbox
  | .dexArb => s.dexOutbox
  | .liquidation => s.liquidationOutbox

/-- A forwarding loop as a producer. -/
def portOf (o : Outbox) : Port Opportunity := ⟨o.queue, o.sending⟩

/-- The opportunities a turn finds, with the task that found them; a task that holds no
    update finds nothing. -/
def found (cfg : PipelineConfig F) (s : PipelineState F) :
    PipelineEvent → Option (Lane × List Opportunity)
  | .dexProcess =>
      s.dexOutbox.unprocessed.map fun update =>
        (.dexArb, (s.dexArb.processUpdate s.cache update).2)
  | .liquidationProcess =>
      s.liquidationOutbox.unprocessed.map fun update =>
        (.liquidation, (cfg.liquidation.processUpdate F update).toList)
  | _ => none

/-- The opportunities a turn finds for one lane. -/
def foundBy (cfg : PipelineConfig F) (lane : Lane) (s : PipelineState F)
    (event : PipelineEvent) : List Opportunity :=
  ((found cfg s event).filter fun f => f.1 = lane).elim [] (·.2)

/-- The opportunity a turn takes out of the channel, and whether it gets a blockhash. -/
def taking (s : PipelineState F) : PipelineEvent → List (Opportunity × Bool)
  | .execute blockhash _ _ _ => s.channel.head?.toList.map (·, blockhash.isSome)
  | _ => []

/-- All a task has found in a run. -/
def foundOf (cfg : PipelineConfig F) (cache : AccountCache) (events : List PipelineEvent)
    (lane : Lane) : List Opportunity :=
  collect cfg (foundBy cfg lane) (PipelineState.init cfg cache) events

/-- All the executor has taken in a run. -/
def takenOf (cfg : PipelineConfig F) (cache : AccountCache) (events : List PipelineEvent) :
    List (Opportunity × Bool) :=
  collect cfg taking (PipelineState.init cfg cache) events

/-! ## The pipeline is a handover -/

/-- The moves of the turns that find nothing. -/
def handlingOf : PipelineEvent → List (Move Lane Opportunity)
  | .dexCheck => [.check .dexArb]
  | .dexSend => [.send .dexArb]
  | .liquidationCheck => [.check .liquidation]
  | .liquidationSend => [.send .liquidation]
  | .execute .. => [.take]
  | _ => []

/-- The moves of a turn. -/
def movesOf (cfg : PipelineConfig F) (s : PipelineState F) (event : PipelineEvent) :
    List (Move Lane Opportunity) :=
  handlingOf event ++ ((found cfg s event).map fun f => Move.offer f.1 f.2).toList

/-- The hub shows the loops and the channel of the pipeline. -/
structure Mirrors (s : PipelineState F) (h : Hub Lane Opportunity) : Prop where
  ports : h.ports = fun lane => portOf (outboxOf s lane)
  channel : h.channel.map (·.2) = s.channel

/-- The hub of a run: what was found is offered, what the executor took is taken. -/
structure Records (cfg : PipelineConfig F) (cache : AccountCache) (events : List PipelineEvent)
    (h : Hub Lane Opportunity) : Prop where
  mirrors : Mirrors (run cfg (PipelineState.init cfg cache) events) h
  offered : h.offered = foundOf cfg cache events
  taken : h.taken.map (·.2) = (takenOf cfg cache events).map (·.1)
  delivered : Delivered cfg.accepts CHANNEL_CAPACITY h

/-- One move in the hub of the pipeline. -/
abbrev hubStep (cfg : PipelineConfig F) (h : Hub Lane Opportunity)
    (m : Move Lane Opportunity) : Hub Lane Opportunity :=
  Handover.step cfg.accepts CHANNEL_CAPACITY h m

omit [F64 F] in
theorem Mirrors.port {s : PipelineState F} {h : Hub Lane Opportunity} (hm : Mirrors s h)
    (lane : Lane) : h.ports lane = portOf (outboxOf s lane) :=
  congrFun hm.ports lane

omit [F64 F] in
theorem update_ports (out : Lane → Outbox) (lane : Lane) (o : Outbox) :
    Function.update (fun l => portOf (out l)) lane (portOf o) =
      fun l => portOf (Function.update out lane o l) :=
  (Function.comp_update portOf out lane o).symm

omit [F64 F] in
theorem update_dexArb (s : PipelineState F) (o : Outbox) :
    outboxOf { s with dexOutbox := o } = Function.update (outboxOf s) .dexArb o := by
  funext lane
  cases lane with
  | dexArb => rfl
  | liquidation => rfl

omit [F64 F] in
theorem update_liquidation (s : PipelineState F) (o : Outbox) :
    outboxOf { s with liquidationOutbox := o } = Function.update (outboxOf s) .liquidation o := by
  funext lane
  cases lane with
  | dexArb => rfl
  | liquidation => rfl

omit [F64 F] in
theorem check_port (cfg : PipelineConfig F) (o : Outbox) (pnl : PnlTracker) :
    portOf (o.check cfg pnl).1 = (portOf o).check cfg.accepts := by
  cases o with
  | received update => rfl
  | forwarding queue sending =>
      cases sending with
      | some opp => rfl
      | none =>
          cases queue with
          | nil => rfl
          | cons opp rest => rfl

omit [F64 F] in
/-- An update to process is no opportunity: the hub sees an idle loop still. -/
theorem Mirrors.receive {s s' : PipelineState F} {h : Hub Lane Opportunity} (hm : Mirrors s h)
    (lane : Lane) {update : AccountUpdate} (hidle : (outboxOf s lane).idle = true)
    (hout : outboxOf s' = Function.update (outboxOf s) lane (.received update))
    (hchannel : s'.channel = s.channel) : Mirrors s' h := by
  refine ⟨?_, by rw [hchannel]; exact hm.channel⟩
  have hport : portOf (.received update) = portOf (outboxOf s lane) := by
    rw [Outbox.idle_iff.mp hidle]
    rfl
  rw [hm.ports, hout, ← update_ports, hport]
  exact (Function.update_eq_self lane _).symm

omit [F64 F] in
/-- A new batch for a loop that holds an update is an offer. -/
theorem Mirrors.offer (cfg : PipelineConfig F) {s s' : PipelineState F}
    {h : Hub Lane Opportunity} (hm : Mirrors s h) (lane : Lane) (batch : List Opportunity)
    {update : AccountUpdate} (hheld : outboxOf s lane = .received update)
    (hout : outboxOf s' = Function.update (outboxOf s) lane (.forwarding batch none))
    (hchannel : s'.channel = s.channel) :
    Mirrors s' (hubStep cfg h (.offer lane batch)) ∧
      (hubStep cfg h (.offer lane batch)).offered =
        Function.update h.offered lane (h.offered lane ++ batch) ∧
      (hubStep cfg h (.offer lane batch)).taken = h.taken := by
  have hport : (h.ports lane).idle = true := by
    rw [hm.port lane, hheld]
    rfl
  simp only [hubStep, Handover.step, if_pos hport]
  refine ⟨⟨?_, ?_⟩, trivial, trivial⟩
  · rw [hout, hm.ports]
    exact update_ports (outboxOf s) lane (.forwarding batch none)
  · rw [hchannel]
    exact hm.channel

omit [F64 F] in
/-- The loop body up to the send is a look. -/
theorem Mirrors.check (cfg : PipelineConfig F) {s s' : PipelineState F}
    {h : Hub Lane Opportunity} (hm : Mirrors s h) (lane : Lane)
    (hout : outboxOf s' =
      Function.update (outboxOf s) lane ((outboxOf s lane).check cfg s.pnl).1)
    (hchannel : s'.channel = s.channel) :
    Mirrors s' (hubStep cfg h (.check lane)) := by
  refine ⟨?_, ?_⟩
  · show Function.update h.ports lane ((h.ports lane).check cfg.accepts) = _
    rw [hm.port lane, ← check_port cfg _ s.pnl, hm.ports, hout]
    exact update_ports (outboxOf s) lane _
  · rw [hchannel]
    exact hm.channel

omit [F64 F] in
/-- The send is a send. -/
theorem Mirrors.send (cfg : PipelineConfig F) {s s' : PipelineState F}
    {h : Hub Lane Opportunity} (hm : Mirrors s h) (lane : Lane)
    (hout : outboxOf s' =
      Function.update (outboxOf s) lane ((outboxOf s lane).send s.channel).1)
    (hchannel : s'.channel = ((outboxOf s lane).send s.channel).2) :
    Mirrors s' (hubStep cfg h (.send lane)) := by
  have hlen : h.channel.length = s.channel.length := by
    rw [← hm.channel, List.length_map]
  rw [Outbox.send] at hout hchannel
  have hheld : (h.ports lane).held = (outboxOf s lane).sending := by
    rw [hm.port lane]
    rfl
  cases hsending : (outboxOf s lane).sending with
  | none =>
      simp only [hubStep, Handover.step, hheld, hsending]
      simp only [hsending, Function.update_eq_self] at hout hchannel
      exact ⟨hm.ports.trans (by rw [hout]), by rw [hchannel]; exact hm.channel⟩
  | some opp =>
      simp only [hubStep, Handover.step, hheld, hsending, hlen]
      simp only [hsending] at hout hchannel
      -- both sides test the room in the same channel
      split at hout
      · rename_i hroom
        rw [if_pos hroom] at hchannel
        rw [if_pos hroom]
        refine ⟨?_, ?_⟩
        · rw [hout]
          show Function.update h.ports lane ⟨(h.ports lane).batch, none⟩ = _
          rw [hm.port lane, hm.ports]
          exact update_ports (outboxOf s) lane (.forwarding (outboxOf s lane).queue none)
        · show (h.channel ++ [(lane, opp)]).map (·.2) = _
          rw [List.map_append, hm.channel, hchannel]
          rfl
      · rename_i hroom
        rw [if_neg hroom] at hchannel
        rw [if_neg hroom]
        rw [Function.update_eq_self] at hout
        exact ⟨hm.ports.trans (by rw [hout]), by rw [hchannel]; exact hm.channel⟩

/-- What a turn does to the hub, and what the hub logs of it. -/
structure Advanced (cfg : PipelineConfig F) (s : PipelineState F) (event : PipelineEvent)
    (h h' : Hub Lane Opportunity) : Prop where
  mirrors : Mirrors (step cfg s event) h'
  offered : ∀ lane, h'.offered lane = h.offered lane ++ foundBy cfg lane s event
  taken : h'.taken.map (·.2) = h.taken.map (·.2) ++ (taking s event).map (·.1)

/-- A turn that finds and takes nothing, whatever it does to the hub's ports. -/
theorem Advanced.quiet {cfg : PipelineConfig F} {s : PipelineState F} {event : PipelineEvent}
    {h h' : Hub Lane Opportunity} (hm : Mirrors (step cfg s event) h')
    (hfound : found cfg s event = none) (htaking : taking s event = [])
    (hoffered : h'.offered = h.offered) (htaken : h'.taken = h.taken) :
    Advanced cfg s event h h' := by
  refine ⟨hm, ?_, ?_⟩
  · intro lane
    rw [hoffered, foundBy, hfound]
    exact (List.append_nil _).symm
  · rw [htaken, htaking]
    exact (List.append_nil _).symm

/-- A turn that finds a batch for one lane. -/
theorem Advanced.offer {cfg : PipelineConfig F} {s : PipelineState F} {event : PipelineEvent}
    {h : Hub Lane Opportunity} (hm : Mirrors s h) {lane : Lane} {batch : List Opportunity}
    (hfound : found cfg s event = some (lane, batch)) (htaking : taking s event = [])
    {update : AccountUpdate} (hheld : outboxOf s lane = .received update)
    (hout : outboxOf (step cfg s event) =
      Function.update (outboxOf s) lane (.forwarding batch none))
    (hchannel : (step cfg s event).channel = s.channel) :
    Advanced cfg s event h (hubStep cfg h (.offer lane batch)) := by
  obtain ⟨hmirrors, hoffered, htaken⟩ := hm.offer cfg lane batch hheld hout hchannel
  refine ⟨hmirrors, ?_, ?_⟩
  · intro l
    rw [hoffered, foundBy, hfound]
    by_cases hl : l = lane
    · subst hl
      rw [Function.update_self, Option.filter_some_pos (by simp)]
      rfl
    · rw [Function.update_of_ne hl, Option.filter_some_neg (by simpa using Ne.symm hl)]
      exact (List.append_nil _).symm
  · rw [htaken, htaking]
    exact (List.append_nil _).symm

omit [F64 F] in
theorem send_log (cfg : PipelineConfig F) (h : Hub Lane Opportunity) (lane : Lane) :
    (hubStep cfg h (.send lane)).offered = h.offered ∧
      (hubStep cfg h (.send lane)).taken = h.taken := by
  simp only [hubStep, Handover.step]
  split
  · split
    · exact ⟨rfl, rfl⟩
    · exact ⟨rfl, rfl⟩
  · exact ⟨rfl, rfl⟩

/-- The executor's turn leaves the loops, and takes one opportunity out. -/
theorem executeOne_frame (cfg : PipelineConfig F) (s : PipelineState F) (opp : Opportunity)
    (blockhash : Option Hash) (tipIndex : Fin 8) (answer : Except String String) (now : Nat) :
    outboxOf (executeOne cfg s opp blockhash tipIndex answer now) = outboxOf s ∧
      (executeOne cfg s opp blockhash tipIndex answer now).channel = s.channel ∧
      (executeOne cfg s opp blockhash tipIndex answer now).executed.map (·.1) =
        s.executed.map (·.1) ++ (if blockhash.isSome then [opp] else []) ∧
      (executeOne cfg s opp blockhash tipIndex answer now).pnl.totalOpportunities =
        s.pnl.totalOpportunities := by
  cases blockhash with
  | none => exact ⟨rfl, rfl, (List.append_nil _).symm, rfl⟩
  | some blockhash =>
      simp only [executeOne]
      split
      · exact ⟨rfl, rfl, List.map_append, rfl⟩
      · cases answer with
        | ok bundleId => exact ⟨rfl, rfl, List.map_append, rfl⟩
        | error message => exact ⟨rfl, rfl, List.map_append, rfl⟩

theorem execute_advanced (cfg : PipelineConfig F) {s : PipelineState F}
    {h : Hub Lane Opportunity} (hm : Mirrors s h) (blockhash : Option Hash) (tipIndex : Fin 8)
    (answer : Except String String) (now : Nat) :
    Advanced cfg s (.execute blockhash tipIndex answer now) h (hubStep cfg h .take) := by
  have hmap := hm.channel
  cases hchannel : s.channel with
  | nil =>
      rw [hchannel, List.map_eq_nil_iff] at hmap
      have hstep : hubStep cfg h .take = h := by
        simp only [hubStep, Handover.step, hmap]
      refine Advanced.quiet ?_ rfl ?_ (by rw [hstep]) (by rw [hstep])
      · rw [hstep, step_execute_nil cfg s _ _ _ _ hchannel]
        exact hm
      · rw [taking, hchannel]
        rfl
  | cons opp rest =>
      rw [hchannel] at hmap
      obtain ⟨x, xs, hh, rfl, rfl⟩ := List.map_eq_cons_iff.mp hmap
      obtain ⟨hout, hch, -, -⟩ := executeOne_frame cfg { s with channel := xs.map (·.2) } x.2
        blockhash tipIndex answer now
      have hstep : hubStep cfg h .take = { h with channel := xs, taken := h.taken ++ [x] } := by
        simp only [hubStep, Handover.step, hh]
      refine ⟨⟨?_, ?_⟩, ?_, ?_⟩
      · rw [hstep, step_execute_cons cfg s _ _ _ _ hchannel, hout]
        exact hm.ports
      · rw [hstep, step_execute_cons cfg s _ _ _ _ hchannel, hch]
      · intro lane
        rw [hstep]
        exact (List.append_nil _).symm
      · rw [hstep, taking, hchannel]
        exact List.map_append

/-- **ONE TURN** of the pipeline is its moves in the hub. -/
theorem step_mirrors (cfg : PipelineConfig F) {s : PipelineState F} {h : Hub Lane Opportunity}
    (hm : Mirrors s h) (event : PipelineEvent) :
    Advanced cfg s event h
      (Handover.run cfg.accepts CHANNEL_CAPACITY h (movesOf cfg s event)) := by
  cases event with
  | cacheUpdate update => exact .quiet ⟨hm.ports, hm.channel⟩ rfl rfl rfl rfl
  | dexReceive update =>
      refine .quiet ?_ rfl rfl rfl rfl
      rcases step_dexReceive_cases cfg s update with heq | ⟨⟨hidle, -⟩, heq⟩
      · rw [heq]
        exact hm
      · rw [heq]
        exact hm.receive .dexArb hidle (update_dexArb s _) rfl
  | dexProcess =>
      show Advanced cfg s _ h (Handover.run _ _ h
        ((found cfg s .dexProcess).map fun f => Move.offer f.1 f.2).toList)
      cases houtbox : s.dexOutbox with
      | forwarding queue sending =>
          have hfound : found cfg s .dexProcess = none := by
            rw [found, houtbox]
            rfl
          have hstep : step cfg s .dexProcess = s := by
            simp only [step, houtbox]
          rw [hfound]
          exact .quiet (by rw [hstep]; exact hm) hfound rfl rfl rfl
      | received update =>
          have hfound : found cfg s .dexProcess =
              some (.dexArb, (s.dexArb.processUpdate s.cache update).2) := by
            rw [found, houtbox]
            rfl
          rw [hfound]
          refine .offer hm hfound rfl houtbox ?_ ?_
          · simp only [step, houtbox]
            exact update_dexArb s _
          · simp only [step, houtbox]
  | dexCheck =>
      exact .quiet (hm.check cfg .dexArb (update_dexArb s _) rfl) rfl rfl rfl rfl
  | dexSend =>
      obtain ⟨hoffered, htaken⟩ := send_log cfg h .dexArb
      exact .quiet (hm.send cfg .dexArb (update_dexArb s _) rfl) rfl rfl hoffered htaken
  | liquidationReceive update =>
      refine .quiet ?_ rfl rfl rfl rfl
      rcases step_liquidationReceive_cases cfg s update with heq | ⟨⟨hidle, -⟩, heq⟩
      · rw [heq]
        exact hm
      · rw [heq]
        exact hm.receive .liquidation hidle (update_liquidation s _) rfl
  | liquidationProcess =>
      show Advanced cfg s _ h (Handover.run _ _ h
        ((found cfg s .liquidationProcess).map fun f => Move.offer f.1 f.2).toList)
      cases houtbox : s.liquidationOutbox with
      | forwarding queue sending =>
          have hfound : found cfg s .liquidationProcess = none := by
            rw [found, houtbox]
            rfl
          have hstep : step cfg s .liquidationProcess = s := by
            simp only [step, houtbox]
          rw [hfound]
          exact .quiet (by rw [hstep]; exact hm) hfound rfl rfl rfl
      | received update =>
          have hfound : found cfg s .liquidationProcess =
              some (.liquidation, (cfg.liquidation.processUpdate F update).toList) := by
            rw [found, houtbox]
            rfl
          rw [hfound]
          refine .offer hm hfound rfl houtbox ?_ ?_
          · simp only [step, houtbox]
            exact update_liquidation s _
          · simp only [step, houtbox]
  | liquidationCheck =>
      exact .quiet (hm.check cfg .liquidation (update_liquidation s _) rfl) rfl rfl rfl rfl
  | liquidationSend =>
      obtain ⟨hoffered, htaken⟩ := send_log cfg h .liquidation
      exact .quiet (hm.send cfg .liquidation (update_liquidation s _) rfl) rfl rfl hoffered htaken
  | execute blockhash tipIndex answer now =>
      exact execute_advanced cfg hm blockhash tipIndex answer now
  | poll now response recordedAt =>
      refine .quiet ?_ rfl rfl rfl rfl
      rcases step_poll_cases cfg s now response recordedAt with heq | heq
      · rw [heq]
        exact hm
      · rw [heq]
        exact ⟨hm.ports, hm.channel⟩

/-- **ANY INTERLEAVING** is a run of the hub. -/
theorem run_records (cfg : PipelineConfig F) (cache : AccountCache)
    (events : List PipelineEvent) : ∃ h, Records cfg cache events h := by
  induction events using List.reverseRecOn with
  | nil =>
      refine ⟨Hub.empty, ⟨⟨?_, rfl⟩, rfl, rfl, Delivered.empty _ _⟩⟩
      funext lane
      cases lane with
      | dexArb => rfl
      | liquidation => rfl
  | append_singleton events event ih =>
      obtain ⟨h, hmirrors, hoffered, htaken, hdelivered⟩ := ih
      have hadv := step_mirrors cfg hmirrors event
      have hrun := hdelivered.run
        (movesOf cfg (run cfg (PipelineState.init cfg cache) events) event)
      refine ⟨_, ⟨?_, ?_, ?_, hrun⟩⟩
      · rw [run_concat]
        exact hadv.mirrors
      · funext lane
        rw [hadv.offered lane, hoffered, foundOf, foundOf, collect_concat]
      · rw [hadv.taken, htaken, takenOf, takenOf, collect_concat, List.map_append]

/-! ## What is handed over -/

/-- The executor builds a bundle for every opportunity it takes with a blockhash. -/
theorem run_executed (cfg : PipelineConfig F) (cache : AccountCache)
    (events : List PipelineEvent) :
    (run cfg (PipelineState.init cfg cache) events).executed.map (·.1) =
      ((takenOf cfg cache events).filter (·.2)).map (·.1) := by
  induction events using List.reverseRecOn with
  | nil => rfl
  | append_singleton events event ih =>
      rw [run_concat, takenOf, collect_concat, List.filter_append, List.map_append, ← takenOf, ← ih]
      generalize run cfg (PipelineState.init cfg cache) events = s
      cases event with
      | execute blockhash tipIndex answer now =>
          cases hchannel : s.channel with
          | nil =>
              rw [step_execute_nil cfg s _ _ _ _ hchannel, taking, hchannel]
              exact (List.append_nil _).symm
          | cons opp rest =>
              rw [step_execute_cons cfg s _ _ _ _ hchannel, taking, hchannel,
                (executeOne_frame cfg { s with channel := rest } opp _ _ _ _).2.2.1]
              cases blockhash with
              | none => rfl
              | some blockhash => rfl
      | dexReceive update =>
          rcases step_dexReceive_cases cfg s update with heq | ⟨-, heq⟩
          · rw [heq]
            exact (List.append_nil _).symm
          · rw [heq]
            exact (List.append_nil _).symm
      | dexProcess =>
          rcases step_dexProcess_cases cfg s with heq | ⟨update, -, heq⟩
          · rw [heq]
            exact (List.append_nil _).symm
          · rw [heq]
            exact (List.append_nil _).symm
      | liquidationReceive update =>
          rcases step_liquidationReceive_cases cfg s update with heq | ⟨-, heq⟩
          · rw [heq]
            exact (List.append_nil _).symm
          · rw [heq]
            exact (List.append_nil _).symm
      | liquidationProcess =>
          rcases step_liquidationProcess_cases cfg s with heq | ⟨update, -, heq⟩
          · rw [heq]
            exact (List.append_nil _).symm
          · rw [heq]
            exact (List.append_nil _).symm
      | poll now response recordedAt =>
          rcases step_poll_cases cfg s now response recordedAt with heq | heq
          · rw [heq]
            exact (List.append_nil _).symm
          · rw [heq]
            exact (List.append_nil _).symm
      | cacheUpdate update => exact (List.append_nil _).symm
      | dexCheck => exact (List.append_nil _).symm
      | dexSend => exact (List.append_nil _).symm
      | liquidationCheck => exact (List.append_nil _).symm
      | liquidationSend => exact (List.append_nil _).symm

/-- What of a lane is not yet through: the opportunity being sent, and what will be
    accepted of the rest of its loop. -/
def waitingIn (cfg : PipelineConfig F) (s : PipelineState F) (lane : Lane) : List Opportunity :=
  (outboxOf s lane).sending.toList ++ (outboxOf s lane).queue.filter cfg.accepts

/-- **EVERY ACCEPTED OPPORTUNITY IS HANDED OVER ONCE AND IN ORDER**, in every
    interleaving: with the tasks they came from written beside them, the opportunities
    the executor took, those in the channel and those still in a task's loop are, task by
    task, the accepted ones of all it found.  The channel is never over its capacity, and
    exactly what was taken with a blockhash is executed. -/
theorem opportunities_delivered (cfg : PipelineConfig F) (cache : AccountCache)
    (events : List PipelineEvent) :
    let s := run cfg (PipelineState.init cfg cache) events
    s.channel.length ≤ CHANNEL_CAPACITY ∧
      s.executed.map (·.1) = ((takenOf cfg cache events).filter (·.2)).map (·.1) ∧
      ∃ taken channel : List (Lane × Opportunity),
        taken.map (·.2) = (takenOf cfg cache events).map (·.1) ∧
        channel.map (·.2) = s.channel ∧
        ∀ lane, (foundOf cfg cache events lane).filter cfg.accepts =
          ofPort lane (taken ++ channel) ++ waitingIn cfg s lane := by
  obtain ⟨h, hmirrors, hoffered, htaken, hdelivered⟩ := run_records cfg cache events
  refine ⟨?_, run_executed cfg cache events, h.taken, h.channel, htaken, hmirrors.channel, ?_⟩
  · rw [← hmirrors.channel, List.length_map]
    exact hdelivered.bounded
  · intro lane
    rw [← hoffered, hdelivered.inOrder lane, hmirrors.port lane]
    rfl

/-! ## Where an update comes from -/

/-- The turn in which a task receives an update. -/
def receiveOf : Lane → AccountUpdate → PipelineEvent
  | .dexArb => .dexReceive
  | .liquidation => .liquidationReceive

/-- The task runs. -/
def laneEnabled (cfg : PipelineConfig F) : Lane → Bool
  | .dexArb => true
  | .liquidation => cfg.liquidationEnabled

/-- A turn that leaves an update to process found it there, or received it while the
    breaker allowed trades. -/
def FromReceive (cfg : PipelineConfig F) (s : PipelineState F) (event : PipelineEvent)
    (lane : Lane) (update : AccountUpdate) : Prop :=
  (outboxOf s lane).unprocessed = some update ∨
    event = receiveOf lane update ∧ s.breaker.isAllowed = true ∧ laneEnabled cfg lane = true

/-- A turn writes to one outbox at most. -/
theorem step_outbox (cfg : PipelineConfig F) (s : PipelineState F) (event : PipelineEvent) :
    outboxOf (step cfg s event) = outboxOf s ∨
      ∃ lane o, outboxOf (step cfg s event) = Function.update (outboxOf s) lane o ∧
        ∀ update, o.unprocessed = some update → FromReceive cfg s event lane update := by
  cases event with
  | cacheUpdate update => exact Or.inl rfl
  | dexReceive update =>
      rcases step_dexReceive_cases cfg s update with heq | ⟨⟨-, hallowed⟩, heq⟩
      · exact Or.inl (congrArg outboxOf heq)
      · refine Or.inr ⟨.dexArb, _, (congrArg outboxOf heq).trans (update_dexArb s _), ?_⟩
        rintro _ ⟨⟩
        exact Or.inr ⟨rfl, hallowed, rfl⟩
  | dexProcess =>
      rcases step_dexProcess_cases cfg s with heq | ⟨update, -, heq⟩
      · exact Or.inl (congrArg outboxOf heq)
      · refine Or.inr ⟨.dexArb, _, (congrArg outboxOf heq).trans (update_dexArb _ _), ?_⟩
        rintro _ ⟨⟩
  | dexCheck =>
      exact Or.inr ⟨.dexArb, _, update_dexArb s _,
        fun _ h => Or.inl ((s.dexOutbox.check_unprocessed cfg s.pnl).symm.trans h)⟩
  | dexSend =>
      exact Or.inr ⟨.dexArb, _, update_dexArb s _,
        fun _ h => Or.inl ((s.dexOutbox.send_unprocessed s.channel).symm.trans h)⟩
  | liquidationReceive update =>
      rcases step_liquidationReceive_cases cfg s update with
        heq | ⟨⟨-, hallowed, henabled⟩, heq⟩
      · exact Or.inl (congrArg outboxOf heq)
      · refine Or.inr ⟨.liquidation, _, (congrArg outboxOf heq).trans (update_liquidation s _), ?_⟩
        rintro _ ⟨⟩
        exact Or.inr ⟨rfl, hallowed, henabled⟩
  | liquidationProcess =>
      rcases step_liquidationProcess_cases cfg s with heq | ⟨update, -, heq⟩
      · exact Or.inl (congrArg outboxOf heq)
      · refine Or.inr ⟨.liquidation, _, (congrArg outboxOf heq).trans (update_liquidation s _), ?_⟩
        rintro _ ⟨⟩
  | liquidationCheck =>
      exact Or.inr ⟨.liquidation, _, update_liquidation s _,
        fun _ h => Or.inl ((s.liquidationOutbox.check_unprocessed cfg s.pnl).symm.trans h)⟩
  | liquidationSend =>
      exact Or.inr ⟨.liquidation, _, update_liquidation s _,
        fun _ h => Or.inl ((s.liquidationOutbox.send_unprocessed s.channel).symm.trans h)⟩
  | execute blockhash tipIndex answer now =>
      left
      cases hchannel : s.channel with
      | nil => rw [step_execute_nil cfg s _ _ _ _ hchannel]
      | cons opp rest =>
          rw [step_execute_cons cfg s _ _ _ _ hchannel]
          exact (executeOne_frame cfg _ opp blockhash tipIndex answer now).1
  | poll now response recordedAt =>
      left
      rcases step_poll_cases cfg s now response recordedAt with heq | heq
      · rw [heq]
      · rw [heq]
        rfl

/-- **ONE TURN**: an update to process was to be processed before, or is received. -/
theorem step_unprocessed {cfg : PipelineConfig F} {s : PipelineState F} {event : PipelineEvent}
    {lane : Lane} {update : AccountUpdate}
    (h : (outboxOf (step cfg s event) lane).unprocessed = some update) :
    FromReceive cfg s event lane update := by
  rcases step_outbox cfg s event with hout | ⟨l, o, hout, hfrom⟩
  · rw [hout] at h
    exact Or.inl h
  · rw [hout] at h
    by_cases hl : lane = l
    · subst hl
      rw [Function.update_self] at h
      exact hfrom update h
    · rw [Function.update_of_ne hl] at h
      exact Or.inl h

/-- **AN UPDATE TO PROCESS WAS RECEIVED** earlier in the run, while the breaker allowed
    trades. -/
theorem run_received {cfg : PipelineConfig F} {cache : AccountCache}
    {events : List PipelineEvent} {lane : Lane} {update : AccountUpdate}
    (h : (outboxOf (run cfg (PipelineState.init cfg cache) events) lane).unprocessed =
      some update) :
    laneEnabled cfg lane = true ∧ ∃ before after,
      events = before ++ receiveOf lane update :: after ∧
      (run cfg (PipelineState.init cfg cache) before).breaker.isAllowed = true := by
  induction events using List.reverseRecOn with
  | nil =>
      cases lane with
      | dexArb => cases h
      | liquidation => cases h
  | append_singleton events event ih =>
      rw [run_concat] at h
      rcases step_unprocessed h with hheld | ⟨rfl, hallowed, henabled⟩
      · obtain ⟨henabled, before, after, rfl, hallowed⟩ := ih hheld
        exact ⟨henabled, before, after ++ [event], by rw [List.append_assoc]; rfl, hallowed⟩
      · exact ⟨henabled, events, [], rfl, hallowed⟩

/-! ## Nothing waits for good -/

/-- A turn that receives no update. -/
def Handles : PipelineEvent → Prop
  | .dexReceive _ => False
  | .liquidationReceive _ => False
  | _ => True

/-- A stretch in which the forwarding loops and the executor all get a turn, in any order
    and with any other turns between. -/
structure FairRound (events : List PipelineEvent) : Prop where
  handles : ∀ event ∈ events, Handles event
  dexCheck : .dexCheck ∈ events
  dexSend : .dexSend ∈ events
  liquidationCheck : .liquidationCheck ∈ events
  liquidationSend : .liquidationSend ∈ events
  executes : ∃ blockhash tipIndex answer now, .execute blockhash tipIndex answer now ∈ events

/-- The turns the opportunities under way still need. -/
def backlog (s : PipelineState F) : Nat :=
  (∑ lane, (portOf (outboxOf s lane)).work) + s.channel.length

theorem collect_append {α : Type} (cfg : PipelineConfig F)
    (emit : PipelineState F → PipelineEvent → List α) (s : PipelineState F)
    (events events' : List PipelineEvent) :
    collect cfg emit s (events ++ events') =
      collect cfg emit s events ++ collect cfg emit (run cfg s events) events' := by
  induction events generalizing s with
  | nil => rfl
  | cons event events ih =>
      show emit s event ++ collect cfg emit (step cfg s event) (events ++ events') = _
      rw [ih, ← List.append_assoc]
      rfl

/-- No strategy task has an update still to process. -/
def AllProcessed (s : PipelineState F) : Prop := ∀ lane, (outboxOf s lane).unprocessed = none

/-- What a task has processed stays so in a turn that receives nothing. -/
theorem step_keeps_processed {cfg : PipelineConfig F} {s : PipelineState F}
    {event : PipelineEvent} (h : Handles event) {lane : Lane}
    (hs : (outboxOf s lane).unprocessed = none) :
    (outboxOf (step cfg s event) lane).unprocessed = none := by
  refine Option.eq_none_iff_forall_ne_some.mpr ?_
  intro update hupdate
  rcases step_unprocessed hupdate with hheld | ⟨rfl, -, -⟩
  · rw [hs] at hheld
    cases hheld
  · cases lane with
    | dexArb => exact h
    | liquidation => exact h

/-- A turn that receives nothing leaves nothing to process. -/
theorem AllProcessed.step {cfg : PipelineConfig F} {s : PipelineState F} (hs : AllProcessed s)
    {event : PipelineEvent} (h : Handles event) : AllProcessed (step cfg s event) :=
  fun lane => step_keeps_processed h (hs lane)

/-- And so does a run of them. -/
theorem AllProcessed.run {cfg : PipelineConfig F} {s : PipelineState F} (hs : AllProcessed s)
    {events : List PipelineEvent} (h : ∀ event ∈ events, Handles event) :
    AllProcessed (run cfg s events) := by
  induction events generalizing s with
  | nil => exact hs
  | cons event events ih =>
      exact ih (hs.step (h event List.mem_cons_self)) fun e he => h e (List.mem_cons_of_mem _ he)

theorem found_of_handles (cfg : PipelineConfig F) {s : PipelineState F} (hs : AllProcessed s)
    {event : PipelineEvent} (h : Handles event) : found cfg s event = none := by
  cases event with
  | dexReceive update => exact h.elim
  | liquidationReceive update => exact h.elim
  | dexProcess =>
      rw [found, show s.dexOutbox.unprocessed = none from hs .dexArb]
      rfl
  | liquidationProcess =>
      rw [found, show s.liquidationOutbox.unprocessed = none from hs .liquidation]
      rfl
  | cacheUpdate update => rfl
  | dexCheck => rfl
  | dexSend => rfl
  | liquidationCheck => rfl
  | liquidationSend => rfl
  | execute blockhash tipIndex answer now => rfl
  | poll now response recordedAt => rfl

theorem collect_of_handles (cfg : PipelineConfig F) {s : PipelineState F} (hs : AllProcessed s)
    {events : List PipelineEvent} (h : ∀ event ∈ events, Handles event) :
    collect cfg (movesOf cfg) s events = events.flatMap handlingOf ∧
      ∀ lane, collect cfg (foundBy cfg lane) s events = [] := by
  induction events generalizing s with
  | nil => exact ⟨rfl, fun _ => rfl⟩
  | cons event events ih =>
      have hevent := h event List.mem_cons_self
      have hnone := found_of_handles cfg hs hevent
      obtain ⟨hmoves, hfound⟩ :=
        ih (hs.step hevent) fun e he => h e (List.mem_cons_of_mem _ he)
      refine ⟨?_, ?_⟩
      · rw [collect, hmoves, movesOf, hnone]
        simp
      · intro lane
        rw [collect, hfound lane, foundBy, hnone]
        rfl

/-- A run of the pipeline is a run of the hub, from any state. -/
theorem run_mirrors (cfg : PipelineConfig F) {s : PipelineState F} {h : Hub Lane Opportunity}
    (hm : Mirrors s h) (events : List PipelineEvent) :
    Mirrors (run cfg s events) (Handover.run cfg.accepts CHANNEL_CAPACITY h
      (collect cfg (movesOf cfg) s events)) := by
  induction events generalizing s h with
  | nil => exact hm
  | cons event events ih =>
      rw [collect, Handover.run_append]
      exact ih (step_mirrors cfg hm event).mirrors

theorem FairRound.round {events : List PipelineEvent} (h : FairRound events) :
    Round (events.flatMap handlingOf) where
  handles := by
    intro m hm
    obtain ⟨event, -, hm⟩ := List.mem_flatMap.mp hm
    cases event with
    | dexCheck => exact List.mem_singleton.mp hm ▸ trivial
    | dexSend => exact List.mem_singleton.mp hm ▸ trivial
    | liquidationCheck => exact List.mem_singleton.mp hm ▸ trivial
    | liquidationSend => exact List.mem_singleton.mp hm ▸ trivial
    | execute blockhash tipIndex answer now => exact List.mem_singleton.mp hm ▸ trivial
    | cacheUpdate update => exact absurd hm List.not_mem_nil
    | dexReceive update => exact absurd hm List.not_mem_nil
    | dexProcess => exact absurd hm List.not_mem_nil
    | liquidationReceive update => exact absurd hm List.not_mem_nil
    | liquidationProcess => exact absurd hm List.not_mem_nil
    | poll now response recordedAt => exact absurd hm List.not_mem_nil
  checks := fun lane => by
    cases lane with
    | dexArb => exact List.mem_flatMap.mpr ⟨_, h.dexCheck, List.mem_cons_self⟩
    | liquidation => exact List.mem_flatMap.mpr ⟨_, h.liquidationCheck, List.mem_cons_self⟩
  sends := fun lane => by
    cases lane with
    | dexArb => exact List.mem_flatMap.mpr ⟨_, h.dexSend, List.mem_cons_self⟩
    | liquidation => exact List.mem_flatMap.mpr ⟨_, h.liquidationSend, List.mem_cons_self⟩
  takes := by
    obtain ⟨blockhash, tipIndex, answer, now, hmem⟩ := h.executes
    exact List.mem_flatMap.mpr ⟨_, hmem, List.mem_cons_self⟩

omit [F64 F] in
theorem Mirrors.work {s : PipelineState F} {h : Hub Lane Opportunity} (hm : Mirrors s h) :
    h.work = backlog s := by
  rw [Hub.work, backlog, hm.ports, ← hm.channel, List.length_map]

/-- **NOTHING WAITS FOR GOOD**: after any run that leaves no update to process, as many
    rounds without a new update as there is backlog leave both loops and the channel empty,
    and then the executor has taken every accepted opportunity of the run, once and in
    order. -/
theorem opportunities_arrive (cfg : PipelineConfig F) (cache : AccountCache)
    (events : List PipelineEvent) (rounds : List (List PipelineEvent))
    (hprocessed : AllProcessed (run cfg (PipelineState.init cfg cache) events))
    (hrounds : ∀ round ∈ rounds, FairRound round)
    (hlen : backlog (run cfg (PipelineState.init cfg cache) events) ≤ rounds.length) :
    let s := run cfg (PipelineState.init cfg cache) (events ++ rounds.flatten)
    s.channel = [] ∧ (∀ lane, (outboxOf s lane).idle = true) ∧
      ∃ taken : List (Lane × Opportunity),
        taken.map (·.2) = (takenOf cfg cache (events ++ rounds.flatten)).map (·.1) ∧
        ∀ lane, (foundOf cfg cache events lane).filter cfg.accepts = ofPort lane taken := by
  obtain ⟨h, hrecords⟩ := run_records cfg cache events
  have hhandles : ∀ event ∈ rounds.flatten, Handles event := by
    intro event hevent
    obtain ⟨round, hround, hevent⟩ := List.mem_flatten.mp hevent
    exact (hrounds round hround).handles event hevent
  obtain ⟨hmoves, hnone⟩ := collect_of_handles cfg hprocessed hhandles
  have hmirrors := run_mirrors cfg hrecords.mirrors rounds.flatten
  -- the rounds of turns are rounds of moves, so they drain the hub
  have hdrained : backlog (run cfg (PipelineState.init cfg cache) (events ++ rounds.flatten)) =
      0 := by
    rw [run_append, ← hmirrors.work, hmoves, ← List.flatMap_id, List.flatMap_assoc,
      List.flatMap_def]
    refine run_drained (by decide) h ?_ ?_
    · intro moves hmem
      obtain ⟨round, hround, rfl⟩ := List.mem_map.mp hmem
      exact (hrounds round hround).round
    · rw [hrecords.mirrors.work, List.length_map]
      exact hlen
  obtain ⟨h', hrecords'⟩ := run_records cfg cache (events ++ rounds.flatten)
  have hwork : h'.work = 0 := by
    rw [hrecords'.mirrors.work]
    exact hdrained
  have hfound : foundOf cfg cache (events ++ rounds.flatten) = foundOf cfg cache events := by
    funext lane
    rw [foundOf, collect_append, hnone lane, List.append_nil]
    rfl
  obtain ⟨hchannel, hports⟩ := settled hwork
  refine ⟨?_, ?_, h'.taken, hrecords'.taken, ?_⟩
  · rw [← hrecords'.mirrors.channel, hchannel]
    rfl
  · intro lane
    have hport := hports lane
    rw [hrecords'.mirrors.port lane] at hport
    refine Outbox.idle_iff.mpr (Outbox.eq_idle ?_ hport.1 hport.2)
    rw [run_append]
    exact hprocessed.run hhandles lane
  · intro lane
    rw [← hfound, ← hrecords'.offered]
    exact hrecords'.delivered.all_taken hwork lane

/-- One turn for each task. -/
def oneRound : List PipelineEvent :=
  [.dexCheck, .dexSend, .liquidationCheck, .liquidationSend,
    .execute none (Fin.last 7) (.error "") 0]

theorem oneRound_fair : FairRound oneRound where
  handles := by simp [oneRound, Handles]
  dexCheck := by simp [oneRound]
  dexSend := by simp [oneRound]
  liquidationCheck := by simp [oneRound]
  liquidationSend := by simp [oneRound]
  executes := ⟨none, Fin.last 7, .error "", 0, by simp [oneRound]⟩

/-- What waits in a loop was found. -/
theorem found_of_waiting {cfg : PipelineConfig F} {cache : AccountCache}
    {events : List PipelineEvent} {lane : Lane}
    (h : waitingIn cfg (run cfg (PipelineState.init cfg cache) events) lane ≠ []) :
    (foundOf cfg cache events lane).filter cfg.accepts ≠ [] := by
  obtain ⟨hub, hrecords⟩ := run_records cfg cache events
  rw [← hrecords.offered, hrecords.delivered.inOrder lane, hrecords.mirrors.port lane]
  exact List.append_ne_nil_of_right_ne_nil _ h

omit [F64 F] in
theorem backlog_pos {s : PipelineState F} (lane : Lane) (h : (outboxOf s lane).queue ≠ []) :
    0 < backlog s := by
  have hlength := List.length_pos_iff.mpr h
  have hle : (portOf (outboxOf s lane)).work ≤ ∑ l, (portOf (outboxOf s l)).work :=
    Finset.single_le_sum (f := fun l => (portOf (outboxOf s l)).work)
      (fun _ _ => Nat.zero_le _) (Finset.mem_univ lane)
  have hwork : 0 < (portOf (outboxOf s lane)).work := by
    show 0 < 3 * (outboxOf s lane).queue.length + _
    omega
  rw [backlog]
  omega

open MevSubmitted MevOpportunity in
/-- The sample run up to its second update leaves an accepted opportunity in the loop, and
    as many plain rounds as there is backlog hand it over. -/
theorem sample_arrives :
    let events := bothProcessed firstMarket secondMarket
    let left := run sampleConfig (PipelineState.init sampleConfig AccountCache.new) events
    let rounds := List.replicate (backlog left) oneRound
    let s := run sampleConfig (PipelineState.init sampleConfig AccountCache.new)
      (events ++ rounds.flatten)
    (waitingIn sampleConfig left .dexArb ≠ [] ∧ 0 < backlog left) ∧
      s.channel = [] ∧ (∀ lane, (outboxOf s lane).idle = true) ∧
      takenOf sampleConfig AccountCache.new (events ++ rounds.flatten) ≠ [] := by
  intro events left rounds
  obtain ⟨opp, rest, hout, haccepts⟩ := sample_outbox
  change left.dexOutbox = .forwarding (opp :: rest) none at hout
  have hprocessed : AllProcessed left := by
    intro lane
    cases lane with
    | dexArb =>
        show left.dexOutbox.unprocessed = none
        rw [hout]
        rfl
    | liquidation =>
        show left.liquidationOutbox.unprocessed = none
        rw [show left = _ from bothProcessed_run sampleConfig firstMarket secondMarket]
        rfl
  have hwaiting : waitingIn sampleConfig left .dexArb ≠ [] := by
    show left.dexOutbox.sending.toList ++ left.dexOutbox.queue.filter sampleConfig.accepts ≠ []
    rw [hout]
    refine List.append_ne_nil_of_right_ne_nil _ (List.ne_nil_of_mem (a := opp) ?_)
    exact List.mem_filter.mpr ⟨List.mem_cons_self, haccepts⟩
  obtain ⟨hchannel, hidle, taken, htaken, hfound⟩ :=
    opportunities_arrive sampleConfig AccountCache.new events rounds hprocessed
      (fun round hround => List.eq_of_mem_replicate hround ▸ oneRound_fair)
      (List.length_replicate ..).ge
  refine ⟨⟨hwaiting, ?_⟩, hchannel, hidle, ?_⟩
  · refine backlog_pos .dexArb ?_
    show left.dexOutbox.queue ≠ []
    rw [hout]
    exact List.cons_ne_nil _ _
  · intro hnone
    rw [hnone, List.map_nil, List.map_eq_nil_iff] at htaken
    refine found_of_waiting hwaiting ?_
    rw [hfound .dexArb, htaken]
    rfl

end MevDelivery
