import MevBot.Delivery
import MevBot.ExecutedTrades

/-! # Shutting down

    Ctrl+C raises a flag that a task of the pipeline looks at only between two
    turns of its loop, in no particular order; when the executor leaves, its end
    of the opportunity channel is gone and every later send fails.  Whatever the
    order, a session is a run of the pipeline up to the moment the executor
    leaves, and from then on its books stay as they are (`session_runs_pipeline`);
    and no task waits for one that has left (`shutdown_completes`). -/

namespace MevShutdown

open MevMachine MevTypes MevCache MevStrategy MevRisk MevTracker MevPipeline MevLedger MevDelivery
open MevExecuted
open FairRounds (Progress Fair)

/-! ## Sessions -/

/-- The tasks `main` spawns for the pipeline. -/
inductive Task where
  | cacheUpdater
  | dexArb
  | liquidation
  | executor
deriving DecidableEq, Repr

/-- The task whose turn it is. -/
def taskOf : PipelineEvent → Task
  | .cacheUpdate _ => .cacheUpdater
  | .dexReceive _ | .dexProcess | .dexCheck | .dexSend => .dexArb
  | .liquidationReceive _ | .liquidationProcess | .liquidationCheck | .liquidationSend =>
      .liquidation
  | .execute .. | .poll .. => .executor

section Model

variable {F : Type}

/-- The tasks' states, the flag, and who has left its loop. -/
structure Session (F : Type) where
  pipeline : PipelineState F
  shutdown : Bool
  left : Task → Bool

/-- A turn of a task, Ctrl-C, or a `select!` of a task that sees the flag. -/
inductive SessionEvent where
  | turn (event : PipelineEvent)
  | ctrlC
  /-- `select!` picks the branch of the flag. -/
  | leave (task : Task)

/-- All four tasks run, and nobody has pressed Ctrl-C. -/
def Session.start (cfg : PipelineConfig F) (cache : AccountCache) : Session F :=
  ⟨PipelineState.init cfg cache, false, fun _ => false⟩

/-- The task is back at its `select!`; a strategy task is there once its loop over the
    opportunities is through. -/
def atSelect (s : PipelineState F) : Task → Bool
  | .dexArb => s.dexOutbox.idle
  | .liquidation => s.liquidationOutbox.idle
  | _ => true

/-- The send fails: the opportunity is dropped. -/
def Outbox.fail : Outbox → Outbox
  | .received update => .received update
  | .forwarding queue _ => .forwarding queue none

/-- A turn without the executor. -/
def orphanStep [F64 F] (cfg : PipelineConfig F) (s : PipelineState F) :
    PipelineEvent → PipelineState F
  | .dexSend => { s with dexOutbox := Outbox.fail s.dexOutbox }
  | .liquidationSend => { s with liquidationOutbox := Outbox.fail s.liquidationOutbox }
  | event => step cfg s event

/-- A turn of a task that has left does nothing. -/
def sessionStep [F64 F] (cfg : PipelineConfig F) (s : Session F) : SessionEvent → Session F
  | .turn event =>
      if s.left (taskOf event) then s
      else if s.left .executor then { s with pipeline := orphanStep cfg s.pipeline event }
      else { s with pipeline := step cfg s.pipeline event }
  | .ctrlC => { s with shutdown := true }
  | .leave task =>
      if s.shutdown && atSelect s.pipeline task then
        { s with left := Function.update s.left task true }
      else s

/-- The events, one after another. -/
def sessionRun [F64 F] (cfg : PipelineConfig F) (s : Session F) (events : List SessionEvent) :
    Session F :=
  FairRounds.run (sessionStep cfg) s events

/-- The turns of a session. -/
def turnsIn (events : List SessionEvent) : List PipelineEvent :=
  events.filterMap fun event =>
    match event with
    | .turn event => some event
    | _ => none

/-- The turn that an event is, of a task that has not left and while the executor has not. -/
def turnMade (s : Session F) : SessionEvent → List PipelineEvent
  | .turn event => if s.left (taskOf event) || s.left .executor then [] else [event]
  | _ => []

/-- The turns made in a session until the executor left. -/
def turnsMade [F64 F] (cfg : PipelineConfig F) (s : Session F) :
    List SessionEvent → List PipelineEvent
  | [] => []
  | event :: events => turnMade s event ++ turnsMade cfg (sessionStep cfg s event) events

end Model

variable {F : Type} [F64 F]

theorem sessionRun_append (cfg : PipelineConfig F) (s : Session F)
    (events events' : List SessionEvent) :
    sessionRun cfg s (events ++ events') = sessionRun cfg (sessionRun cfg s events) events' :=
  FairRounds.run_append _ s events events'

/-! ## The executor's books -/

/-- What the executor alone writes. -/
structure SameBooks (s t : PipelineState F) : Prop where
  executed : s.executed = t.executed
  tracker : s.tracker = t.tracker
  breaker : s.breaker = t.breaker
  counters : SameCounters t.pnl s.pnl

omit [F64 F] in
/-- Any books are the same as themselves. -/
theorem SameBooks.refl (s : PipelineState F) : SameBooks s s :=
  ⟨rfl, rfl, rfl, ⟨rfl, rfl, rfl, rfl⟩⟩

omit [F64 F] in
/-- Nothing changes the books in two steps. -/
theorem SameBooks.trans {s t u : PipelineState F} (h : SameBooks s t) (h' : SameBooks t u) :
    SameBooks s u :=
  ⟨h.executed.trans h'.executed, h.tracker.trans h'.tracker, h.breaker.trans h'.breaker,
    h.counters.submitted.trans h'.counters.submitted,
    h.counters.landed.trans h'.counters.landed,
    h.counters.profit.trans h'.counters.profit, h.counters.tip.trans h'.counters.tip⟩

/-- A turn of another task leaves the books. -/
theorem step_books (cfg : PipelineConfig F) (s : PipelineState F) {event : PipelineEvent}
    (h : taskOf event ≠ .executor) : SameBooks (step cfg s event) s := by
  cases event with
  | cacheUpdate update => exact ⟨rfl, rfl, rfl, rfl, rfl, rfl, rfl⟩
  | dexReceive update =>
      rcases step_dexReceive_cases cfg s update with heq | ⟨-, heq⟩
      · rw [heq]
        exact SameBooks.refl s
      · rw [heq]
        exact ⟨rfl, rfl, rfl, rfl, rfl, rfl, rfl⟩
  | dexProcess =>
      rcases step_dexProcess_cases cfg s with heq | ⟨update, -, heq⟩
      · rw [heq]
        exact SameBooks.refl s
      · rw [heq]
        exact ⟨rfl, rfl, rfl, rfl, rfl, rfl, rfl⟩
  | dexCheck => exact ⟨rfl, rfl, rfl, check_counters cfg s.dexOutbox s.pnl⟩
  | dexSend => exact ⟨rfl, rfl, rfl, rfl, rfl, rfl, rfl⟩
  | liquidationReceive update =>
      rcases step_liquidationReceive_cases cfg s update with heq | ⟨-, heq⟩
      · rw [heq]
        exact SameBooks.refl s
      · rw [heq]
        exact ⟨rfl, rfl, rfl, rfl, rfl, rfl, rfl⟩
  | liquidationProcess =>
      rcases step_liquidationProcess_cases cfg s with heq | ⟨update, -, heq⟩
      · rw [heq]
        exact SameBooks.refl s
      · rw [heq]
        exact ⟨rfl, rfl, rfl, rfl, rfl, rfl, rfl⟩
  | liquidationCheck => exact ⟨rfl, rfl, rfl, check_counters cfg s.liquidationOutbox s.pnl⟩
  | liquidationSend => exact ⟨rfl, rfl, rfl, rfl, rfl, rfl, rfl⟩
  | execute blockhash tipIndex answer now => exact absurd rfl h
  | poll now response recordedAt => exact absurd rfl h

/-- Only the executor's turns change the books. -/
theorem orphanStep_books (cfg : PipelineConfig F) (s : PipelineState F) {event : PipelineEvent}
    (h : taskOf event ≠ .executor) : SameBooks (orphanStep cfg s event) s := by
  rw [orphanStep.eq_def]
  split
  · exact ⟨rfl, rfl, rfl, rfl, rfl, rfl, rfl⟩
  · exact ⟨rfl, rfl, rfl, rfl, rfl, rfl, rfl⟩
  · exact step_books cfg s h

/-- The session so far is a run of the pipeline, or was until the executor left. -/
structure Followed (cfg : PipelineConfig F) (cache : AccountCache) (s : Session F)
    (turns : List PipelineEvent) : Prop where
  running : s.left .executor = false →
    s.pipeline = run cfg (PipelineState.init cfg cache) turns
  books : SameBooks s.pipeline (run cfg (PipelineState.init cfg cache) turns)

/-- **ONE EVENT** of a session. -/
theorem Followed.step {cfg : PipelineConfig F} {cache : AccountCache} {s : Session F}
    {turns : List PipelineEvent} (h : Followed cfg cache s turns) (event : SessionEvent) :
    Followed cfg cache (sessionStep cfg s event) (turns ++ turnMade s event) := by
  have hidle : Followed cfg cache s (turns ++ []) := by
    rw [List.append_nil]
    exact h
  cases event with
  | turn event =>
      rw [sessionStep, turnMade]
      cases hthere : s.left (taskOf event) with
      | true => exact hidle
      | false =>
          cases hgone : s.left .executor with
          -- the executor has left, so this is another task's turn
          | true =>
              have htask : taskOf event ≠ .executor := by
                intro htask
                rw [htask, hgone] at hthere
                cases hthere
              refine ⟨fun hleft => absurd (hgone.symm.trans hleft) Bool.noConfusion, ?_⟩
              exact (orphanStep_books cfg s.pipeline htask).trans hidle.books
          | false =>
              have hpipeline := h.running hgone
              refine ⟨fun _ => ?_, ?_⟩
              · show MevPipeline.step cfg s.pipeline event = run cfg _ (turns ++ [event])
                rw [run_concat, ← hpipeline]
              · show SameBooks (MevPipeline.step cfg s.pipeline event)
                  (run cfg _ (turns ++ [event]))
                rw [run_concat, ← hpipeline]
                exact SameBooks.refl _
  | ctrlC => exact ⟨hidle.running, hidle.books⟩
  | leave task =>
      rw [sessionStep]
      split
      · refine ⟨?_, hidle.books⟩
        intro hleft
        change Function.update s.left task true .executor = false at hleft
        refine hidle.running ?_
        by_cases htask : Task.executor = task
        · rw [← htask, Function.update_self] at hleft
          cases hleft
        · rw [Function.update_of_ne htask] at hleft
          exact hleft
      · exact hidle

/-- **ANY STRETCH** of a session. -/
theorem Followed.run {cfg : PipelineConfig F} {cache : AccountCache} {s : Session F}
    {turns : List PipelineEvent} (h : Followed cfg cache s turns) (events : List SessionEvent) :
    Followed cfg cache (sessionRun cfg s events) (turns ++ turnsMade cfg s events) := by
  induction events generalizing s turns with
  | nil =>
      rw [turnsMade, List.append_nil]
      exact h
  | cons event events ih =>
      rw [turnsMade, ← List.append_assoc]
      exact ih (h.step event)

/-- Who has left stays away. -/
theorem sessionStep_left (cfg : PipelineConfig F) (s : Session F) (event : SessionEvent)
    {task : Task} (h : s.left task = true) : (sessionStep cfg s event).left task = true := by
  cases event with
  | turn event =>
      rw [sessionStep]
      split
      · exact h
      · split
        · exact h
        · exact h
  | ctrlC => exact h
  | leave task' =>
      rw [sessionStep]
      split
      · by_cases htask : task = task'
        · rw [htask]
          exact Function.update_self ..
        · exact (Function.update_of_ne htask true s.left).trans h
      · exact h

/-- Once the executor has left, no turn counts. -/
theorem turnsMade_gone (cfg : PipelineConfig F) {s : Session F} (h : s.left .executor = true)
    (events : List SessionEvent) : turnsMade cfg s events = [] := by
  induction events generalizing s with
  | nil => rfl
  | cons event events ih =>
      rw [turnsMade, ih (sessionStep_left cfg s event h), List.append_nil]
      cases event with
      | turn event =>
          rw [turnMade, h, Bool.or_true]
          rfl
      | ctrlC => rfl
      | leave task => rfl

/-- The turns made are among those of the session. -/
theorem turnsMade_sublist (cfg : PipelineConfig F) (s : Session F) (events : List SessionEvent) :
    (turnsMade cfg s events).Sublist (turnsIn events) := by
  induction events generalizing s with
  | nil => exact List.nil_sublist _
  | cons event events ih =>
      have hone : (turnMade s event).Sublist (turnsIn [event]) := by
        cases event with
        | turn event =>
            rw [turnMade]
            split
            · exact List.nil_sublist _
            · exact List.Sublist.refl _
        | ctrlC => exact List.nil_sublist _
        | leave task => exact List.nil_sublist _
      rw [show turnsIn (event :: events) = turnsIn [event] ++ turnsIn events from
        List.filterMap_append (l := [event])]
      exact hone.append (ih _)

/-- **A SESSION IS A RUN OF THE PIPELINE UNTIL THE EXECUTOR LEAVES**, shut down at any time
    and in any order: on exactly the turns that tasks which had not left made while the
    executor was there.  What the executor has executed, tracks and has booked stays, once
    it has left, as of this run, whatever the other tasks still do. -/
theorem session_runs_pipeline (cfg : PipelineConfig F) (cache : AccountCache)
    (events : List SessionEvent) :
    let s := sessionRun cfg (Session.start cfg cache) events
    let turns := turnsMade cfg (Session.start cfg cache) events
    turns.Sublist (turnsIn events) ∧
      (s.left .executor = false → s.pipeline = run cfg (PipelineState.init cfg cache) turns) ∧
      SameBooks s.pipeline (run cfg (PipelineState.init cfg cache) turns) ∧
      ∀ more, s.left .executor = true →
        SameBooks (sessionRun cfg s more).pipeline (run cfg (PipelineState.init cfg cache) turns)
    := by
  have hstart : Followed cfg cache (Session.start cfg cache) [] :=
    ⟨fun _ => rfl, SameBooks.refl _⟩
  have h := hstart.run events
  refine ⟨turnsMade_sublist cfg _ events, h.running, h.books, ?_⟩
  intro more hleft
  have h' := h.run more
  rw [turnsMade_gone cfg hleft, List.append_nil] at h'
  exact h'.books

/-! ## Everybody leaves -/

/-- The two turns of a forwarding loop, and the task it belongs to. -/
def checkTurn : Lane → PipelineEvent
  | .dexArb => .dexCheck
  | .liquidation => .liquidationCheck

/-- The turn that processes what the task holds. -/
def processTurn : Lane → PipelineEvent
  | .dexArb => .dexProcess
  | .liquidation => .liquidationProcess

/-- The turn in which a lane's loop hands its next opportunity over. -/
def sendTurn : Lane → PipelineEvent
  | .dexArb => .dexSend
  | .liquidation => .liquidationSend

/-- The task that serves a lane. -/
def laneTask : Lane → Task
  | .dexArb => .dexArb
  | .liquidation => .liquidation

/-- What a shutdown is waiting for: the tasks that have not left, and their loops. -/
structure Pending where
  left : Task → Bool
  ports : Lane → Handover.Port Opportunity

/-- What the tasks still have to do before they can leave. -/
def pendingOf (s : Session F) : Pending := ⟨s.left, fun lane => portOf (outboxOf s.pipeline lane)⟩

/-- The tasks still there. -/
def tasksLeft (left : Task → Bool) : Nat :=
  (!left .cacheUpdater).toNat + (!left .dexArb).toNat + (!left .liquidation).toNat +
    (!left .executor).toNat

/-- The moves a shutdown still needs. -/
def Pending.work (p : Pending) : Nat :=
  tasksLeft p.left + (p.ports .dexArb).work + (p.ports .liquidation).work

/-- A strategy task that has left was through with its loop. -/
def Through (s : Session F) : Prop :=
  ∀ lane, s.left (laneTask lane) = true → (outboxOf s.pipeline lane).idle = true

/-- The flag is up, and no update is left to process. -/
structure Closing (s : Session F) : Prop where
  shutdown : s.shutdown = true
  through : Through s
  processed : AllProcessed s.pipeline

/-- A strategy task takes no new update. -/
def Closes : SessionEvent → Prop
  | .turn event => Handles event
  | _ => True

/-- A task that leaves is one fewer, unless it had left. -/
theorem tasksLeft_update (left : Task → Bool) (task : Task) :
    Function.update left task true = left ∨
      tasksLeft (Function.update left task true) < tasksLeft left := by
  cases hleft : left task with
  | true =>
      left
      rw [← hleft]
      exact Function.update_eq_self task left
  | false =>
      right
      cases task with
      | cacheUpdater => simp [tasksLeft, Function.update, hleft]
      | dexArb => simp [tasksLeft, Function.update, hleft]
      | liquidation => simp [tasksLeft, Function.update, hleft]
      | executor => simp [tasksLeft, Function.update, hleft]

/-- A loop that is as it was, or has less to do. -/
def NoMore (o o' : Outbox) : Prop := o' = o ∨ (portOf o').work < (portOf o).work

omit [F64 F] in
/-- A check takes an opportunity out of the loop, or leaves it waiting to be sent. -/
theorem check_noMore (cfg : PipelineConfig F) (o : Outbox) (pnl : PnlTracker) :
    NoMore o (o.check cfg pnl).1 := by
  rcases o.check_cases cfg pnl with heq | ⟨opp, rest, rfl, heq⟩
  · exact Or.inl (congrArg Prod.fst heq)
  · right
    rw [heq]
    have hone : (if cfg.accepts opp then some opp else none).toList.length ≤ 1 := by
      split
      · exact Nat.le_refl 1
      · exact Nat.zero_le 1
    show 3 * rest.length + 2 * (if cfg.accepts opp then some opp else none).toList.length <
      3 * (rest.length + 1) + 2 * 0
    omega

/-- A task that sends has less to do when it no longer does. -/
theorem sent_less {o : Outbox} {opp : Opportunity} (h : o.sending = some opp) :
    (portOf (.forwarding o.queue none)).work < (portOf o).work := by
  show 3 * o.queue.length + 2 * 0 < 3 * o.queue.length + 2 * o.sending.toList.length
  rw [h, Option.toList_some, List.length_singleton]
  omega

/-- A send into a closed channel gives the opportunity up. -/
theorem fail_noMore (o : Outbox) : NoMore o (Outbox.fail o) := by
  cases o with
  | received update => exact Or.inl rfl
  | forwarding queue sending =>
      cases sending with
      | none => exact Or.inl rfl
      | some opp => exact Or.inr (sent_less (o := .forwarding queue (some opp)) rfl)

/-- A send hands it over, or leaves it where it is. -/
theorem send_noMore (o : Outbox) (channel : List Opportunity) :
    NoMore o (o.send channel).1 := by
  rcases o.send_cases channel with heq | ⟨opp, hsending, -, heq⟩
  · exact Or.inl (congrArg Prod.fst heq)
  · rw [heq]
    exact Or.inr (sent_less hsending)

/-- Another task's turn leaves a loop as it is. -/
theorem step_other (cfg : PipelineConfig F) (s : PipelineState F) {event : PipelineEvent}
    {lane : Lane} (h : laneTask lane ≠ taskOf event) :
    outboxOf (step cfg s event) lane = outboxOf s lane := by
  cases event with
  | cacheUpdate update => cases lane <;> rfl
  | dexReceive update =>
      rcases step_dexReceive_cases cfg s update with heq | ⟨-, heq⟩
      · rw [heq]
      · rw [heq]
        cases lane with
        | dexArb => exact absurd rfl h
        | liquidation => rfl
  | dexProcess =>
      rcases step_dexProcess_cases cfg s with heq | ⟨update, -, heq⟩
      · rw [heq]
      · rw [heq]
        cases lane with
        | dexArb => exact absurd rfl h
        | liquidation => rfl
  | dexCheck =>
      cases lane with
      | dexArb => exact absurd rfl h
      | liquidation => rfl
  | dexSend =>
      cases lane with
      | dexArb => exact absurd rfl h
      | liquidation => rfl
  | liquidationReceive update =>
      rcases step_liquidationReceive_cases cfg s update with heq | ⟨-, heq⟩
      · rw [heq]
      · rw [heq]
        cases lane with
        | dexArb => rfl
        | liquidation => exact absurd rfl h
  | liquidationProcess =>
      rcases step_liquidationProcess_cases cfg s with heq | ⟨update, -, heq⟩
      · rw [heq]
      · rw [heq]
        cases lane with
        | dexArb => rfl
        | liquidation => exact absurd rfl h
  | liquidationCheck =>
      cases lane with
      | dexArb => rfl
      | liquidation => exact absurd rfl h
  | liquidationSend =>
      cases lane with
      | dexArb => rfl
      | liquidation => exact absurd rfl h
  | execute blockhash tipIndex answer now =>
      cases hchannel : s.channel with
      | nil => rw [step_execute_nil cfg s _ _ _ _ hchannel]
      | cons opp rest =>
          rw [step_execute_cons cfg s _ _ _ _ hchannel,
            (executeOne_frame cfg { s with channel := rest } opp _ _ _ _).1]
          cases lane with
          | dexArb => rfl
          | liquidation => rfl
  | poll now response recordedAt =>
      rcases step_poll_cases cfg s now response recordedAt with heq | heq
      · rw [heq]
      · rw [heq]
        cases lane with
        | dexArb => rfl
        | liquidation => rfl

/-- A turn of one lane leaves the other lane's loop alone. -/
theorem orphanStep_other (cfg : PipelineConfig F) (s : PipelineState F) {event : PipelineEvent}
    {lane : Lane} (h : laneTask lane ≠ taskOf event) :
    outboxOf (orphanStep cfg s event) lane = outboxOf s lane := by
  rw [orphanStep.eq_def]
  split
  · cases lane with
    | dexArb => exact absurd rfl h
    | liquidation => rfl
  · cases lane with
    | dexArb => rfl
    | liquidation => exact absurd rfl h
  · exact step_other cfg s h

/-- Without an update to process a task has nothing to process. -/
theorem step_process (cfg : PipelineConfig F) {s : PipelineState F} (hs : AllProcessed s)
    (lane : Lane) : step cfg s (processTurn lane) = s := by
  have hnone : ∀ update, outboxOf s lane ≠ .received update := by
    intro update hheld
    have hsome := (hs lane).symm.trans (Outbox.unprocessed_iff.mpr hheld)
    cases hsome
  cases lane with
  | dexArb =>
      rcases step_dexProcess_cases cfg s with heq | ⟨update, hheld, -⟩
      · exact heq
      · exact absurd hheld (hnone update)
  | liquidation =>
      rcases step_liquidationProcess_cases cfg s with heq | ⟨update, hheld, -⟩
      · exact heq
      · exact absurd hheld (hnone update)

/-- No turn but a receive gives a loop more to do, once everything is processed. -/
theorem step_noMore (cfg : PipelineConfig F) {s : PipelineState F} (hs : AllProcessed s)
    {event : PipelineEvent} (h : Handles event) (lane : Lane) :
    NoMore (outboxOf s lane) (outboxOf (step cfg s event) lane) := by
  by_cases hown : laneTask lane = taskOf event
  · cases event with
    | dexReceive update => exact h.elim
    | liquidationReceive update => exact h.elim
    | dexProcess => exact Or.inl (congrArg (outboxOf · lane) (step_process cfg hs .dexArb))
    | liquidationProcess =>
        exact Or.inl (congrArg (outboxOf · lane) (step_process cfg hs .liquidation))
    | dexCheck =>
        cases lane with
        | dexArb => exact check_noMore cfg s.dexOutbox s.pnl
        | liquidation => cases hown
    | dexSend =>
        cases lane with
        | dexArb => exact send_noMore s.dexOutbox s.channel
        | liquidation => cases hown
    | liquidationCheck =>
        cases lane with
        | dexArb => cases hown
        | liquidation => exact check_noMore cfg s.liquidationOutbox s.pnl
    | liquidationSend =>
        cases lane with
        | dexArb => cases hown
        | liquidation => exact send_noMore s.liquidationOutbox s.channel
    | cacheUpdate update => cases lane <;> cases hown
    | execute blockhash tipIndex answer now => cases lane <;> cases hown
    | poll now response recordedAt => cases lane <;> cases hown
  · exact Or.inl (step_other cfg s hown)

/-- No turn of a closing round gives a loop more to do. -/
theorem orphanStep_noMore (cfg : PipelineConfig F) {s : PipelineState F} (hs : AllProcessed s)
    {event : PipelineEvent} (h : Handles event) (lane : Lane) :
    NoMore (outboxOf s lane) (outboxOf (orphanStep cfg s event) lane) := by
  rw [orphanStep.eq_def]
  split
  · cases lane with
    | dexArb => exact fail_noMore s.dexOutbox
    | liquidation => exact Or.inl rfl
  · cases lane with
    | dexArb => exact Or.inl rfl
    | liquidation => exact fail_noMore s.liquidationOutbox
  · exact step_noMore cfg hs h lane

theorem fail_unprocessed (o : Outbox) : (Outbox.fail o).unprocessed = o.unprocessed := by
  cases o with
  | received update => rfl
  | forwarding queue sending => rfl

/-- What a task that receives nothing has processed, it has processed for good. -/
theorem orphanStep_unprocessed (cfg : PipelineConfig F) {s : PipelineState F}
    {event : PipelineEvent} (h : Handles event) {lane : Lane}
    (hs : (outboxOf s lane).unprocessed = none) :
    (outboxOf (orphanStep cfg s event) lane).unprocessed = none := by
  rw [orphanStep.eq_def]
  split
  · cases lane with
    | dexArb => exact (fail_unprocessed s.dexOutbox).trans hs
    | liquidation => exact hs
  · cases lane with
    | dexArb => exact hs
    | liquidation => exact (fail_unprocessed s.liquidationOutbox).trans hs
  · exact step_keeps_processed h hs

/-- A loop without work is idle. -/
theorem idle_of_work {o : Outbox} (hprocessed : o.unprocessed = none)
    (h : (portOf o).work = 0) : o.idle = true := by
  change 3 * o.queue.length + 2 * o.sending.toList.length = 0 at h
  refine Outbox.idle_iff.mpr (Outbox.eq_idle hprocessed ?_ ?_)
  · exact List.eq_nil_of_length_eq_zero (by omega)
  · exact Option.toList_eq_nil_iff.mp (List.eq_nil_of_length_eq_zero (by omega))

/-- An idle loop has no work. -/
theorem work_of_idle {o : Outbox} (h : o.idle = true) : (portOf o).work = 0 := by
  rw [Outbox.idle_iff.mp h]
  rfl

/-- **ONE EVENT**, whichever: nobody leaves in the middle of its loop. -/
theorem Through.step {cfg : PipelineConfig F} {s : Session F} (h : Through s)
    (event : SessionEvent) : Through (sessionStep cfg s event) := by
  cases event with
  | ctrlC => exact h
  | turn event =>
      rw [sessionStep]
      split
      · exact h
      · rename_i hthere
        have hother : ∀ lane, s.left (laneTask lane) = true → laneTask lane ≠ taskOf event := by
          intro lane hleft heq
          exact hthere (heq ▸ hleft)
        split
        · intro lane hleft
          change (outboxOf (orphanStep cfg s.pipeline event) lane).idle = true
          rw [orphanStep_other cfg s.pipeline (hother lane hleft)]
          exact h lane hleft
        · intro lane hleft
          change (outboxOf (MevPipeline.step cfg s.pipeline event) lane).idle = true
          rw [step_other cfg s.pipeline (hother lane hleft)]
          exact h lane hleft
  | leave task =>
      rw [sessionStep]
      split
      · rename_i hready
        rw [Bool.and_eq_true] at hready
        intro lane hleft
        by_cases htask : laneTask lane = task
        · rw [← htask] at hready
          cases lane with
          | dexArb => exact hready.2
          | liquidation => exact hready.2
        · refine h lane ?_
          rw [← hleft]
          exact (Function.update_of_ne htask true s.left).symm
      · exact h

/-- The flag is never taken back. -/
theorem sessionStep_shutdown (cfg : PipelineConfig F) {s : Session F} (h : s.shutdown = true)
    (event : SessionEvent) : (sessionStep cfg s event).shutdown = true := by
  cases event with
  | ctrlC => rfl
  | turn event =>
      rw [sessionStep]
      split
      · exact h
      · split
        · exact h
        · exact h
  | leave task =>
      rw [sessionStep]
      split
      · exact h
      · exact h

/-- Before the flag is up, nobody leaves. -/
theorem through_run (cfg : PipelineConfig F) (cache : AccountCache)
    (events : List SessionEvent) :
    Through (sessionRun cfg (Session.start cfg cache) events) := by
  refine List.foldlRecOn (motive := Through) events _ ?_ fun s h event _ => h.step event
  intro lane hleft
  cases hleft

/-- A task that has processed its update stays so while it receives nothing. -/
theorem sessionStep_unprocessed (cfg : PipelineConfig F) {s : Session F} {event : SessionEvent}
    (h : Closes event) {lane : Lane} (hs : (outboxOf s.pipeline lane).unprocessed = none) :
    (outboxOf (sessionStep cfg s event).pipeline lane).unprocessed = none := by
  cases event with
  | ctrlC => exact hs
  | turn event =>
      rw [sessionStep]
      split
      · exact hs
      · split
        · exact orphanStep_unprocessed cfg h hs
        · exact step_keeps_processed h hs
  | leave task =>
      rw [sessionStep]
      split
      · exact hs
      · exact hs

/-- The turn that processes it does so, if the task has not left anyhow. -/
theorem processTurn_unprocessed (cfg : PipelineConfig F) {s : Session F} (hs : Through s)
    (lane : Lane) :
    (outboxOf (sessionStep cfg s (.turn (processTurn lane))).pipeline lane).unprocessed = none := by
  have hstep : (outboxOf (step cfg s.pipeline (processTurn lane)) lane).unprocessed = none := by
    cases lane with
    | dexArb =>
        show (step cfg s.pipeline .dexProcess).dexOutbox.unprocessed = none
        cases houtbox : s.pipeline.dexOutbox with
        | received update => simp only [step, houtbox, Outbox.unprocessed]
        | forwarding queue sending => simp only [step, houtbox, Outbox.unprocessed]
    | liquidation =>
        show (step cfg s.pipeline .liquidationProcess).liquidationOutbox.unprocessed = none
        cases houtbox : s.pipeline.liquidationOutbox with
        | received update => simp only [step, houtbox, Outbox.unprocessed]
        | forwarding queue sending => simp only [step, houtbox, Outbox.unprocessed]
  rw [sessionStep]
  split
  · rename_i hleft
    have hidle := hs lane (by cases lane <;> exact hleft)
    rw [Outbox.idle_iff.mp hidle]
    rfl
  · split
    · cases lane with
      | dexArb => exact hstep
      | liquidation => exact hstep
    · exact hstep

/-- A stretch without a new update in which both strategies process what they hold. -/
structure Processing (events : List SessionEvent) : Prop where
  closes : ∀ event ∈ events, Closes event
  processes : ∀ lane, .turn (processTurn lane) ∈ events

/-- **AFTER SUCH A STRETCH** no update is left to process. -/
theorem Processing.allProcessed (cfg : PipelineConfig F) {s : Session F} (hs : Through s)
    {events : List SessionEvent} (h : Processing events) :
    AllProcessed (sessionRun cfg s events).pipeline := by
  intro lane
  obtain ⟨before, after, rfl⟩ := List.append_of_mem (h.processes lane)
  rw [sessionRun_append]
  have hthrough : Through (sessionRun cfg s before) :=
    List.foldlRecOn (motive := Through) before _ hs fun s h event _ => h.step event
  refine List.foldlRecOn
    (motive := fun t : Session F => (outboxOf t.pipeline lane).unprocessed = none) after
    (sessionStep cfg) (processTurn_unprocessed cfg hthrough lane) ?_
  intro s hs event hevent
  exact sessionStep_unprocessed cfg
    (h.closes event (List.mem_append_right _ (List.mem_cons_of_mem _ hevent))) hs

/-- **ONE EVENT** of a closing session leaves what it is waiting for, or less of it. -/
theorem closing_progress (cfg : PipelineConfig F) :
    Progress (sessionStep cfg) Closes Closing pendingOf Pending.work := by
  -- a turn of a task that is still there, with the executor or without
  have hturn : ∀ (s : Session F) (p : PipelineState F),
      (∀ lane, NoMore (outboxOf s.pipeline lane) (outboxOf p lane)) →
      pendingOf { s with pipeline := p } = pendingOf s ∨
        (pendingOf { s with pipeline := p }).work < (pendingOf s).work := by
    intro s p hless
    rcases hless .dexArb with hdex | hdex
    · rcases hless .liquidation with hliq | hliq
      · left
        rw [pendingOf, pendingOf]
        congr 1
        funext lane
        cases lane with
        | dexArb => exact congrArg portOf hdex
        | liquidation => exact congrArg portOf hliq
      · right
        simp only [pendingOf, Pending.work, hdex]
        omega
    · right
      rcases hless .liquidation with hliq | hliq
      · simp only [pendingOf, Pending.work, hliq]
        omega
      · simp only [pendingOf, Pending.work]
        omega
  refine ⟨?_, ?_⟩
  · intro s event hs hcloses
    exact ⟨sessionStep_shutdown cfg hs.shutdown event, hs.through.step event,
      fun lane => sessionStep_unprocessed cfg hcloses (hs.processed lane)⟩
  · intro s event hs hcloses
    cases event with
    | ctrlC => exact Or.inl rfl
    | turn event =>
        rw [sessionStep]
        split
        · exact Or.inl rfl
        · split
          · exact hturn s _ (orphanStep_noMore cfg hs.processed hcloses)
          · exact hturn s _ (step_noMore cfg hs.processed hcloses)
    | leave task =>
        rw [sessionStep]
        split
        · rcases tasksLeft_update s.left task with heq | hless
          · left
            rw [pendingOf, heq]
            rfl
          · right
            simp only [pendingOf, Pending.work]
            omega
        · exact Or.inl rfl

/-- A stretch in which no strategy takes a new update, the forwarding loops get their
    turns and every task comes by its `select!` with the flag chosen, in any order. -/
structure ClosingRound (round : List SessionEvent) : Prop where
  closes : ∀ event ∈ round, Closes event
  checks : ∀ lane, .turn (checkTurn lane) ∈ round
  sends : ∀ lane, .turn (sendTurn lane) ∈ round
  leaves : ∀ task, .leave task ∈ round

/-- A task at its `select!` leaves. -/
theorem leave_moves (cfg : PipelineConfig F) {s : Session F} (hs : Closing s) {task : Task}
    (hselect : atSelect s.pipeline task = true) (hthere : s.left task = false) :
    pendingOf (sessionStep cfg s (.leave task)) ≠ pendingOf s := by
  intro heq
  have hleft := congrFun (congrArg Pending.left heq) task
  have hready : (s.shutdown && atSelect s.pipeline task) = true := by
    rw [hs.shutdown, hselect]
    rfl
  rw [sessionStep, if_pos hready] at hleft
  change Function.update s.left task true task = s.left task at hleft
  rw [Function.update_self, hthere] at hleft
  cases hleft

/-- Without the executor, a loop that is not through checks or drops an opportunity. -/
theorem loop_moves (cfg : PipelineConfig F) {p : Pending} (hgone : p.left .executor = true)
    {lane : Lane} (hwork : (p.ports lane).work ≠ 0) :
    ∃ event ∈ [SessionEvent.turn (checkTurn lane), .turn (sendTurn lane)],
      ∀ s : Session F, Closing s → pendingOf s = p →
        pendingOf (sessionStep cfg s event) ≠ p := by
  have hports : ∀ s : Session F, Closing s → pendingOf s = p →
      s.left .executor = true ∧ s.left (laneTask lane) = false ∧
        portOf (outboxOf s.pipeline lane) = p.ports lane := by
    rintro s hs rfl
    refine ⟨hgone, ?_, rfl⟩
    refine eq_false_of_ne_true ?_
    intro hleft
    exact hwork (work_of_idle (hs.through lane hleft))
  have horphan : ∀ (s : Session F) (event : PipelineEvent), s.left .executor = true →
      s.left (taskOf event) = false →
      (pendingOf (sessionStep cfg s (.turn event))).ports lane =
        portOf (outboxOf (orphanStep cfg s.pipeline event) lane) := by
    intro s event hexecutor hthere
    rw [sessionStep, if_neg (ne_true_of_eq_false hthere), if_pos hexecutor]
    rfl
  cases hheld : (p.ports lane).held with
  | some opp =>
      refine ⟨_, List.mem_cons_of_mem _ List.mem_cons_self, ?_⟩
      intro s hs hshown heq
      obtain ⟨hexecutor, hthere, hport⟩ := hports s hs hshown
      have hafter := horphan s (sendTurn lane) hexecutor (by cases lane <;> exact hthere)
      rw [heq] at hafter
      rw [hafter] at hheld
      have hfailed : ∀ o, (portOf (Outbox.fail o)).held = none := by
        intro o
        cases o with
        | received update => rfl
        | forwarding queue sending => rfl
      cases lane with
      | dexArb => cases (hfailed s.pipeline.dexOutbox).symm.trans hheld
      | liquidation => cases (hfailed s.pipeline.liquidationOutbox).symm.trans hheld
  | none =>
      refine ⟨_, List.mem_cons_self, ?_⟩
      intro s hs hshown heq
      obtain ⟨hexecutor, hthere, hport⟩ := hports s hs hshown
      have hafter := horphan s (checkTurn lane) hexecutor (by cases lane <;> exact hthere)
      rw [heq] at hafter
      cases hbatch : (p.ports lane).batch with
      | nil =>
          rw [Handover.Port.work, hheld, hbatch] at hwork
          exact hwork rfl
      | cons opp rest =>
          rw [← hport] at hbatch hheld
          -- the loop has one opportunity less ahead of it
          have hcheck : portOf (outboxOf (orphanStep cfg s.pipeline (checkTurn lane)) lane) =
              (portOf (outboxOf s.pipeline lane)).check cfg.accepts := by
            cases lane with
            | dexArb => exact check_port cfg s.pipeline.dexOutbox s.pipeline.pnl
            | liquidation => exact check_port cfg s.pipeline.liquidationOutbox s.pipeline.pnl
          rw [hcheck, Handover.Port.check, hheld, hbatch, ← hport] at hafter
          have hlength := congrArg (fun port => port.batch.length) hafter
          rw [hbatch] at hlength
          simp at hlength

/-- Closing rounds are fair to all four tasks. -/
theorem ClosingRound.fair (cfg : PipelineConfig F) {round : List SessionEvent}
    (h : ClosingRound round) :
    Fair (sessionStep cfg) Closes Closing pendingOf Pending.work round where
  allowed := h.closes
  works := by
    intro p hwork
    cases hgone : p.left .executor with
    | false =>
        refine ⟨_, h.leaves .executor, ?_⟩
        intro s hs hshown
        subst hshown
        exact leave_moves cfg hs rfl hgone
    | true =>
        by_cases hloop : ∃ lane, (p.ports lane).work ≠ 0
        · obtain ⟨lane, hlane⟩ := hloop
          obtain ⟨event, hevent, hmoves⟩ := loop_moves cfg hgone hlane
          rw [List.mem_cons, List.mem_singleton] at hevent
          rcases hevent with rfl | rfl
          · exact ⟨_, h.checks lane, hmoves⟩
          · exact ⟨_, h.sends lane, hmoves⟩
        · have hthrough : ∀ lane, (p.ports lane).work = 0 := by
            intro lane
            by_contra hlane
            exact hloop ⟨lane, hlane⟩
          -- only leaving is left to do, and nobody is kept from it
          have hsomebody : ∃ task, p.left task = false := by
            by_contra hnobody
            have hleft : ∀ task, p.left task = true := by
              intro task
              refine eq_true_of_ne_false ?_
              intro hthere
              exact hnobody ⟨task, hthere⟩
            refine hwork ?_
            rw [Pending.work, tasksLeft, hthrough, hthrough, hleft, hleft, hleft, hleft]
            rfl
          obtain ⟨task, hthere⟩ := hsomebody
          refine ⟨_, h.leaves task, ?_⟩
          intro s hs hshown
          subst hshown
          refine leave_moves cfg hs ?_ hthere
          cases task with
          | dexArb => exact idle_of_work (hs.processed .dexArb) (hthrough .dexArb)
          | liquidation => exact idle_of_work (hs.processed .liquidation) (hthrough .liquidation)
          | cacheUpdater => rfl
          | executor => rfl

/-- **EVERYBODY LEAVES**: after Ctrl+C, whatever the session was doing, a stretch in which
    the strategies process what they hold, and then as many closing rounds as there are
    tasks and moves of their loops left, let every task of the pipeline leave; none waits
    for another that has left. -/
theorem shutdown_completes (cfg : PipelineConfig F) (cache : AccountCache)
    (events first : List SessionEvent) (rounds : List (List SessionEvent))
    (hfirst : Processing first) (hrounds : ∀ round ∈ rounds, ClosingRound round)
    (hlen : (pendingOf (sessionRun cfg (Session.start cfg cache)
      (events ++ .ctrlC :: first))).work ≤ rounds.length) :
    ∀ task, (sessionRun cfg (Session.start cfg cache)
      (events ++ .ctrlC :: first ++ rounds.flatten)).left task = true := by
  have hclosing : Closing (sessionRun cfg (Session.start cfg cache)
      (events ++ .ctrlC :: first)) := by
    rw [← List.singleton_append, ← List.append_assoc, sessionRun_append]
    have hthrough := through_run cfg cache (events ++ [.ctrlC])
    refine ⟨?_, ?_, hfirst.allProcessed cfg hthrough⟩
    · refine List.foldlRecOn (motive := fun t : Session F => t.shutdown = true) first
        (sessionStep cfg) ?_ fun t ht event _ => sessionStep_shutdown cfg ht event
      rw [sessionRun_append]
      rfl
    · rw [← sessionRun_append]
      exact through_run cfg cache _
  have hwork := (closing_progress cfg).run_drained hclosing
    (fun round hround => (hrounds round hround).fair cfg) hlen
  change (pendingOf (sessionRun cfg _ rounds.flatten)).work = 0 at hwork
  rw [← sessionRun_append] at hwork
  intro task
  generalize sessionRun cfg (Session.start cfg cache) (events ++ .ctrlC :: first ++ rounds.flatten)
    = s at hwork
  rw [Pending.work, tasksLeft] at hwork
  have hone : (!s.left task).toNat = 0 := by
    cases task with
    | cacheUpdater => exact (by omega : (!(pendingOf s).left .cacheUpdater).toNat = 0)
    | dexArb => exact (by omega : (!(pendingOf s).left .dexArb).toNat = 0)
    | liquidation => exact (by omega : (!(pendingOf s).left .liquidation).toNat = 0)
    | executor => exact (by omega : (!(pendingOf s).left .executor).toNat = 0)
  cases hleft : s.left task with
  | true => rfl
  | false =>
      rw [hleft] at hone
      cases hone

/-- Both strategies process what they hold. -/
def processingTurns : List SessionEvent := [.turn .dexProcess, .turn .liquidationProcess]

theorem processingTurns_processing : Processing processingTurns where
  closes := by simp [processingTurns, Closes, Handles]
  processes := fun lane => by cases lane <;> simp [processingTurns, processTurn]

/-- One closing round, the executor first. -/
def closingRound : List SessionEvent :=
  [.leave .executor, .turn .dexCheck, .turn .dexSend, .turn .liquidationCheck,
    .turn .liquidationSend, .leave .cacheUpdater, .leave .dexArb, .leave .liquidation]

/-- The sample round gives every task its turns. -/
theorem closingRound_closes : ClosingRound closingRound where
  closes := by simp [closingRound, Closes, Handles]
  checks := fun lane => by cases lane <;> simp [closingRound, checkTurn]
  sends := fun lane => by cases lane <;> simp [closingRound, sendTurn]
  leaves := fun task => by cases task <;> simp [closingRound]

/-- While nobody has left, the turns of a session are the pipeline's. -/
theorem sessionRun_turns (cfg : PipelineConfig F) {s : Session F}
    (hthere : ∀ task, s.left task = false) (turns : List PipelineEvent) :
    sessionRun cfg s (turns.map .turn) = { s with pipeline := run cfg s.pipeline turns } := by
  induction turns generalizing s with
  | nil => rfl
  | cons event turns ih =>
      have hstep : sessionStep cfg s (.turn event) =
          { s with pipeline := step cfg s.pipeline event } := by
        rw [sessionStep, hthere, hthere]
        rfl
      show sessionRun cfg (sessionStep cfg s (.turn event)) (turns.map .turn) = _
      rw [hstep]
      exact ih hthere

/-- A session cut short between two turns, once both strategies have processed. -/
theorem sessionRun_cut (cfg : PipelineConfig F) (cache : AccountCache)
    (turns : List PipelineEvent) :
    (sessionRun cfg (Session.start cfg cache)
      (turns.map .turn ++ .ctrlC :: processingTurns)).pipeline =
      run cfg (run cfg (PipelineState.init cfg cache) turns)
        [.dexProcess, .liquidationProcess] := by
  rw [sessionRun_append, sessionRun_turns cfg fun _ => rfl]
  exact congrArg Session.pipeline (sessionRun_turns cfg
    (s := ⟨run cfg (PipelineState.init cfg cache) turns, true, fun _ => false⟩) (fun _ => rfl)
    [.dexProcess, .liquidationProcess])

/-- A task that is forwarding processes nothing. -/
theorem run_processing (cfg : PipelineConfig F) {s : PipelineState F} {queue : List Opportunity}
    {sending : Option Opportunity} (h : s.dexOutbox = .forwarding queue sending) :
    (run cfg s [.dexProcess, .liquidationProcess]).dexOutbox = .forwarding queue sending := by
  have hdex : step cfg s .dexProcess = s := by
    simp only [step, h]
  show (step cfg (step cfg s .dexProcess) .liquidationProcess).dexOutbox = _
  rw [hdex]
  rcases step_liquidationProcess_cases cfg s with heq | ⟨update, -, heq⟩
  · rw [heq, h]
  · rw [heq, ← h]

/-- An accepted opportunity is being sent after the look at it. -/
theorem run_dexCheck (cfg : PipelineConfig F) {s : PipelineState F} {opp : Opportunity}
    {rest : List Opportunity} (h : s.dexOutbox = .forwarding (opp :: rest) none)
    (haccepts : cfg.accepts opp = true) :
    (step cfg s .dexCheck).dexOutbox = .forwarding rest (some opp) := by
  show (s.dexOutbox.check cfg s.pnl).1 = _
  rw [h, Outbox.check_accepted haccepts]

open MevSubmitted MevOpportunity in
/-- The sample session, cut short by Ctrl+C while the DEX task is sending, is left by all
    tasks, by the executor before the send. -/
theorem sample_left :
    let turns := bothProcessed firstMarket secondMarket ++ [PipelineEvent.dexCheck]
    let started := Session.start sampleConfig AccountCache.new
    let cut := sessionRun sampleConfig started (turns.map .turn ++ .ctrlC :: processingTurns)
    let rounds := List.replicate (pendingOf cut).work closingRound
    (∃ opp rest, cut.pipeline.dexOutbox = .forwarding rest (some opp)) ∧
      ∀ task, (sessionRun sampleConfig started
        (turns.map .turn ++ .ctrlC :: processingTurns ++ rounds.flatten)).left task = true := by
  intro turns started cut rounds
  have hrounds : ∀ round ∈ rounds, ClosingRound round := by
    intro round hround
    rw [List.eq_of_mem_replicate hround]
    exact closingRound_closes
  have hlen : rounds.length = (pendingOf cut).work := List.length_replicate
  have hsending : ∃ opp rest, cut.pipeline.dexOutbox = .forwarding rest (some opp) := by
    obtain ⟨opp, rest, hout, haccepts⟩ := sample_outbox
    have hcheck := run_dexCheck sampleConfig hout haccepts
    rw [← run_concat] at hcheck
    have hcut := sessionRun_cut sampleConfig AccountCache.new turns
    exact ⟨opp, rest, (congrArg PipelineState.dexOutbox hcut).trans (run_processing _ hcheck)⟩
  refine ⟨hsending, ?_⟩
  clear_value turns rounds
  exact shutdown_completes sampleConfig AccountCache.new (turns.map .turn) processingTurns rounds
    processingTurns_processing hrounds hlen.ge

end MevShutdown
