import MevBot.CacheLaws
import MevBot.ExecutorLedger
import MevBot.Library.BroadcastLog
import MevBot.SubmittedSwaps

/-! # The data feed

    The feed task parses the account messages of the stream and broadcasts them
    to the cache updater and the two strategy tasks.  The bot is the pipeline
    with its inputs wired to the feed: each run of the bot is one of the
    pipeline on updates that the stream carried, in their order
    (`bot_runs_pipeline`).  A task that falls behind the broadcast misses
    messages, and the cache is behind by no more than those
    (`cache_authentic`, `cache_catches_up`). -/

namespace MevFeed

open MevMachine MevTypes MevCache MevStrategy MevRisk MevTracker MevPipeline MevReceivers
open MevCacheLaws MevLedger StampedStore
open BroadcastLog hiding read

/-! ## Messages -/

/-- The account of an account message, its keys as raw bytes. -/
structure AccountInfo where
  pubkey : List UInt8
  data : List UInt8
  lamports : UInt64
  owner : List UInt8
deriving DecidableEq, Repr

/-- `UpdateOneof`, as far as the feed looks at it. -/
inductive UpdateOneof where
  | account (slot : UInt64) (account : Option AccountInfo)
  | slot (slot : UInt64)
  | other
deriving DecidableEq, Repr

/-- `Pubkey::new_from_array` on a slice that may have any length. -/
def pubkeyOf (bytes : List UInt8) : Option Pubkey :=
  if h : bytes.length = 32 then some ⟨⟨bytes.toArray, h⟩⟩ else none

/-- `parse_account_update`. -/
def parseAccountUpdate (pubkeyBytes : List UInt8) (slot : UInt64) (data : List UInt8)
    (lamports : UInt64) (ownerBytes : List UInt8) : Option AccountUpdate :=
  if pubkeyBytes.length ≠ 32 ∨ ownerBytes.length ≠ 32 then none
  else do
    let pubkey ← pubkeyOf pubkeyBytes
    let owner ← pubkeyOf ownerBytes
    some { pubkey, slot, data, lamports, owner }

/-- `SlotTracker::update`. -/
def slotUpdate (latestSlot slot : UInt64) : UInt64 := max latestSlot slot

/-- `DataFeed::handle_update`: the latest slot after the message, and what is sent. -/
def handleUpdate (latestSlot : UInt64) (msg : Option UpdateOneof) :
    UInt64 × Option AccountUpdate :=
  match msg with
  | none => (latestSlot, none)
  | some (.account slot account) =>
      (slotUpdate latestSlot slot, account.bind fun info =>
        parseAccountUpdate info.pubkey slot info.data info.lamports info.owner)
  | some (.slot slot) => (slotUpdate latestSlot slot, none)
  | some .other => (latestSlot, none)

theorem pubkeyOf_iff (bytes : List UInt8) (key : Pubkey) :
    pubkeyOf bytes = some key ↔ bytes = key.bytes.toList := by
  rw [pubkeyOf]
  constructor
  · intro h
    split at h
    · obtain rfl := Option.some.inj h
      rfl
    · cases h
  · rintro rfl
    rw [dif_pos (by rw [Vector.length_toList])]
    rfl

/-- **A MESSAGE PARSES TO THE UPDATE IT SPELLS OUT**, and to no other. -/
theorem parseAccountUpdate_iff (pubkeyBytes : List UInt8) (slot : UInt64) (data : List UInt8)
    (lamports : UInt64) (ownerBytes : List UInt8) (u : AccountUpdate) :
    parseAccountUpdate pubkeyBytes slot data lamports ownerBytes = some u ↔
      pubkeyBytes = u.pubkey.bytes.toList ∧ slot = u.slot ∧ data = u.data ∧
        lamports = u.lamports ∧ ownerBytes = u.owner.bytes.toList := by
  rw [parseAccountUpdate]
  constructor
  · intro h
    split at h
    · cases h
    · obtain ⟨pubkey, hpubkey, h⟩ := Option.bind_eq_some_iff.mp h
      obtain ⟨owner, howner, h⟩ := Option.bind_eq_some_iff.mp h
      obtain rfl := Option.some.inj h
      exact ⟨(pubkeyOf_iff _ _).mp hpubkey, rfl, rfl, rfl, (pubkeyOf_iff _ _).mp howner⟩
  · rintro ⟨rfl, rfl, rfl, rfl, rfl⟩
    rw [if_neg (by rw [Vector.length_toList, Vector.length_toList]; simp),
      (pubkeyOf_iff _ _).mpr rfl, (pubkeyOf_iff _ _).mpr rfl]
    rfl

/-- The message carries the update. -/
def Carries (msg : Option UpdateOneof) (u : AccountUpdate) : Prop :=
  msg = some (.account u.slot (some
    ⟨u.pubkey.bytes.toList, u.data, u.lamports, u.owner.bytes.toList⟩))

/-- **WHAT IS SENT IS WHAT THE MESSAGE CARRIES.** -/
theorem handleUpdate_sends_iff (latestSlot : UInt64) (msg : Option UpdateOneof)
    (u : AccountUpdate) : (handleUpdate latestSlot msg).2 = some u ↔ Carries msg u := by
  rw [Carries]
  cases msg with
  | none => exact ⟨fun h => (by cases h), fun h => (by cases h)⟩
  | some msg =>
      cases msg with
      | account slot account =>
          show account.bind _ = some u ↔ _
          rw [Option.bind_eq_some_iff]
          constructor
          · rintro ⟨info, rfl, h⟩
            obtain ⟨h1, rfl, h3, h4, h5⟩ := (parseAccountUpdate_iff _ _ _ _ _ _).mp h
            rw [← h1, ← h3, ← h4, ← h5]
          · intro h
            obtain ⟨rfl, rfl⟩ := UpdateOneof.account.inj (Option.some.inj h)
            exact ⟨_, rfl,
              (parseAccountUpdate_iff _ _ _ _ _ _).mpr ⟨rfl, rfl, rfl, rfl, rfl⟩⟩
      | slot slot => exact ⟨fun h => (by cases h), fun h => (by cases h)⟩
      | other => exact ⟨fun h => (by cases h), fun h => (by cases h)⟩

/-! ## The bot -/

variable {F : Type} [F64 F]

/-- The receivers of the broadcast. -/
inductive Receiver where
  | cacheUpdater
  | dexArb
  | liquidation
deriving DecidableEq, Repr

/-- A receiver's cursor, how many messages it has missed, and those it has received. -/
structure Intake where
  next : Nat
  missed : Nat
  got : List AccountUpdate

/-- The feed's slot tracker and what it has sent, the receivers, and the tasks. -/
structure BotState (F : Type) where
  latestSlot : UInt64
  published : List AccountUpdate
  intake : Receiver → Intake
  pipeline : PipelineState F

/-- One turn of the feed, of a receiver or of any other task. -/
inductive BotEvent where
  /-- The stream yields a message, or an error. -/
  | stream (item : Option (Option UpdateOneof))
  /-- A task asks its receiver for the next update. -/
  | recv (receiver : Receiver)
  /-- Any other turn of the pipeline. -/
  | turn (event : PipelineEvent)

/-- The state `main` starts from. -/
def BotState.start (cfg : PipelineConfig F) : BotState F :=
  { latestSlot := 0, published := [], intake := fun _ => ⟨0, 0, []⟩
    pipeline := PipelineState.init cfg AccountCache.new }

/-- A strategy task asks for an update when it is through with the last one. -/
def ready (cfg : PipelineConfig F) (s : PipelineState F) : Receiver → Bool
  | .cacheUpdater => true
  | .dexArb => s.dexOutbox.idle
  | .liquidation => cfg.liquidationEnabled && s.liquidationOutbox.idle

/-- What a task does with an update. -/
def Receiver.handle (r : Receiver) (u : AccountUpdate) : PipelineEvent :=
  match r with
  | .cacheUpdater => .cacheUpdate u
  | .dexArb => .dexReceive u
  | .liquidation => .liquidationReceive u

/-- The receiver a turn of the pipeline gets its update from. -/
def receiverOf : PipelineEvent → Option (Receiver × AccountUpdate)
  | .cacheUpdate u => some (.cacheUpdater, u)
  | .dexReceive u => some (.dexArb, u)
  | .liquidationReceive u => some (.liquidation, u)
  | _ => none

/-- The turns of the pipeline that a turn of the bot is. -/
def turnsOf (capacity : Nat) (cfg : PipelineConfig F) (s : BotState F) :
    BotEvent → List PipelineEvent
  | .stream _ => []
  | .recv r =>
      if ready cfg s.pipeline r then
        (BroadcastLog.read capacity s.published (s.intake r).next).2.toList.map r.handle
      else []
  | .turn event => if (receiverOf event).isNone then [event] else []

/-- A receiver after a read. -/
def Intake.read (capacity : Nat) (i : Intake) (published : List AccountUpdate) : Intake :=
  let answer := BroadcastLog.read capacity published i.next
  ⟨answer.1, i.missed + answer.2.skipped, i.got ++ answer.2.toList⟩

/-- One turn of the bot, over a broadcast channel of some capacity. -/
def botStep (capacity : Nat) (cfg : PipelineConfig F) (s : BotState F) (event : BotEvent) :
    BotState F :=
  let pipeline := MevPipeline.run cfg s.pipeline (turnsOf capacity cfg s event)
  match event with
  | .stream none => s
  | .stream (some msg) =>
      let (latestSlot, sent) := handleUpdate s.latestSlot msg
      { s with latestSlot, published := s.published ++ sent.toList }
  | .recv r =>
      if ready cfg s.pipeline r then
        { s with
          pipeline
          intake := Function.update s.intake r ((s.intake r).read capacity s.published) }
      else s
  | .turn _ => { s with pipeline }

/-- A run of the bot. -/
def botRun (capacity : Nat) (cfg : PipelineConfig F) (events : List BotEvent) : BotState F :=
  events.foldl (botStep capacity cfg) (BotState.start cfg)

/-- The messages the stream yields in a run. -/
def messagesOf (events : List BotEvent) : List (Option UpdateOneof) :=
  events.filterMap fun event =>
    match event with
    | .stream item => item
    | _ => none

/-- The updates that messages carry, in order. -/
def carried (messages : List (Option UpdateOneof)) : List AccountUpdate :=
  messages.filterMap fun msg => (handleUpdate 0 msg).2

/-- The updates a run of the pipeline gets from a receiver. -/
def updatesOf (r : Receiver) (events : List PipelineEvent) : List AccountUpdate :=
  events.filterMap fun event => ((receiverOf event).filter fun u => u.1 = r).map (·.2)

theorem botRun_concat (capacity : Nat) (cfg : PipelineConfig F) (events : List BotEvent)
    (event : BotEvent) :
    botRun capacity cfg (events ++ [event]) =
      botStep capacity cfg (botRun capacity cfg events) event := by
  rw [botRun, List.foldl_append]
  rfl

/-! ## The bot is a pipeline on what the stream carries -/

/-- The tasks of the bot have run the pipeline, on what the receivers got of what the
    messages carried. -/
structure Wired (capacity : Nat) (cfg : PipelineConfig F) (s : BotState F)
    (messages : List (Option UpdateOneof)) (turns : List PipelineEvent) : Prop where
  pipeline : s.pipeline =
    MevPipeline.run cfg (PipelineState.init cfg AccountCache.new) turns
  published : s.published = carried messages
  received : ∀ r, updatesOf r turns = (s.intake r).got
  followed : ∀ r, Followed capacity s.published (s.intake r).next
    (s.intake r).missed (s.intake r).got

theorem handleUpdate_sent (latestSlot : UInt64) (msg : Option UpdateOneof) :
    (handleUpdate latestSlot msg).2 = (handleUpdate 0 msg).2 := by
  cases msg with
  | none => rfl
  | some msg =>
      cases msg with
      | account slot account => rfl
      | slot slot => rfl
      | other => rfl

theorem updatesOf_append (r : Receiver) (xs ys : List PipelineEvent) :
    updatesOf r (xs ++ ys) = updatesOf r xs ++ updatesOf r ys :=
  List.filterMap_append

theorem updatesOf_handle (r r' : Receiver) (us : List AccountUpdate) :
    updatesOf r (us.map r'.handle) = if r = r' then us else [] := by
  have hone : ∀ u, receiverOf (r'.handle u) = some (r', u) := by
    intro u
    cases r' with
    | cacheUpdater => rfl
    | dexArb => rfl
    | liquidation => rfl
  induction us with
  | nil => exact (ite_self _).symm
  | cons u us ih =>
      rw [List.map_cons, updatesOf, List.filterMap_cons, hone, ← updatesOf, ih]
      by_cases hr : r = r'
      · subst hr
        rw [Option.filter_some_pos (by simp), if_pos rfl, if_pos rfl]
        rfl
      · rw [Option.filter_some_neg (by simpa using Ne.symm hr), if_neg hr, if_neg hr]
        rfl

theorem carried_append (xs ys : List (Option UpdateOneof)) :
    carried (xs ++ ys) = carried xs ++ carried ys :=
  List.filterMap_append

/-- What is sent leaves every receiver where it is. -/
theorem Wired.stream {capacity : Nat} {cfg : PipelineConfig F} {s : BotState F}
    {messages : List (Option UpdateOneof)} {turns : List PipelineEvent}
    (h : Wired capacity cfg s messages turns) (msg : Option UpdateOneof) :
    Wired capacity cfg (botStep capacity cfg s (.stream (some msg))) (messages ++ [msg]) turns := by
  have hsent : carried [msg] = (handleUpdate s.latestSlot msg).2.toList := by
    rw [handleUpdate_sent, carried]
    cases h : (handleUpdate 0 msg).2 with
    | none => simp [h]
    | some u => simp [h]
  refine ⟨h.pipeline, ?_, h.received, ?_⟩
  · show s.published ++ (handleUpdate s.latestSlot msg).2.toList = _
    rw [carried_append, hsent, h.published]
  · intro r
    show Followed _ (s.published ++ (handleUpdate s.latestSlot msg).2.toList) _ _ _
    cases (handleUpdate s.latestSlot msg).2 with
    | none =>
        rw [Option.toList_none, List.append_nil]
        exact h.followed r
    | some u => exact (h.followed r).send u

/-- A read is a read of the log, and what it tells is handled. -/
theorem Wired.recv {capacity : Nat} {cfg : PipelineConfig F} {s : BotState F}
    {messages : List (Option UpdateOneof)} {turns : List PipelineEvent}
    (h : Wired capacity cfg s messages turns) (r : Receiver) :
    Wired capacity cfg (botStep capacity cfg s (.recv r)) messages
      (turns ++ turnsOf capacity cfg s (.recv r)) := by
  simp only [botStep, turnsOf]
  split
  · refine ⟨?_, h.published, ?_, ?_⟩
    · rw [run_append, ← h.pipeline]
    · intro r'
      show _ = (Function.update s.intake r ((s.intake r).read capacity s.published) r').got
      rw [updatesOf_append, updatesOf_handle, h.received r']
      by_cases hr : r' = r
      · subst hr
        rw [if_pos rfl, Function.update_self]
        rfl
      · rw [if_neg hr, Function.update_of_ne hr, List.append_nil]
    · intro r'
      show let i := Function.update s.intake r ((s.intake r).read capacity s.published) r'
        Followed _ _ i.next i.missed i.got
      by_cases hr : r' = r
      · subst hr
        rw [Function.update_self]
        exact (h.followed r').read
      · rw [Function.update_of_ne hr]
        exact h.followed r'
  · rw [List.append_nil]
    exact h

/-- Any other turn is a turn of the pipeline that reads no update. -/
theorem Wired.turn {capacity : Nat} {cfg : PipelineConfig F} {s : BotState F}
    {messages : List (Option UpdateOneof)} {turns : List PipelineEvent}
    (h : Wired capacity cfg s messages turns) (event : PipelineEvent) :
    Wired capacity cfg (botStep capacity cfg s (.turn event)) messages
      (turns ++ turnsOf capacity cfg s (.turn event)) := by
  simp only [botStep, turnsOf]
  split
  · rename_i hnone
    refine ⟨?_, h.published, ?_, h.followed⟩
    · rw [run_append, ← h.pipeline]
    · intro r
      rw [updatesOf_append, h.received r, updatesOf, List.filterMap_cons,
        Option.isNone_iff_eq_none.mp hnone]
      exact List.append_nil _
  · rw [List.append_nil]
    exact h

/-- **ANY RUN OF THE BOT** runs the pipeline. -/
theorem botRun_wired (capacity : Nat) (cfg : PipelineConfig F) (events : List BotEvent) :
    ∃ turns, Wired capacity cfg (botRun capacity cfg events) (messagesOf events) turns := by
  induction events using List.reverseRecOn with
  | nil => exact ⟨[], rfl, rfl, fun _ => rfl, fun _ => Followed.start _⟩
  | append_singleton events event ih =>
      obtain ⟨turns, h⟩ := ih
      have hmessages : messagesOf (events ++ [event]) = messagesOf events ++ messagesOf [event] :=
        List.filterMap_append
      rw [botRun_concat, hmessages]
      cases event with
      | stream item =>
          cases item with
          | none => exact ⟨turns, (List.append_nil (messagesOf events)).symm ▸ h⟩
          | some msg => exact ⟨turns, h.stream msg⟩
      | recv r => exact ⟨_, (List.append_nil (messagesOf events)).symm ▸ h.recv r⟩
      | turn event => exact ⟨_, (List.append_nil (messagesOf events)).symm ▸ h.turn event⟩

/-- **EVERY RUN OF THE BOT IS A RUN OF THE PIPELINE ON WHAT THE STREAM CARRIED**: the feed
    publishes exactly the updates its messages carry, and the tasks run as in the pipeline,
    each on updates it was sent at most once and in order; what it did not get it missed
    while it lagged. -/
theorem bot_runs_pipeline (capacity : Nat) (cfg : PipelineConfig F) (events : List BotEvent) :
    let s := botRun capacity cfg events
    (∀ u, u ∈ s.published ↔ ∃ msg ∈ messagesOf events, Carries msg u) ∧
      ∃ turns, s.pipeline =
          MevPipeline.run cfg (PipelineState.init cfg AccountCache.new) turns ∧
        ∀ r, (updatesOf r turns).Sublist (s.published.take (s.intake r).next) ∧
          (updatesOf r turns).length + (s.intake r).missed = (s.intake r).next ∧
          ((s.intake r).missed = 0 →
            updatesOf r turns = s.published.take (s.intake r).next) := by
  obtain ⟨turns, h⟩ := botRun_wired capacity cfg events
  refine ⟨?_, turns, h.pipeline, ?_⟩
  · intro u
    rw [h.published, carried, List.mem_filterMap]
    exact exists_congr fun msg => and_congr_right fun _ => handleUpdate_sends_iff 0 msg u
  · intro r
    rw [h.received r]
    refine ⟨(h.followed r).sublist, (h.followed r).count, ?_⟩
    intro hmissed
    have hfollowed := h.followed r
    rw [hmissed] at hfollowed
    exact hfollowed.complete

/-! ## The slot tracker -/

/-- The slot a message shows the tracker. -/
def slotSeen : Option UpdateOneof → Option UInt64
  | some (.account slot _) => some slot
  | some (.slot slot) => some slot
  | _ => none

/-- The tracker holds the greatest slot of the messages, or zero before any. -/
structure Latest (latestSlot : UInt64) (messages : List (Option UpdateOneof)) : Prop where
  upper : ∀ msg ∈ messages, ∀ slot, slotSeen msg = some slot → slot ≤ latestSlot
  attained : latestSlot = 0 ∨ ∃ msg ∈ messages, slotSeen msg = some latestSlot

theorem handleUpdate_latest (latestSlot : UInt64) (msg : Option UpdateOneof) :
    (handleUpdate latestSlot msg).1 = (slotSeen msg).elim latestSlot (slotUpdate latestSlot) := by
  cases msg with
  | none => rfl
  | some msg =>
      cases msg with
      | account slot account => rfl
      | slot slot => rfl
      | other => rfl

theorem Latest.message {latestSlot : UInt64} {messages : List (Option UpdateOneof)}
    (h : Latest latestSlot messages) (msg : Option UpdateOneof) :
    Latest (handleUpdate latestSlot msg).1 (messages ++ [msg]) := by
  rw [handleUpdate_latest]
  cases hseen : slotSeen msg with
  | none =>
      refine ⟨?_, ?_⟩
      · intro m hm slot hslot
        rcases List.mem_append.mp hm with hm | hm
        · exact h.upper m hm slot hslot
        · rw [List.mem_singleton.mp hm, hseen] at hslot
          cases hslot
      · rcases h.attained with hzero | ⟨m, hm, hslot⟩
        · exact Or.inl hzero
        · exact Or.inr ⟨m, List.mem_append_left _ hm, hslot⟩
  | some new =>
      show Latest (max latestSlot new) _
      refine ⟨?_, ?_⟩
      · intro m hm slot hslot
        rw [UInt64.le_iff_toNat_le, max_toNat]
        rcases List.mem_append.mp hm with hm | hm
        · exact (UInt64.le_iff_toNat_le.mp (h.upper m hm slot hslot)).trans (Nat.le_max_left _ _)
        · rw [List.mem_singleton.mp hm, hseen] at hslot
          obtain rfl := Option.some.inj hslot
          exact Nat.le_max_right _ _
      · rw [show max latestSlot new = if latestSlot ≤ new then new else latestSlot from rfl]
        split
        · exact Or.inr ⟨msg, List.mem_append_right _ List.mem_cons_self, hseen⟩
        · rcases h.attained with hzero | ⟨m, hm, hslot⟩
          · exact Or.inl hzero
          · exact Or.inr ⟨m, List.mem_append_left _ hm, hslot⟩

/-- **ANY RUN OF THE BOT** tracks the latest slot. -/
theorem botRun_latest (capacity : Nat) (cfg : PipelineConfig F) (events : List BotEvent) :
    Latest (botRun capacity cfg events).latestSlot (messagesOf events) := by
  induction events using List.reverseRecOn with
  | nil => exact ⟨fun msg hmsg => absurd hmsg List.not_mem_nil, Or.inl rfl⟩
  | append_singleton events event ih =>
      have hmessages : messagesOf (events ++ [event]) = messagesOf events ++ messagesOf [event] :=
        List.filterMap_append
      rw [botRun_concat, hmessages]
      cases event with
      | stream item =>
          cases item with
          | none => exact (List.append_nil (messagesOf events)).symm ▸ ih
          | some msg => exact ih.message msg
      | recv r =>
          refine (List.append_nil (messagesOf events)).symm ▸ ?_
          simp only [botStep]
          split
          · exact ih
          · exact ih
      | turn event => exact (List.append_nil (messagesOf events)).symm ▸ ih

/-! ## The cache behind the feed -/

/-- Only a cache update writes the cache. -/
theorem step_cache (cfg : PipelineConfig F) (s : PipelineState F) (event : PipelineEvent) :
    (MevPipeline.step cfg s event).cache =
      (updatesOf .cacheUpdater [event]).foldl AccountCache.update s.cache := by
  cases event with
  | cacheUpdate update => rfl
  | dexReceive update =>
      rcases step_dexReceive_cases cfg s update with heq | ⟨-, heq⟩
      · rw [heq]
        rfl
      · rw [heq]
        rfl
  | dexProcess =>
      rcases step_dexProcess_cases cfg s with heq | ⟨update, -, heq⟩
      · rw [heq]
        rfl
      · rw [heq]
        rfl
  | liquidationReceive update =>
      rcases step_liquidationReceive_cases cfg s update with heq | ⟨-, heq⟩
      · rw [heq]
        rfl
      · rw [heq]
        rfl
  | liquidationProcess =>
      rcases step_liquidationProcess_cases cfg s with heq | ⟨update, -, heq⟩
      · rw [heq]
        rfl
      · rw [heq]
        rfl
  | execute blockhash tipIndex answer now =>
      cases hchannel : s.channel with
      | nil =>
          rw [step_execute_nil cfg s _ _ _ _ hchannel]
          rfl
      | cons opp rest =>
          rw [step_execute_cons cfg s _ _ _ _ hchannel]
          cases blockhash with
          | none => rfl
          | some blockhash =>
              simp only [executeOne]
              split
              · rfl
              · cases answer with
                | ok bundleId => rfl
                | error message => rfl
  | poll now response recordedAt =>
      rcases step_poll_cases cfg s now response recordedAt with heq | heq
      · rw [heq]
        rfl
      · rw [heq]
        rfl
  | dexCheck => rfl
  | dexSend => rfl
  | liquidationCheck => rfl
  | liquidationSend => rfl

/-- The cache of a pipeline holds what its cache updates brought. -/
theorem run_cache (cfg : PipelineConfig F) (turns : List PipelineEvent) :
    (MevPipeline.run cfg (PipelineState.init cfg AccountCache.new) turns).cache =
      cacheAfter (updatesOf .cacheUpdater turns) := by
  induction turns using List.reverseRecOn with
  | nil => rfl
  | append_singleton turns event ih =>
      rw [run_concat, updatesOf_append, step_cache, ih, cacheAfter, cacheAfter, List.foldl_append]

/-- The bot's cache holds what the cache updater has received. -/
theorem botRun_cache (capacity : Nat) (cfg : PipelineConfig F) (events : List BotEvent) :
    (botRun capacity cfg events).pipeline.cache =
      cacheAfter ((botRun capacity cfg events).intake .cacheUpdater).got := by
  obtain ⟨turns, h⟩ := botRun_wired capacity cfg events
  rw [h.pipeline, run_cache, h.received]

/-- **THE CACHE IS AUTHENTIC AND NEWEST**, in every run of the bot, also when the cache
    updater lags: an entry is, whole, the account a message of the stream carried, from no
    later slot than the tracker's, and among the updates received the newest of its key.
    An updater that has missed nothing holds the newest of all it could have read. -/
theorem cache_authentic (capacity : Nat) (cfg : PipelineConfig F) (events : List BotEvent) :
    let s := botRun capacity cfg events
    (∀ k entry, s.pipeline.cache.get k = some entry →
      (∃ u, Newest AccountUpdate.pubkey slotOf (s.intake .cacheUpdater).got k u ∧
        entry = entryOf u) ∧
      (∃ msg ∈ messagesOf events, ∃ u, Carries msg u ∧ u.pubkey = k ∧ entry = entryOf u) ∧
      entry.slot ≤ s.latestSlot) ∧
    ((s.intake .cacheUpdater).missed = 0 → ∀ k, s.pipeline.cache.get k =
      (cacheAfter (s.published.take (s.intake .cacheUpdater).next)).get k) := by
  intro s
  obtain ⟨turns, h⟩ := botRun_wired capacity cfg events
  have hfollowed := h.followed .cacheUpdater
  have hcache : s.pipeline.cache = cacheAfter (s.intake .cacheUpdater).got :=
    botRun_cache capacity cfg events
  refine ⟨?_, ?_⟩
  · intro k entry hentry
    rw [hcache] at hentry
    obtain ⟨u, hnewest, rfl⟩ := (cacheAfter_get_iff _ k entry).mp hentry
    have hmem : u ∈ s.published :=
      List.mem_of_mem_take (hfollowed.sublist.subset hnewest.mem)
    rw [show s.published = _ from h.published, carried, List.mem_filterMap] at hmem
    obtain ⟨msg, hmsg, hsent⟩ := hmem
    have hcarries := (handleUpdate_sends_iff 0 msg u).mp hsent
    refine ⟨⟨u, hnewest, rfl⟩, ⟨msg, hmsg, u, hcarries, hnewest.key_eq, rfl⟩, ?_⟩
    refine (botRun_latest capacity cfg events).upper msg hmsg u.slot ?_
    rw [hcarries]
    rfl
  · intro hmissed k
    rw [hcache]
    have hcomplete : Followed capacity s.published (s.intake .cacheUpdater).next 0
        (s.intake .cacheUpdater).got := hmissed ▸ hfollowed
    rw [hcomplete.complete]

/-! ## Catching up -/

/-- The cache updater reads so many times in a row. -/
def reading (reads : Nat) : List BotEvent := List.replicate reads (.recv .cacheUpdater)

theorem reads_next (capacity : Nat) (cfg : PipelineConfig F) (s : BotState F) (reads : Nat) :
    ((reading reads).foldl (botStep capacity cfg) s).published = s.published ∧
      (((reading reads).foldl (botStep capacity cfg) s).intake .cacheUpdater).next =
        (fun n => (BroadcastLog.read capacity s.published n).1)^[reads]
          (s.intake .cacheUpdater).next := by
  induction reads generalizing s with
  | zero => exact ⟨rfl, rfl⟩
  | succ reads ih =>
      show ((reading reads).foldl _ (botStep capacity cfg s (.recv .cacheUpdater))).published = _ ∧
        (((reading reads).foldl _
          (botStep capacity cfg s (.recv .cacheUpdater))).intake .cacheUpdater).next = _
      have hpublished : (botStep capacity cfg s (.recv .cacheUpdater)).published =
          s.published := rfl
      have hnext : ((botStep capacity cfg s (.recv .cacheUpdater)).intake .cacheUpdater).next =
          (BroadcastLog.read capacity s.published (s.intake .cacheUpdater).next).1 := by
        show (Function.update s.intake .cacheUpdater _ .cacheUpdater).next = _
        rw [Function.update_self]
        rfl
      obtain ⟨h1, h2⟩ := ih (botStep capacity cfg s (.recv .cacheUpdater))
      refine ⟨h1.trans hpublished, ?_⟩
      rw [h2, hpublished, hnext, Function.iterate_succ_apply]

/-- **THE CACHE CATCHES UP**: after any run, however far the cache updater has fallen
    behind, one read for each message still ahead of it and one more bring it to the end;
    then every account whose newest update is still retained is cached as of that update,
    and no retained update is newer than the cached entry of its account. -/
theorem cache_catches_up (capacity : Nat) (cfg : PipelineConfig F) (events : List BotEvent)
    (reads : Nat)
    (hreads : (botRun capacity cfg events).published.length < reads +
      max ((botRun capacity cfg events).intake .cacheUpdater).next
        (oldest capacity (botRun capacity cfg events).published)) :
    let s := botRun capacity cfg (events ++ reading reads)
    s.published = (botRun capacity cfg events).published ∧
      (s.intake .cacheUpdater).next = s.published.length ∧
      ∀ u ∈ s.published.drop (oldest capacity s.published),
        (∃ entry, s.pipeline.cache.get u.pubkey = some entry ∧ u.slot ≤ entry.slot) ∧
        (Newest AccountUpdate.pubkey slotOf s.published u.pubkey u →
          s.pipeline.cache.get u.pubkey = some (entryOf u)) := by
  intro s
  have hs : s = (reading reads).foldl (botStep capacity cfg) (botRun capacity cfg events) :=
    List.foldl_append
  obtain ⟨turns, h⟩ := botRun_wired capacity cfg events
  obtain ⟨turns', h'⟩ := botRun_wired capacity cfg (events ++ reading reads)
  obtain ⟨hpublished, hnext⟩ := reads_next capacity cfg (botRun capacity cfg events) reads
  rw [← hs] at hpublished hnext
  rw [reads_to_end (h.followed .cacheUpdater).next_le hreads, ← hpublished] at hnext
  refine ⟨hpublished, hnext, ?_⟩
  have hfollowed : Followed capacity s.published (s.intake .cacheUpdater).next
    (s.intake .cacheUpdater).missed (s.intake .cacheUpdater).got := h'.followed .cacheUpdater
  rw [hnext] at hfollowed
  obtain ⟨early, start, hstart, hearly, hgot⟩ := hfollowed.at_end
  have hcache : s.pipeline.cache = cacheAfter (early ++ s.published.drop start) := by
    rw [← hgot]
    exact botRun_cache capacity cfg (events ++ reading reads)
  intro u hu
  -- what is retained lies in the stretch the updater has read in full
  have hmem : u ∈ s.published.drop start := by
    rw [← Nat.add_sub_cancel' hstart, ← List.drop_drop] at hu
    exact List.mem_of_mem_drop hu
  rw [hcache]
  refine ⟨?_, ?_⟩
  · cases hget : (cacheAfter (early ++ s.published.drop start)).get u.pubkey with
    | none =>
        exact absurd rfl ((cacheAfter_get_none_iff _ _).mp hget u (List.mem_append_right _ hmem))
    | some entry =>
        obtain ⟨v, hnewest, rfl⟩ := (cacheAfter_get_iff _ _ _).mp hget
        exact ⟨_, rfl, UInt64.le_iff_toNat_le.mpr
          (hnewest.stamp_le (List.mem_append_right _ hmem) rfl)⟩
  · intro hnewest
    rw [← List.take_append_drop start s.published] at hnewest
    exact (cacheAfter_get_iff _ _ _).mpr ⟨u, hnewest.of_sublist hmem hearly, rfl⟩

/-- The message that carries an update. -/
def messageOf (u : AccountUpdate) : UpdateOneof :=
  .account u.slot (some ⟨u.pubkey.bytes.toList, u.data, u.lamports, u.owner.bytes.toList⟩)

/-- A turn that receives an update. -/
theorem botStep_recv {capacity : Nat} {cfg : PipelineConfig F} {s : BotState F}
    {r : Receiver} {u : AccountUpdate} {n : Nat} (hready : ready cfg s.pipeline r = true)
    (hread : BroadcastLog.read capacity s.published (s.intake r).next = (n, .message u)) :
    botStep capacity cfg s (.recv r) =
      { s with
        pipeline := step cfg s.pipeline (r.handle u)
        intake := Function.update s.intake r
          ⟨n, (s.intake r).missed, (s.intake r).got ++ [u]⟩ } := by
  simp only [botStep, turnsOf, hready, if_true, Intake.read, hread]
  rfl

/-- A turn of the stream that brings an update. -/
theorem botStep_stream (capacity : Nat) (cfg : PipelineConfig F)
    (s : BotState F) (u : AccountUpdate) :
    botStep capacity cfg s (.stream (some (some (messageOf u)))) =
      { s with
        latestSlot := slotUpdate s.latestSlot u.slot
        published := s.published ++ [u] } := by
  have hsent : (handleUpdate s.latestSlot (some (messageOf u))).2 = some u :=
    (handleUpdate_sends_iff _ _ u).mpr rfl
  simp only [botStep, hsent]
  rfl

open MevSubmitted MevOpportunity

/-- The first market again, from a later slot. -/
def thirdMarket : AccountUpdate := { firstMarket with slot := 3 }

/-- The stream brings three updates before anyone reads. -/
def threeMarkets : List BotEvent :=
  [firstMarket, secondMarket, thirdMarket].map fun u => .stream (some (some (messageOf u)))

theorem threeMarkets_published (capacity : Nat) :
    (botRun capacity sampleConfig threeMarkets).published =
        [firstMarket, secondMarket, thirdMarket] ∧
      ((botRun capacity sampleConfig threeMarkets).intake .cacheUpdater).next = 0 := by
  rw [botRun, threeMarkets, List.map_cons, List.map_cons, List.map_cons, List.map_nil,
    List.foldl_cons, List.foldl_cons, List.foldl_cons, List.foldl_nil,
    botStep_stream, botStep_stream, botStep_stream]
  exact ⟨rfl, rfl⟩

/-- The channel has dropped the first of them when the cache updater begins to read; after
    three reads both markets are cached as of their newest updates. -/
theorem market_catches_up :
    ((botRun 2 sampleConfig threeMarkets).intake .cacheUpdater).next <
        oldest 2 (botRun 2 sampleConfig threeMarkets).published ∧
      ∀ u ∈ [secondMarket, thirdMarket],
        (botRun 2 sampleConfig (threeMarkets ++ reading 3)).pipeline.cache.get u.pubkey =
          some (entryOf u) := by
  obtain ⟨hsent, hnext⟩ := threeMarkets_published 2
  have holdest : oldest 2 [firstMarket, secondMarket, thirdMarket] = 1 := by decide
  refine ⟨by rw [hsent, hnext, holdest]; exact Nat.one_pos, ?_⟩
  obtain ⟨hpublished, -, hcached⟩ := cache_catches_up 2 sampleConfig threeMarkets 3
    (by rw [hsent, hnext, holdest]; decide)
  rw [hsent] at hpublished
  rw [hpublished, holdest] at hcached
  have hsecond : Newest AccountUpdate.pubkey slotOf [firstMarket, secondMarket, thirdMarket]
      secondMarket.pubkey secondMarket :=
    ⟨[firstMarket], [thirdMarket], rfl, rfl, by decide, by decide⟩
  have hthird : Newest AccountUpdate.pubkey slotOf [firstMarket, secondMarket, thirdMarket]
      thirdMarket.pubkey thirdMarket :=
    ⟨[firstMarket, secondMarket], [], rfl, rfl, by decide, by decide⟩
  intro u hu
  refine (hcached u hu).2 ?_
  rcases List.mem_cons.mp hu with rfl | hu
  · exact hsecond
  · rw [List.mem_singleton.mp hu]
    exact hthird

end MevFeed
