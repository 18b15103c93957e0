import Mathlib.Data.List.Induction
import MevBot.Library.TicketQueue
import MevBot.StatusTracker

/-! # The laws of the status tracker

    Two laws of `BundleStatusTracker`.

    * **Conservation** (`tracker_accounted`): over any run, a tracked bundle is
      pending, reported or evicted, and only once.  The eviction is the price of
      the bounded queue; it strikes the oldest bundle of a full queue.
    * **Verdicts** (`poll_verdicts_iff`): `poll` tests the age of a bundle before
      it reads the response, so a bundle that landed but was polled late is
      reported as a timeout.  A poll is right exactly when it meets no such
      bundle. -/

namespace MevTrackerLaws

open MevTypes MevTracker TicketQueue

/-! ## One poll -/

/-- The drain loop, as the two lists it splits the queue into. -/
theorem drain_eq (timeout now : Nat) (statuses : Json) (bs : List PendingBundle) :
    drain timeout now statuses bs =
      (bs.filterMap (resolve timeout now statuses),
        bs.filter fun b => (resolve timeout now statuses b).isNone) := by
  induction bs with
  | nil => rfl
  | cons b bs ih =>
      rw [drain, ih]
      cases hb : resolve timeout now statuses b with
      | none =>
          rw [List.filterMap_cons_none hb, List.filter_cons_of_pos (by rw [hb]; rfl)]
      | some o =>
          rw [List.filterMap_cons_some hb,
            List.filter_cons_of_neg (by rw [hb]; exact Bool.false_ne_true)]

theorem poll_ok (t : BundleStatusTracker) (now : Nat) (statuses : Json) :
    t.poll now (.ok statuses) =
      ({ t with pending :=
          t.pending.filter fun b => (resolve t.timeout now statuses b).isNone },
        t.pending.filterMap (resolve t.timeout now statuses)) := by
  rw [BundleStatusTracker.poll]
  by_cases hempty : t.pending.isEmpty = true
  · rw [if_pos hempty]
    obtain ⟨pending, maxPending, timeout⟩ := t
    obtain rfl := List.isEmpty_iff.mp hempty
    rfl
  · rw [if_neg hempty]
    show ({ t with pending := (drain _ _ _ _).2 }, (drain _ _ _ _).1) = _
    rw [drain_eq]

theorem poll_error (t : BundleStatusTracker) (now : Nat) (message : String) :
    t.poll now (.error message) = (t, []) := by
  rw [BundleStatusTracker.poll]
  split
  · rfl
  · rfl

/-! ## Runs -/

/-- One call of the tracker. -/
inductive TrackerOp where
  | track (bundleId strategy : String) (expectedProfitLamports : Int64) (tipLamports : UInt64)
      (now : Nat)
  | poll (now : Nat) (response : Except String Json)

/-- The tracker after a call, and all outcomes returned so far. -/
def stepTracker (s : BundleStatusTracker × List BundleOutcome) :
    TrackerOp → BundleStatusTracker × List BundleOutcome
  | .track bundleId strategy profit tip now => (s.1.track bundleId strategy profit tip now, s.2)
  | .poll now response => ((s.1.poll now response).1, s.2 ++ (s.1.poll now response).2)

/-- A run from a new tracker. -/
def runTracker (maxPending timeoutSecs : Nat) (ops : List TrackerOp) :
    BundleStatusTracker × List BundleOutcome :=
  ops.foldl stepTracker (BundleStatusTracker.new maxPending timeoutSecs, [])

/-- The bundle a call puts in the queue. -/
def TrackerOp.tracked : TrackerOp → Option PendingBundle
  | .track bundleId strategy profit tip now => some ⟨bundleId, strategy, profit, tip, now⟩
  | .poll _ _ => none

/-- The bundles passed to `track`, in order. -/
def trackedBundles (ops : List TrackerOp) : List PendingBundle := ops.filterMap TrackerOp.tracked

/-- The same call on the books of the queue. -/
def stepBooks (maxPending timeout : Nat) (t : Books PendingBundle BundleOutcome) :
    TrackerOp → Books PendingBundle BundleOutcome
  | .track bundleId strategy profit tip now =>
      t.enqueue maxPending ⟨bundleId, strategy, profit, tip, now⟩
  | .poll now (.ok statuses) => t.sweep (resolve timeout now statuses)
  | .poll _ (.error _) => t

/-- The books of a run: every bundle with the number of its `track` call. -/
def booksOf (maxPending timeoutSecs : Nat) (ops : List TrackerOp) :
    Books PendingBundle BundleOutcome :=
  ops.foldl (stepBooks maxPending (timeoutSecs * 1000000000)) Books.empty

theorem runTracker_concat (maxPending timeoutSecs : Nat) (ops : List TrackerOp) (op : TrackerOp) :
    runTracker maxPending timeoutSecs (ops ++ [op]) =
      stepTracker (runTracker maxPending timeoutSecs ops) op := by
  rw [runTracker, List.foldl_append]
  rfl

theorem booksOf_concat (maxPending timeoutSecs : Nat) (ops : List TrackerOp) (op : TrackerOp) :
    booksOf maxPending timeoutSecs (ops ++ [op]) =
      stepBooks maxPending (timeoutSecs * 1000000000) (booksOf maxPending timeoutSecs ops) op := by
  rw [booksOf, List.foldl_append]
  rfl

/-! ## The books mirror the tracker -/

/-- The books without their tickets are the tracker and its outcomes. -/
structure Mirrors (maxPending timeout : Nat) (books : Books PendingBundle BundleOutcome)
    (s : BundleStatusTracker × List BundleOutcome) : Prop where
  pending : books.waiting.map (·.2) = s.1.pending
  outcomes : books.resolved.map (·.2) = s.2
  capacity : s.1.maxPending = maxPending
  timeout : s.1.timeout = timeout

theorem Mirrors.track {maxPending timeout : Nat} {books : Books PendingBundle BundleOutcome}
    {s : BundleStatusTracker × List BundleOutcome} (h : Mirrors maxPending timeout books s)
    (b : PendingBundle) :
    Mirrors maxPending timeout (books.enqueue maxPending b)
      (s.1.track b.bundleId b.strategy b.expectedProfitLamports b.tipLamports b.submittedAt,
        s.2) := by
  refine ⟨?_, h.outcomes, h.capacity, h.timeout⟩
  have hlen : books.waiting.length = s.1.pending.length := by
    rw [← h.pending, List.length_map]
  show (kept maxPending books.waiting ++ [(books.issued.length, b)]).map (·.2) =
    (if s.1.pending.length ≥ s.1.maxPending then s.1.pending.tail else s.1.pending) ++ [b]
  rw [List.map_append, kept, hlen, h.capacity, ← h.pending]
  -- a full queue drops its head before the new bundle is pushed
  split
  · rw [List.map_tail]
    rfl
  · rfl

theorem Mirrors.poll {maxPending timeout : Nat} {books : Books PendingBundle BundleOutcome}
    {s : BundleStatusTracker × List BundleOutcome} (h : Mirrors maxPending timeout books s)
    (now : Nat) (statuses : Json) :
    Mirrors maxPending timeout (books.sweep (resolve timeout now statuses))
      ((s.1.poll now (.ok statuses)).1, s.2 ++ (s.1.poll now (.ok statuses)).2) := by
  rw [poll_ok, h.timeout]
  refine ⟨?_, ?_, h.capacity, rfl⟩
  · show (books.waiting.filter fun w => (resolve timeout now statuses w.2).isNone).map (·.2) =
      s.1.pending.filter fun b => (resolve timeout now statuses b).isNone
    rw [← h.pending, List.filter_map]
    rfl
  · show (books.resolved ++ books.waiting.filterMap
      fun w => (resolve timeout now statuses w.2).map (w.1, ·)).map (·.2) =
        s.2 ++ s.1.pending.filterMap (resolve timeout now statuses)
    rw [List.map_append, h.outcomes, ← h.pending, List.map_filterMap, List.filterMap_map]
    congr 2
    funext w
    rw [Option.map_map]
    exact Option.map_id'

theorem mirrors_run (maxPending timeoutSecs : Nat) (ops : List TrackerOp) :
    Mirrors maxPending (timeoutSecs * 1000000000) (booksOf maxPending timeoutSecs ops)
      (runTracker maxPending timeoutSecs ops) := by
  induction ops using List.reverseRecOn with
  | nil => exact ⟨rfl, rfl, rfl, rfl⟩
  | append_singleton ops op ih =>
      rw [runTracker_concat, booksOf_concat]
      cases op with
      | track bundleId strategy profit tip now =>
          exact ih.track ⟨bundleId, strategy, profit, tip, now⟩
      | poll now response =>
          cases response with
          | ok statuses => exact ih.poll now statuses
          | error message =>
              show Mirrors _ _ _ ((BundleStatusTracker.poll _ _ _).1, _ ++ _)
              rw [poll_error, List.append_nil]
              exact ih

theorem issued_run (maxPending timeoutSecs : Nat) (ops : List TrackerOp) :
    (booksOf maxPending timeoutSecs ops).issued = trackedBundles ops := by
  induction ops using List.reverseRecOn with
  | nil => rfl
  | append_singleton ops op ih =>
      rw [booksOf_concat, trackedBundles, List.filterMap_append]
      cases op with
      | track bundleId strategy profit tip now =>
          show _ ++ [_] = _
          rw [ih]
          rfl
      | poll now response =>
          show _ = trackedBundles ops ++ []
          rw [List.append_nil, ← ih]
          cases response with
          | ok statuses => rfl
          | error message => rfl

/-! ## Conservation -/

/-- A final outcome that names the bundle. -/
def Reports (b : PendingBundle) (o : BundleOutcome) : Prop :=
  o = .landed b.bundleId b.strategy b.expectedProfitLamports b.tipLamports ∨
    ∃ reason, o = .failed b.bundleId b.strategy reason

theorem resolve_reports {timeout now : Nat} {statuses : Json} {b : PendingBundle}
    {o : BundleOutcome} (h : resolve timeout now statuses b = some o) : Reports b o := by
  unfold resolve verdict at h
  split at h
  · exact Or.inr ⟨"timeout", (Option.some.inj h).symm⟩
  · split at h
    · split at h
      · exact Or.inl (Option.some.inj h).symm
      · split at h
        · exact Or.inr ⟨_, (Option.some.inj h).symm⟩
        · cases h
    · cases h

theorem accounted_run (maxPending timeoutSecs : Nat) (ops : List TrackerOp) :
    Accounted Reports (booksOf maxPending timeoutSecs ops) := by
  refine List.foldlRecOn ops _ (Accounted.empty Reports) ?_
  intro books hbooks op _
  cases op with
  | track bundleId strategy profit tip now => exact hbooks.enqueue maxPending _
  | poll now response =>
      cases response with
      | ok statuses => exact hbooks.sweep _ fun b o h => resolve_reports h
      | error message => exact hbooks

/-- An evicted bundle was the oldest of a full queue when a `track` call came. -/
theorem evicted_oldest (maxPending timeoutSecs : Nat) (ops : List TrackerOp) (i : Nat)
    (hi : i ∈ (booksOf maxPending timeoutSecs ops).evicted) :
    ∃ pre op post, ops = pre ++ op :: post ∧ op.tracked.isSome ∧
      (runTracker maxPending timeoutSecs pre).1.pending.length ≥ maxPending ∧
      (booksOf maxPending timeoutSecs pre).waiting.head?.map (·.1) = some i := by
  induction ops using List.reverseRecOn with
  | nil => exact absurd hi List.not_mem_nil
  | append_singleton ops op ih =>
      -- an earlier eviction, with one more call after it
      have hold : i ∈ (booksOf maxPending timeoutSecs ops).evicted →
          ∃ pre op' post, ops ++ [op] = pre ++ op' :: post ∧ op'.tracked.isSome ∧
            (runTracker maxPending timeoutSecs pre).1.pending.length ≥ maxPending ∧
            (booksOf maxPending timeoutSecs pre).waiting.head?.map (·.1) = some i := by
        intro hmem
        obtain ⟨pre, op', post, rfl, h⟩ := ih hmem
        exact ⟨pre, op', post ++ [op], by simp, h⟩
      rw [booksOf_concat] at hi
      cases op with
      | track bundleId strategy profit tip now =>
          rcases List.mem_append.mp hi with hi | hi
          · exact hold hi
          · refine ⟨ops, _, [], rfl, rfl, ?_⟩
            rw [dropped] at hi
            split at hi
            · rename_i hfull
              rw [← (mirrors_run maxPending timeoutSecs ops).pending, List.length_map]
              exact ⟨hfull, Option.mem_toList.mp hi⟩
            · exact absurd hi List.not_mem_nil
      | poll now response =>
          cases response with
          | ok statuses => exact hold hi
          | error message => exact hold hi

/-- No `track` call of the run meets a full queue. -/
def NeverFull (maxPending timeoutSecs : Nat) (ops : List TrackerOp) : Prop :=
  ∀ pre op post, ops = pre ++ op :: post → op.tracked.isSome →
    (runTracker maxPending timeoutSecs pre).1.pending.length < maxPending

/-- What the books say about a run: each tracked bundle is once in one place. -/
structure Conserved (maxPending timeoutSecs : Nat) (ops : List TrackerOp)
    (books : Books PendingBundle BundleOutcome) : Prop where
  /-- The pending queue of the code, oldest first, bundle by bundle. -/
  pending : books.waiting.map (·.2) = (runTracker maxPending timeoutSecs ops).1.pending
  oldestFirst : (books.waiting.map (·.1)).Pairwise (· < ·)
  waiting : ∀ w ∈ books.waiting, (trackedBundles ops)[w.1]? = some w.2
  /-- All outcomes the polls of the run returned, in order. -/
  outcomes : books.resolved.map (·.2) = (runTracker maxPending timeoutSecs ops).2
  reported : ∀ r ∈ books.resolved, ∃ b, (trackedBundles ops)[r.1]? = some b ∧ Reports b r.2
  /-- Evictions strike the oldest bundle of a full queue. -/
  evicted : ∀ i ∈ books.evicted, ∃ pre op post, ops = pre ++ op :: post ∧ op.tracked.isSome ∧
    (runTracker maxPending timeoutSecs pre).1.pending.length ≥ maxPending ∧
    (booksOf maxPending timeoutSecs pre).waiting.head?.map (·.1) = some i
  once : ∀ i < (trackedBundles ops).length, books.places i = 1
  /-- Without a full queue nothing is evicted. -/
  lossless : NeverFull maxPending timeoutSecs ops → books.evicted = []

/-- **CONSERVATION**: over any run every tracked bundle is pending once, reported
    once or evicted once as the oldest of a full queue, and nothing else. -/
theorem tracker_accounted (maxPending timeoutSecs : Nat) (ops : List TrackerOp) :
    Conserved maxPending timeoutSecs ops (booksOf maxPending timeoutSecs ops) := by
  have hmirror := mirrors_run maxPending timeoutSecs ops
  have hbooks := accounted_run maxPending timeoutSecs ops
  have hissued := issued_run maxPending timeoutSecs ops
  refine ⟨hmirror.pending, hbooks.oldestFirst, ?_, hmirror.outcomes, ?_,
    evicted_oldest maxPending timeoutSecs ops, ?_, ?_⟩
  · rw [← hissued]
    exact hbooks.items
  · rw [← hissued]
    exact hbooks.verdicts
  · intro i hi
    rw [← hissued] at hi
    rw [hbooks.once, if_pos hi]
  · intro hfull
    refine List.eq_nil_iff_forall_not_mem.mpr ?_
    intro i hi
    obtain ⟨pre, op, post, hsplit, htrack, hlen, -⟩ :=
      evicted_oldest maxPending timeoutSecs ops i hi
    exact Nat.not_le_of_lt (hfull pre op post hsplit htrack) hlen

/-- Two bundles tracked with room for one: the first is neither pending nor ever
    reported. -/
theorem tracked_bundle_lost :
    let s := runTracker 1 30 [.track "a" "dex_arb" 5 1 0, .track "b" "dex_arb" 5 1 0]
    s.1.pending.map (·.bundleId) = ["b"] ∧ s.2 = [] := by
  decide

/-! ## Verdicts -/

/-- The response lists the bundle as confirmed or finalized. -/
def listedLanded (statuses : Json) (b : PendingBundle) : Bool :=
  (statusEntry statuses b.bundleId).any fun s =>
    decide (confirmation s = "confirmed" ∨ confirmation s = "finalized")

/-- The response lists the bundle as failed or rejected. -/
def listedFailed (statuses : Json) (b : PendingBundle) : Bool :=
  (statusEntry statuses b.bundleId).any fun s =>
    decide (confirmation s = "failed" ∨ confirmation s = "rejected")

/-- The report a bundle should get: landed when listed so, failed when listed so
    or when too old without a definite status, none otherwise. -/
def RightReport (timeout now : Nat) (statuses : Json) (b : PendingBundle)
    (report : Option BundleOutcome) : Prop :=
  if listedLanded statuses b then
    report = some (.landed b.bundleId b.strategy b.expectedProfitLamports b.tipLamports)
  else if listedFailed statuses b || b.timedOut timeout now then
    ∃ reason, report = some (.failed b.bundleId b.strategy reason)
  else report = none

/-- A poll that gives every pending bundle the right report, in order. -/
def RightPoll (t : BundleStatusTracker) (now : Nat) (statuses : Json)
    (result : BundleStatusTracker × List BundleOutcome) : Prop :=
  ∃ report : PendingBundle → Option BundleOutcome,
    (∀ b ∈ t.pending, RightReport t.timeout now statuses b (report b)) ∧
      result.2 = t.pending.filterMap report ∧
      result.1 = { t with pending := t.pending.filter fun b => (report b).isNone }

/-- The verdict of the response alone. -/
theorem verdict_cases (statuses : Json) (b : PendingBundle) :
    (listedLanded statuses b = true ∧ verdict statuses b =
        some (.landed b.bundleId b.strategy b.expectedProfitLamports b.tipLamports)) ∨
      (listedLanded statuses b = false ∧ listedFailed statuses b = true ∧
        ∃ reason, verdict statuses b = some (.failed b.bundleId b.strategy reason)) ∨
      (listedLanded statuses b = false ∧ listedFailed statuses b = false ∧
        verdict statuses b = none) := by
  unfold listedLanded listedFailed verdict
  cases statusEntry statuses b.bundleId with
  | none => exact Or.inr (Or.inr ⟨rfl, rfl, rfl⟩)
  | some s =>
      by_cases hl : confirmation s = "confirmed" ∨ confirmation s = "finalized"
      · exact Or.inl ⟨decide_eq_true hl, if_pos hl⟩
      · by_cases hf : confirmation s = "failed" ∨ confirmation s = "rejected"
        · refine Or.inr (Or.inl ⟨decide_eq_false hl, decide_eq_true hf,
            ((s.index "err").asStr).getD "unknown", ?_⟩)
          show (if _ then _ else _) = _
          rw [if_neg hl, if_pos hf]
        · refine Or.inr (Or.inr ⟨decide_eq_false hl, decide_eq_false hf, ?_⟩)
          show (if _ then _ else _) = _
          rw [if_neg hl, if_neg hf]

/-- The code's report is right unless the bundle is both landed and too old. -/
theorem resolve_right {timeout now : Nat} {statuses : Json} {b : PendingBundle}
    (h : ¬(b.timedOut timeout now = true ∧ listedLanded statuses b = true)) :
    RightReport timeout now statuses b (resolve timeout now statuses b) := by
  unfold RightReport resolve
  -- the code looks at the age first; only then does the response count
  by_cases hold : b.timedOut timeout now = true
  · have hnot : ¬listedLanded statuses b = true := fun hl => h ⟨hold, hl⟩
    rw [if_neg hnot, if_pos hold, if_pos (by rw [hold, Bool.or_true])]
    exact ⟨"timeout", rfl⟩
  · rw [if_neg hold, Bool.eq_false_iff.mpr hold, Bool.or_false]
    rcases verdict_cases statuses b with ⟨hl, hv⟩ | ⟨hl, hf, hv⟩ | ⟨hl, hf, hv⟩
    · rw [if_pos hl]
      exact hv
    · rw [if_neg (by rw [hl]; exact Bool.false_ne_true), if_pos hf]
      exact hv
    · rw [if_neg (by rw [hl]; exact Bool.false_ne_true),
        if_neg (by rw [hf]; exact Bool.false_ne_true)]
      exact hv

/-- `Landed` outcomes. -/
def isLanded : BundleOutcome → Bool
  | .landed _ _ _ _ => true
  | _ => false

/-- A right report is a `Landed` one exactly for a bundle listed as landed. -/
theorem RightReport.isLanded_iff {timeout now : Nat} {statuses : Json} {b : PendingBundle}
    {report : Option BundleOutcome} (h : RightReport timeout now statuses b report) :
    (report.map isLanded).getD false = listedLanded statuses b := by
  rw [RightReport] at h
  split at h
  · rename_i hl
    rw [h, hl]
    rfl
  · rename_i hl
    rw [Bool.eq_false_iff.mpr hl]
    split at h
    · obtain ⟨reason, h⟩ := h
      rw [h]
      rfl
    · rw [h]
      rfl

/-- The code's report is a `Landed` one for the bundles listed as landed in time. -/
theorem resolve_isLanded (timeout now : Nat) (statuses : Json) (b : PendingBundle) :
    ((resolve timeout now statuses b).map isLanded).getD false =
      (!b.timedOut timeout now && listedLanded statuses b) := by
  by_cases hold : b.timedOut timeout now = true
  · rw [resolve, if_pos hold, hold]
    rfl
  · rw [(resolve_right fun h => hold h.1).isLanded_iff, Bool.eq_false_iff.mpr hold]
    rfl

/-- **POLLS ARE RIGHT EXACTLY WITHOUT A LATE LANDING**: a successful poll reports
    every pending bundle rightly if and only if no pending bundle is at once
    older than the timeout and listed as confirmed or finalized. -/
theorem poll_verdicts_iff (t : BundleStatusTracker) (now : Nat) (statuses : Json) :
    RightPoll t now statuses (t.poll now (.ok statuses)) ↔
      ∀ b ∈ t.pending, ¬(b.timedOut t.timeout now = true ∧ listedLanded statuses b = true) := by
  rw [poll_ok]
  constructor
  · rintro ⟨report, hright, hout, -⟩ b hb ⟨hold, hlanded⟩
    replace hout : t.pending.filterMap (resolve t.timeout now statuses) =
      t.pending.filterMap report := hout
    -- count the `Landed` outcomes both ways
    have hcount := congrArg (List.countP isLanded) hout
    rw [List.countP_filterMap, List.countP_filterMap] at hcount
    have hcode : t.pending.countP
          (fun b => ((resolve t.timeout now statuses b).map isLanded).getD false) =
        t.pending.countP fun b => !b.timedOut t.timeout now && listedLanded statuses b :=
      List.countP_congr fun b _ => by rw [resolve_isLanded]
    have hspec : t.pending.countP (fun b => ((report b).map isLanded).getD false) =
        t.pending.countP fun b => listedLanded statuses b :=
      List.countP_congr fun b hb => by rw [(hright b hb).isLanded_iff]
    rw [hcode, hspec, List.countP_eq_length_filter, List.countP_eq_length_filter,
      ← List.filter_filter] at hcount
    have hmem := (List.mem_filter (p := fun b => listedLanded statuses b)).mpr ⟨hb, hlanded⟩
    rw [← List.filter_sublist.eq_of_length hcount] at hmem
    have hyoung := (List.mem_filter.mp hmem).2
    rw [hold] at hyoung
    cases hyoung
  · intro h
    exact ⟨resolve t.timeout now statuses, fun b hb => resolve_right (h b hb), rfl, rfl⟩

/-- One bundle, confirmed, polled 31 s after its submission. -/
def lateTracker : BundleStatusTracker := ⟨[⟨"a", "dex_arb", 5, 1, 0⟩], 64, 30000000000⟩

/-- A response that lists the bundle as confirmed. -/
def confirmedResponse : Json :=
  .obj [("result", .obj [("value",
    .arr [.obj [("bundle_id", .str "a"), ("confirmation_status", .str "confirmed")]])])]

/-- **A LATE LANDING IS BOOKED AS A TIMEOUT.** -/
theorem late_landing_fails :
    (lateTracker.poll 31000000000 (.ok confirmedResponse)).2 = [.failed "a" "dex_arb" "timeout"] ∧
      ¬RightPoll lateTracker 31000000000 confirmedResponse
        (lateTracker.poll 31000000000 (.ok confirmedResponse)) := by
  have hout : (lateTracker.poll 31000000000 (.ok confirmedResponse)).2 =
      [.failed "a" "dex_arb" "timeout"] := by decide
  refine ⟨hout, ?_⟩
  rintro ⟨report, hright, hreports, -⟩
  have hb := hright ⟨"a", "dex_arb", 5, 1, 0⟩ List.mem_cons_self
  rw [RightReport, if_pos (by decide)] at hb
  rw [hout] at hreports
  change _ = List.filterMap report [⟨"a", "dex_arb", 5, 1, 0⟩] at hreports
  rw [List.filterMap_cons_some hb] at hreports
  cases hreports

end MevTrackerLaws
