import MevBot.BundleAccounts

/-! # How long a bundle is pending

    A poll that gets an answer gives up every bundle that is over age, whatever
    the answer says of it.  So after any such poll no pending bundle is older
    than the timeout, and each older one that was ever tracked has been reported
    or evicted, once (`bundles_settle`). -/

namespace MevDeadlines

open MevMachine MevTypes MevCache MevRisk MevTracker MevTrackerLaws MevPipeline MevLedger
open MevAccounts TicketQueue

/-- What an answered poll leaves pending is not over age. -/
theorem poll_fresh {t : BundleStatusTracker} {now : Nat} {statuses : Json} {b : PendingBundle}
    (hb : b ∈ (t.poll now (.ok statuses)).1.pending) : now - b.submittedAt ≤ t.timeout := by
  rw [poll_ok] at hb
  have hnone := (List.mem_filter.mp hb).2
  by_contra hlate
  have hold : b.timedOut t.timeout now = true := decide_eq_true (Nat.lt_of_not_le hlate)
  rw [resolve, if_pos hold] at hnone
  cases hnone

variable {F : Type} [F64 F]

/-- The tracker of a run keeps the timeout `main` gave it. -/
theorem run_timeout (cfg : PipelineConfig F) (cache : AccountCache)
    (events : List PipelineEvent) :
    (run cfg (PipelineState.init cfg cache) events).tracker.timeout = 30000000000 := by
  have hmirror := MevTrackerLaws.mirrors_run 64 30
    ((callsOf cfg cache events).map (·.2))
  rw [(reconciled_run cfg cache events).tracker] at hmirror
  exact hmirror.timeout

/-- After an answered poll nothing that is pending is over age. -/
theorem pending_fresh (cfg : PipelineConfig F) (cache : AccountCache)
    (events : List PipelineEvent) (now : Nat) (statuses : Json) (recordedAt : Nat → Nat) :
    ∀ b ∈ (run cfg (PipelineState.init cfg cache)
      (events ++ [.poll now (.ok statuses) recordedAt])).tracker.pending,
      now - b.submittedAt ≤ 30000000000 := by
  intro b hb
  rw [run_concat] at hb
  rw [← run_timeout cfg cache events]
  simp only [step] at hb
  split at hb
  · exact poll_fresh hb
  -- no poll without a pending bundle
  · rename_i hnone
    rw [Nat.not_lt, Nat.le_zero, BundleStatusTracker.pendingCount, List.length_eq_zero_iff]
      at hnone
    rw [hnone] at hb
    exact absurd hb List.not_mem_nil

/-- Calls only add to the tracked bundles. -/
theorem trackedOf_concat (cfg : PipelineConfig F) (cache : AccountCache)
    (events : List PipelineEvent) (event : PipelineEvent) :
    trackedOf (callsOf cfg cache (events ++ [event])) =
      trackedOf (callsOf cfg cache events) ++
        trackedOf (trackerCall cfg (run cfg (PipelineState.init cfg cache) events) event) := by
  rw [callsOf, collect_concat, trackedOf, List.filterMap_append]
  rfl

/-- **EVERY BUNDLE IS SETTLED IN TIME**: in every interleaving, once a poll is answered at a
    clock more than 30 s past the submission of a tracked bundle, that bundle is no longer
    pending, and it is reported once or evicted once, whatever the answer was. -/
theorem bundles_settle (cfg : PipelineConfig F) (cache : AccountCache)
    (events : List PipelineEvent) (now : Nat) (statuses : Json) (recordedAt : Nat → Nat)
    (ticket : Nat) (x : Nat × PendingBundle)
    (hx : (trackedOf (callsOf cfg cache events))[ticket]? = some x)
    (hlate : 30000000000 < now - x.2.submittedAt) :
    let calls := callsOf cfg cache (events ++ [.poll now (.ok statuses) recordedAt])
    (booksOfCalls calls).waiting.map (·.2) =
        (run cfg (PipelineState.init cfg cache)
          (events ++ [.poll now (.ok statuses) recordedAt])).tracker.pending ∧
      ticket ∉ (booksOfCalls calls).waiting.map (·.1) ∧
      ((booksOfCalls calls).resolved.map (·.1)).count ticket +
        (booksOfCalls calls).evicted.count ticket = 1 := by
  intro calls
  have hmirror := MevTrackerLaws.mirrors_run 64 30 (calls.map (·.2))
  rw [(reconciled_run cfg cache _).tracker] at hmirror
  have hissued : (booksOfCalls calls).issued[ticket]? = some x.2 := by
    rw [issued_calls, List.getElem?_map]
    have hstill : (trackedOf calls)[ticket]? = some x := by
      rw [show calls = callsOf cfg cache _ from rfl, trackedOf_concat]
      exact (List.getElem?_append_left (List.getElem?_eq_some_iff.mp hx).1).trans hx
    rw [hstill]
    rfl
  have hgone : ticket ∉ (booksOfCalls calls).waiting.map (·.1) := by
    intro hmem
    obtain ⟨w, hw, rfl⟩ := List.mem_map.mp hmem
    have hitem := (accounted_calls calls).items w hw
    rw [hissued] at hitem
    have hpending : w.2 ∈ (run cfg (PipelineState.init cfg cache)
        (events ++ [.poll now (.ok statuses) recordedAt])).tracker.pending := by
      rw [← hmirror.pending]
      exact List.mem_map_of_mem hw
    have hfresh := pending_fresh cfg cache events now statuses recordedAt w.2 hpending
    rw [← Option.some.inj hitem] at hfresh
    omega
  refine ⟨hmirror.pending, hgone, ?_⟩
  have honce := (accounted_calls calls).once ticket
  rw [if_pos (List.getElem?_eq_some_iff.mp hissued).1, Books.places,
    List.count_eq_zero_of_not_mem hgone, Nat.zero_add] at honce
  exact honce

/-! ## A bundle nobody hears of -/

section Sample

/-- The one bundle of the sample submission. -/
theorem submission_tracked :
    ∃ x : Nat × PendingBundle, (trackedOf (callsOf (liquidationConfig 1000000000)
      AccountCache.new (submission obligationUpdate (.ok "a"))))[0]? = some x ∧
        x.2.submittedAt = 0 := by
  have henabled : (liquidationConfig 1000000000).liquidationEnabled = true := rfl
  have hchannel := congrArg PipelineState.channel (enqueue_run henabled obligationUpdate_found
    (liquidationConfig_accepts _) (ready_init 1000000000))
  have hwet : (liquidationConfig 1000000000).dryRun = false := rfl
  rw [submission, trackedOf_concat]
  simp only [trackerCall, hwet, hchannel, Bool.false_eq_true, if_false]
  exact ⟨_, rfl, rfl⟩

/-- Thirty-one seconds later it is settled, though the answer does not mention it. -/
theorem submission_settled :
    let calls := callsOf (liquidationConfig 1000000000) AccountCache.new
      (submission obligationUpdate (.ok "a") ++ [.poll 31000000000 (.ok .null) fun _ => 0])
    0 ∉ (booksOfCalls calls).waiting.map (·.1) ∧
      ((booksOfCalls calls).resolved.map (·.1)).count 0 + (booksOfCalls calls).evicted.count 0 =
        1 := by
  obtain ⟨x, hx, hsubmitted⟩ := submission_tracked
  exact (bundles_settle (liquidationConfig 1000000000) AccountCache.new
    (submission obligationUpdate (.ok "a")) 31000000000 .null (fun _ => 0) 0 x hx
    (by rw [hsubmitted]; decide)).2

end Sample

end MevDeadlines
