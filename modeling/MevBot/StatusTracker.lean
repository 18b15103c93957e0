import MevBot.Types

/-! # The bundle status tracker

    `BundleStatusTracker` keeps submitted bundles in a queue and polls the
    block engine for all of them at once.  Clock readings are nanoseconds; the
    response is an arbitrary JSON document. -/

namespace MevTracker

open MevTypes

/-! ## JSON responses -/

/-- `serde_json::Value`. -/
inductive Json where
  | null
  | bool (b : Bool)
  | num (text : String)
  | str (s : String)
  | arr (xs : List Json)
  | obj (fields : List (String × Json))

/-- `value[key]`: null when the value is no object or lacks the key. -/
def Json.index : Json → String → Json
  | .obj fields, key => (fields.lookup key).getD .null
  | _, _ => .null

/-- `Value::as_array`. -/
def Json.asArray : Json → Option (List Json)
  | .arr xs => some xs
  | _ => none

/-- `Value::as_str`. -/
def Json.asStr : Json → Option String
  | .str s => some s
  | _ => none

/-! ## The queue -/

structure PendingBundle where
  bundleId : String
  strategy : String
  expectedProfitLamports : Int64
  tipLamports : UInt64
  submittedAt : Nat
deriving DecidableEq, Repr

structure BundleStatusTracker where
  pending : List PendingBundle
  maxPending : Nat
  timeout : Nat
deriving DecidableEq, Repr

/-- Result of checking bundle status. -/
inductive BundleOutcome where
  | landed (bundleId strategy : String) (profitLamports : Int64) (tipLamports : UInt64)
  | failed (bundleId strategy reason : String)
  | pending
deriving DecidableEq, Repr

/-- `BundleStatusTracker::new`. -/
def BundleStatusTracker.new (maxPending timeoutSecs : Nat) : BundleStatusTracker :=
  ⟨[], maxPending, timeoutSecs * 1000000000⟩

/-- `BundleStatusTracker::track`: evicts the oldest bundle at capacity. -/
def BundleStatusTracker.track (t : BundleStatusTracker) (bundleId strategy : String)
    (expectedProfitLamports : Int64) (tipLamports : UInt64) (now : Nat) : BundleStatusTracker :=
  let kept := if t.pending.length ≥ t.maxPending then t.pending.tail else t.pending
  { t with pending := kept ++
      [{ bundleId, strategy, expectedProfitLamports, tipLamports, submittedAt := now }] }

/-- The entry of the response that names the bundle: the first one. -/
def statusEntry (statuses : Json) (bundleId : String) : Option Json := do
  let arr ← ((statuses.index "result").index "value").asArray
  arr.find? fun s => decide ((s.index "bundle_id").asStr = some bundleId)

/-- The confirmation text of an entry. -/
def confirmation (entry : Json) : String :=
  ((entry.index "confirmation_status").asStr).getD ""

/-- Older than the timeout; `duration_since` is zero for a future submission. -/
def PendingBundle.timedOut (b : PendingBundle) (timeout now : Nat) : Bool :=
  decide (now - b.submittedAt > timeout)

/-- The verdict the response gives for a bundle, if it is definite. -/
def verdict (statuses : Json) (b : PendingBundle) : Option BundleOutcome :=
  match statusEntry statuses b.bundleId with
  | some s =>
      if confirmation s = "confirmed" ∨ confirmation s = "finalized" then
        some (.landed b.bundleId b.strategy b.expectedProfitLamports b.tipLamports)
      else if confirmation s = "failed" ∨ confirmation s = "rejected" then
        some (.failed b.bundleId b.strategy (((s.index "err").asStr).getD "unknown"))
      else none
  | none => none

/-- One turn of the drain loop of `poll`: the outcome of a bundle, or nothing
    when it stays pending.  The timeout is tested BEFORE the response. -/
def resolve (timeout now : Nat) (statuses : Json) (b : PendingBundle) : Option BundleOutcome :=
  if b.timedOut timeout now then some (.failed b.bundleId b.strategy "timeout")
  else verdict statuses b

/-- The drain loop of `poll`: outcomes and still-pending bundles, in order. -/
def drain (timeout now : Nat) (statuses : Json) :
    List PendingBundle → List BundleOutcome × List PendingBundle
  | [] => ([], [])
  | b :: bs =>
      let (outcomes, stillPending) := drain timeout now statuses bs
      match resolve timeout now statuses b with
      | some outcome => (outcome :: outcomes, stillPending)
      | none => (outcomes, b :: stillPending)

/-- `BundleStatusTracker::poll`.  `response` is what the block engine answers
    for the ids of all pending bundles. -/
def BundleStatusTracker.poll (t : BundleStatusTracker) (now : Nat)
    (response : Except String Json) : BundleStatusTracker × List BundleOutcome :=
  if t.pending.isEmpty then (t, [])
  else
    match response with
    | .error _ => (t, [])
    | .ok statuses =>
        let (outcomes, stillPending) := drain t.timeout now statuses t.pending
        ({ t with pending := stillPending }, outcomes)

/-- `BundleStatusTracker::pending_count`. -/
def BundleStatusTracker.pendingCount (t : BundleStatusTracker) : Nat := t.pending.length

end MevTracker
