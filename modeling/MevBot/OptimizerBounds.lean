import MevBot.DebugBuild
import MevBot.OptimizerSearch

/-! # The optimizer stays inside its bounds

    Whatever the simulated profits, the loop of `optimize_arb_amount` compares
    two and keeps one of two parts of its interval.  With the result of every
    comparison given, and every addition and subtraction checked, it runs without
    overflow, its intervals narrow inside the bounds, and so the returned amount is
    inside them (`optimize_bounded`).  Without hops there is no search, and the
    amount is 0 (`noHops_zero`). -/

namespace MevOptimizerBounds

open MevMath MevSimulation MevDebug MevOptimizer TernarySearch

/-! ## The loop with its comparisons given -/

/-- One probing of an interval. -/
structure Iteration where
  lo : UInt64
  m1 : UInt64
  m2 : UInt64
  hi : UInt64
deriving DecidableEq, Repr

/-- The loop of `optimize_arb_amount` in a debug build, with the result of the `k`-th
    comparison given: the iterations that probe, and the interval left. -/
def probeDebug :
    Nat → (Nat → Bool) → UInt64 → UInt64 → Debug (List Iteration × UInt64 × UInt64)
  | 0, _, lo, hi => return ([], lo, hi)
  | n + 1, results, lo, hi => do
      if (← subU64 hi lo) < 1000 then return ([], lo, hi)
      else
        let m1 ← addU64 lo ((← subU64 hi lo) / 3)
        let m2 ← subU64 hi ((← subU64 hi lo) / 3)
        let kept := if results 0 then (m1, hi) else (lo, m2)
        let (iterations, ends) ← probeDebug n (fun k => results (k + 1)) kept.1 kept.2
        return (⟨lo, m1, m2, hi⟩ :: iterations, ends)

/-- `optimize_arb_amount` in a debug build, up to the profit of the amount it returns. -/
def optimizeDebug (results : Nat → Bool) (hops : List HopParams) (maxInput minInput : UInt64) :
    Debug (List Iteration × UInt64) :=
  if hops.isEmpty ∨ maxInput ≤ minInput then return ([], 0)
  else do
    let (iterations, lo, hi) ← probeDebug 50 results minInput maxInput
    let sum ← addU64 lo hi
    return (iterations, sum / 2)

/-- The result of the `k`-th comparison of the code. -/
def compared (hops : List HopParams) (lo hi : UInt64) (k : Nat) : Bool :=
  let (lo, hi) := probe hops k lo hi
  decide (simulateCycle hops (lo + (hi - lo) / 3) < simulateCycle hops (hi - (hi - lo) / 3))

/-! ## One iteration -/

def Iteration.width (it : Iteration) : Nat := it.hi.toNat - it.lo.toNat

/-- The probes stand in order between the bounds, and either part that may be kept is
    narrower. -/
structure Iteration.Inside (minInput maxInput : UInt64) (it : Iteration) : Prop where
  min_le_lo : minInput ≤ it.lo
  lo_le_m1 : it.lo ≤ it.m1
  m1_le_m2 : it.m1 ≤ it.m2
  m2_le_hi : it.m2 ≤ it.hi
  hi_le_max : it.hi ≤ maxInput
  upper_narrower : it.hi.toNat - it.m1.toNat < it.width
  lower_narrower : it.m2.toNat - it.lo.toNat < it.width

section Loop

variable {minInput maxInput lo hi : UInt64}

/-- The probing of a wide interval. -/
theorem inside_of_wide (hlo : minInput ≤ lo) (h : lo ≤ hi) (hhi : hi ≤ maxInput)
    (hwide : ¬hi - lo < 1000) :
    Iteration.Inside minInput maxInput ⟨lo, lo + (hi - lo) / 3, hi - (hi - lo) / 3, hi⟩ := by
  have hfirst := amounts_first h
  have hsecond := amounts_second h
  have hw : 1000 ≤ hi.toNat - lo.toNat := by
    rw [UInt64.lt_iff_toNat_lt, UInt64.toNat_sub_of_le _ _ h] at hwide
    exact Nat.not_lt.mp hwide
  change lo.toNat + (hi.toNat - lo.toNat) / 3 = _ at hfirst
  change hi.toNat - (hi.toNat - lo.toNat) / 3 = _ at hsecond
  refine ⟨hlo, (probes_mem h).1.1, ?_, (probes_mem h).2.2, hhi, ?_, ?_⟩
  · rw [UInt64.le_iff_toNat_le, ← hfirst, ← hsecond]
    omega
  · show hi.toNat - (lo + (hi - lo) / 3).toNat < hi.toNat - lo.toNat
    rw [← hfirst]
    omega
  · show (hi - (hi - lo) / 3).toNat - lo.toNat < hi.toNat - lo.toNat
    rw [← hsecond]
    omega

/-- Its subtractions and its addition fit. -/
theorem probes_fit (h : lo ≤ hi) :
    subU64 hi lo = .ok (hi - lo) ∧ addU64 lo ((hi - lo) / 3) = .ok (lo + (hi - lo) / 3) ∧
      subU64 hi ((hi - lo) / 3) = .ok (hi - (hi - lo) / 3) := by
  have hhi := hi.toNat_lt
  have hle := UInt64.le_iff_toNat_le.mp h
  refine ⟨subU64_fits h, addU64_fits ?_, subU64_fits ?_⟩
  · rw [third_toNat h]
    omega
  · rw [UInt64.le_iff_toNat_le, third_toNat h]
    omega

/-! ## The run of the loop -/

/-- What a run of the loop keeps, whatever it compares. -/
structure Bounded (minInput maxInput lo hi : UInt64) (iterations : List Iteration)
    (ends : UInt64 × UInt64) : Prop where
  inside : ∀ it ∈ iterations, it.Inside minInput maxInput
  first : ∀ it ∈ iterations.head?, it.width = hi.toNat - lo.toNat
  narrowing : iterations.IsChain fun it it' => it'.width < it.width
  ends : minInput ≤ ends.1 ∧ ends.1 ≤ ends.2 ∧ ends.2 ≤ maxInput

theorem Bounded.idle (hlo : minInput ≤ lo) (h : lo ≤ hi) (hhi : hi ≤ maxInput) :
    Bounded minInput maxInput lo hi [] (lo, hi) where
  inside := fun _ hit => absurd hit List.not_mem_nil
  first := fun _ hit => nomatch hit
  narrowing := List.IsChain.nil
  ends := ⟨hlo, h, hhi⟩

/-- The part of an interval the loop goes on with. -/
def kept (less : Bool) (lo hi : UInt64) : UInt64 × UInt64 :=
  if less then (lo + (hi - lo) / 3, hi) else (lo, hi - (hi - lo) / 3)

/-- A wide interval is probed, and one of its two parts searched on. -/
theorem probeDebug_wide (n : Nat) (results : Nat → Bool) (h : lo ≤ hi)
    (hwide : ¬hi - lo < 1000) :
    probeDebug (n + 1) results lo hi = (do
      let (iterations, ends) ← probeDebug n (fun k => results (k + 1)) (kept (results 0) lo hi).1
        (kept (results 0) lo hi).2
      return (⟨lo, lo + (hi - lo) / 3, hi - (hi - lo) / 3, hi⟩ :: iterations, ends)) := by
  obtain ⟨hsub, hadd, hsub'⟩ := probes_fit h
  rw [probeDebug, hsub]
  show (if hi - lo < 1000 then _ else _) = _
  rw [if_neg hwide]
  show (addU64 lo ((hi - lo) / 3) >>= _) = _
  rw [hadd]
  show (subU64 hi ((hi - lo) / 3) >>= _) = _
  rw [hsub']
  rfl

/-- Either part is an interval, in the one before and narrower. -/
theorem kept_narrower (less : Bool) (h : lo ≤ hi) (hwide : ¬hi - lo < 1000) :
    lo ≤ (kept less lo hi).1 ∧ (kept less lo hi).1 ≤ (kept less lo hi).2 ∧
      (kept less lo hi).2 ≤ hi ∧
        (kept less lo hi).2.toNat - (kept less lo hi).1.toNat < hi.toNat - lo.toNat := by
  have hinside := inside_of_wide (UInt64.le_refl lo) h (UInt64.le_refl hi) hwide
  cases less with
  | true =>
      exact ⟨hinside.lo_le_m1, (probes_mem h).1.2, UInt64.le_refl hi, hinside.upper_narrower⟩
  | false =>
      exact ⟨UInt64.le_refl lo, (probes_mem h).2.1, hinside.m2_le_hi, hinside.lower_narrower⟩

/-- **WHATEVER IT COMPARES**, the loop runs without overflow inside its bounds. -/
theorem probeDebug_bounded (n : Nat) (results : Nat → Bool) (hlo : minInput ≤ lo) (h : lo ≤ hi)
    (hhi : hi ≤ maxInput) :
    ∃ iterations ends, probeDebug n results lo hi = .ok (iterations, ends) ∧
      Bounded minInput maxInput lo hi iterations ends := by
  induction n generalizing results lo hi with
  | zero => exact ⟨[], (lo, hi), rfl, Bounded.idle hlo h hhi⟩
  | succ n ih =>
      by_cases hwide : hi - lo < 1000
      · refine ⟨[], (lo, hi), ?_, Bounded.idle hlo h hhi⟩
        rw [probeDebug, subU64_fits h]
        exact if_pos hwide
      · obtain ⟨hlo', h', hhi', hnarrower⟩ := kept_narrower (results 0) h hwide
        obtain ⟨iterations, ends, hrun, hbounded⟩ := ih (fun k => results (k + 1))
          (UInt64.le_trans hlo hlo') h' (UInt64.le_trans hhi' hhi)
        refine ⟨⟨lo, lo + (hi - lo) / 3, hi - (hi - lo) / 3, hi⟩ :: iterations, ends, ?_, ?_⟩
        · rw [probeDebug_wide n results h hwide, hrun]
          rfl
        · refine ⟨?_, ?_, ?_, hbounded.ends⟩
          · exact List.forall_mem_cons.mpr ⟨inside_of_wide hlo h hhi hwide, hbounded.inside⟩
          · intro it hit
            obtain rfl := Option.some.inj hit
            rfl
          · refine List.isChain_cons.mpr ⟨?_, hbounded.narrowing⟩
            intro it hit
            rw [hbounded.first it hit]
            exact hnarrower

/-! ## The code's own comparisons -/

theorem probe_wide (hops : List HopParams) (k : Nat) (hwide : ¬hi - lo < 1000) :
    probe hops (k + 1) lo hi =
      probe hops k (kept (compared hops lo hi 0) lo hi).1
        (kept (compared hops lo hi 0) lo hi).2 := by
  rw [probe, if_neg hwide]
  by_cases hless : simulateCycle hops (lo + (hi - lo) / 3) <
      simulateCycle hops (hi - (hi - lo) / 3)
  · have hzero : compared hops lo hi 0 = true := decide_eq_true hless
    rw [hzero]
    exact if_pos hless
  · have hzero : compared hops lo hi 0 = false := decide_eq_false hless
    rw [hzero]
    exact if_neg hless

/-- The loop of the code is one of these runs. -/
theorem probeDebug_compared (hops : List HopParams) (n : Nat) (h : lo ≤ hi) :
    ∃ iterations,
      probeDebug n (compared hops lo hi) lo hi = .ok (iterations, probe hops n lo hi) := by
  induction n generalizing lo hi with
  | zero => exact ⟨[], rfl⟩
  | succ n ih =>
      by_cases hwide : hi - lo < 1000
      · refine ⟨[], ?_⟩
        rw [probeDebug, subU64_fits h, probe, if_pos hwide]
        exact if_pos hwide
      · have hshift : (fun k => compared hops lo hi (k + 1)) =
            compared hops (kept (compared hops lo hi 0) lo hi).1
              (kept (compared hops lo hi 0) lo hi).2 := by
          funext k
          rw [compared, compared, probe_wide hops k hwide]
        obtain ⟨iterations, hrun⟩ := ih (kept_narrower (compared hops lo hi 0) h hwide).2.1
        refine ⟨⟨lo, lo + (hi - lo) / 3, hi - (hi - lo) / 3, hi⟩ :: iterations, ?_⟩
        rw [probeDebug_wide n _ h hwide, hshift, hrun, probe_wide hops n hwide]
        rfl

end Loop

/-! ## The theorem -/

/-- The amount in the middle of the last interval. -/
theorem optimizeDebug_search {results : Nat → Bool} {hops : List HopParams}
    {minInput maxInput : UInt64} (hne : hops ≠ []) (h : minInput < maxInput)
    {iterations : List Iteration} {lo hi : UInt64}
    (hrun : probeDebug 50 results minInput maxInput = .ok (iterations, lo, hi))
    (hsum : lo.toNat + hi.toNat < 2 ^ 64) :
    optimizeDebug results hops maxInput minInput = .ok (iterations, (lo + hi) / 2) := by
  rw [optimizeDebug, if_neg (not_guarded hne h), hrun]
  show (addU64 lo hi >>= _) = _
  rw [addU64_fits hsum]
  rfl

/-- **THE OPTIMIZER STAYS IN BOUNDS**: whatever the comparisons, every iteration probes
    inside the bounds and narrows, nothing overflows, and the amount lies between the
    bounds unless there are no hops to search for.  The code is the run with its own
    comparisons. -/
theorem optimize_bounded (hops : List HopParams) (minInput maxInput : UInt64)
    (h : minInput < maxInput) (hmax : maxInput.toNat ≤ 2 ^ 63 - 1) :
    (∀ results, ∃ iterations amount,
      optimizeDebug results hops maxInput minInput = .ok (iterations, amount) ∧
        (∀ it ∈ iterations, it.Inside minInput maxInput) ∧
        (iterations.IsChain fun it it' => it'.width < it.width) ∧
        (hops ≠ [] → minInput ≤ amount ∧ amount ≤ maxInput) ∧ (hops = [] → amount = 0)) ∧
    ∃ iterations, optimizeDebug (compared hops minInput maxInput) hops maxInput minInput =
      .ok (iterations, (optimizeArbAmount hops maxInput minInput).1) := by
  have hle := UInt64.le_of_lt h
  by_cases hne : hops = []
  · subst hne
    refine ⟨fun _ => ⟨[], 0, rfl, fun _ hit => absurd hit List.not_mem_nil, List.IsChain.nil,
      fun hne => absurd rfl hne, fun _ => rfl⟩, [], rfl⟩
  · have hsum : ∀ lo hi : UInt64, lo ≤ hi → hi ≤ maxInput → lo.toNat + hi.toNat < 2 ^ 64 := by
      intro lo hi hlo hhi
      rw [UInt64.le_iff_toNat_le] at hlo hhi
      omega
    constructor
    · intro results
      obtain ⟨iterations, ⟨lo, hi⟩, hrun, hbounded⟩ := probeDebug_bounded 50 results
        (UInt64.le_refl minInput) hle (UInt64.le_refl maxInput)
      obtain ⟨hlo, hends, hhi⟩ := hbounded.ends
      obtain ⟨hge, hmid⟩ := midpoint_mem hends (hsum lo hi hends hhi)
      exact ⟨iterations, (lo + hi) / 2,
        optimizeDebug_search hne h hrun (hsum lo hi hends hhi), hbounded.inside,
        hbounded.narrowing, fun _ => ⟨UInt64.le_trans hlo hge, UInt64.le_trans hmid hhi⟩,
        fun hnil => absurd hnil hne⟩
    · obtain ⟨iterations, hrun⟩ := probeDebug_compared hops 50 hle
      obtain ⟨-, hends, hhi⟩ := probe_bounds hops 50 minInput maxInput hle
      rcases hres : probe hops 50 minInput maxInput with ⟨lo, hi⟩
      rw [hres] at hrun hends hhi
      refine ⟨iterations, ?_⟩
      rw [optimizeDebug_search hne h hrun (hsum lo hi hends hhi), optimizeArbAmount,
        if_neg (not_guarded hne h), hres]

/-- The bot's own bounds, for a pool that pays back half. -/
theorem botBounds_bounded :
    (∀ results, ∃ iterations amount,
      optimizeDebug results [⟨2, 1, 25, 10000⟩] 10000000000 1000000 = .ok (iterations, amount) ∧
        (∀ it ∈ iterations, it.Inside 1000000 10000000000) ∧
        (iterations.IsChain fun it it' => it'.width < it.width) ∧
        (([⟨2, 1, 25, 10000⟩] : List HopParams) ≠ [] → 1000000 ≤ amount ∧ amount ≤ 10000000000) ∧
        (([⟨2, 1, 25, 10000⟩] : List HopParams) = [] → amount = 0)) ∧
    ∃ iterations, optimizeDebug (compared [⟨2, 1, 25, 10000⟩] 1000000 10000000000)
        [⟨2, 1, 25, 10000⟩] 10000000000 1000000 =
      .ok (iterations, (optimizeArbAmount [⟨2, 1, 25, 10000⟩] 10000000000 1000000).1) :=
  optimize_bounded [⟨2, 1, 25, 10000⟩] 1000000 10000000000 (by decide) (by decide)

/-- **WITHOUT HOPS** the amount is 0, below any positive lower bound. -/
theorem noHops_zero :
    (1 : UInt64) < 2 ∧ (2 : UInt64).toNat ≤ 2 ^ 63 - 1 ∧ optimizeArbAmount [] 2 1 = (0, 0) ∧
      ¬(1 ≤ (optimizeArbAmount [] 2 1).1 ∧ (optimizeArbAmount [] 2 1).1 ≤ 2) := by
  decide

end MevOptimizerBounds
