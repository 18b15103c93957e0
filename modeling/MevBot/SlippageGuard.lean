import MevBot.Backrun
import MevBot.DebugBuild
import MevBot.ExactRates
import MevBot.StrategyHistory

/-! # The slippage guard of a swap step

    Both simulations set `min_amount_out` of a step from the output the hop was
    quoted, in plain `u64` arithmetic: `q * 995 / 1000`, and `q` times ten
    thousand minus `max_slippage_bps`, a setting nothing bounds.  The guard is
    the exact one as long as the product fits a word and the setting is at most
    the whole (`slippageGuard_iff`); beyond, a release build sends a minimum of
    next to nothing. -/

namespace MevSlippage

open MevMachine MevTypes MevMath MevDex MevSearch MevCache MevStrategy MevSimulation MevVaults
open MevSwap MevBackrun MevDebug MevExact MevRates MevHistory ProductFormula

variable (F : Type) [F64 F]

/-! ## The hop loops -/

/-- A step as it is pushed, with the hop and the quote it was made from. -/
structure Pushed (H : Type) where
  hop : H
  amountIn : UInt64
  quoted : UInt64
  step : SwapStep

/-- The hop loop of both simulations: the steps pushed before it ends, and the final output
    if it completes. -/
def pushSteps {H : Type} (hopOf : H → ArbHop) (quote : H → UInt64 → Option Quote)
    (minOut : UInt64 → UInt64) : List H → UInt64 → List (Pushed H) × Option UInt64
  | [], currentAmount => ([], some currentAmount)
  | hop :: hops, currentAmount =>
      match quote hop currentAmount with
      | none => ([], none)
      | some q =>
          if q.amountOut = 0 then ([], none)
          else
            let (pushed, final) := pushSteps hopOf quote minOut hops q.amountOut
            ({ hop, amountIn := currentAmount, quoted := q.amountOut,
               step := { poolAddress := (hopOf hop).poolAddress, dexType := (hopOf hop).dexType,
                         inputMint := (hopOf hop).inputMint, outputMint := (hopOf hop).outputMint,
                         amountIn := currentAmount, minAmountOut := minOut q.amountOut,
                         instructions := [] } } :: pushed, final)

/-- `quote.amount_out * 995 / 1000`. -/
def dexArbMinOut (amountOut : UInt64) : UInt64 := amountOut * 995 / 1000

def dexArbMinOutDebug (amountOut : UInt64) : Debug UInt64 := do
  let scaled ← mulU64 amountOut 995
  return scaled / 1000

/-- `quote.amount_out * (10_000 - max_slippage_bps) / 10_000`. -/
def backrunMinOut (maxSlippageBps : UInt16) (amountOut : UInt64) : UInt64 :=
  amountOut * (10000 - maxSlippageBps.toUInt64) / 10000

def backrunMinOutDebug (maxSlippageBps : UInt16) (amountOut : UInt64) : Debug UInt64 := do
  let slippageFactor ← subU64 10000 maxSlippageBps.toUInt64
  let scaled ← mulU64 amountOut slippageFactor
  return scaled / 10000

/-- A minimum a debug build computes is the one of the release build. -/
theorem minOutDebug_matches (maxSlippageBps : UInt16) (amountOut : UInt64) :
    Matches (dexArbMinOutDebug amountOut) (.ok (dexArbMinOut amountOut)) ∧
      Matches (backrunMinOutDebug maxSlippageBps amountOut)
        (.ok (backrunMinOut maxSlippageBps amountOut)) := by
  refine ⟨Matches.bind_ok (mulU64_matches _ _) (Matches.refl _), ?_⟩
  exact Matches.bind_ok (subU64_matches _ _)
    (Matches.bind_ok (mulU64_matches _ _) (Matches.refl _))

/-- The steps `DexArbStrategy::simulate_cycle` pushes. -/
def dexArbPushed (cache : AccountCache) (arbPath : ArbPath F) :
    List (Pushed (ArbHop × PoolState)) :=
  match arbPath.hops.mapM (hopState F cache) with
  | none => []
  | some states =>
      let (optimalAmount, maxProfit) := optimizeArbAmount (states.map (·.2)) MAX_INPUT MIN_INPUT
      if maxProfit ≤ 0 ∨ optimalAmount = 0 then []
      else
        (pushSteps (·.1) (fun h => quoteHop F h.1 h.2) dexArbMinOut
          (arbPath.hops.zip (states.map (·.1))) optimalAmount).1

/-- The steps `simulate_backrun_cycle` pushes. -/
def backrunPushed (s : BackrunStrategy) (cache : AccountCache) (arbPath : ArbPath F) :
    List (Pushed ArbHop) :=
  (pushSteps id (backrunQuote F cache) (backrunMinOut s.maxSlippageBps) arbPath.hops START_AMOUNT).1

variable {F}

/-- A loop that quotes, checks and goes on as `pushSteps` does returns the steps it pushes, when
    it completes. -/
theorem loop_eq {H : Type} {hopOf : H → ArbHop} {quote : H → UInt64 → Option Quote}
    {minOut : UInt64 → UInt64} {loop : List H → UInt64 → Option (List SwapStep × UInt64)}
    (hnil : ∀ amount, loop [] amount = some ([], amount))
    (hcons : ∀ hop hops amount, loop (hop :: hops) amount = (quote hop amount).bind fun q =>
      if q.amountOut = 0 then none
      else (loop hops q.amountOut).bind fun rest => some
        ({ poolAddress := (hopOf hop).poolAddress, dexType := (hopOf hop).dexType,
           inputMint := (hopOf hop).inputMint, outputMint := (hopOf hop).outputMint,
           amountIn := amount, minAmountOut := minOut q.amountOut,
           instructions := [] } :: rest.1, rest.2))
    (hops : List H) (amount : UInt64) :
    loop hops amount = (pushSteps hopOf quote minOut hops amount).2.map fun final =>
      ((pushSteps hopOf quote minOut hops amount).1.map (·.step), final) := by
  induction hops generalizing amount with
  | nil => exact hnil amount
  | cons hop hops ih =>
      rw [hcons, pushSteps]
      cases quote hop amount with
      | none => rfl
      | some q =>
          dsimp only [Option.bind_some]
          split
          · rfl
          · rw [ih]
            cases (pushSteps hopOf quote minOut hops q.amountOut).2 with
            | none => rfl
            | some final => rfl

theorem buildSteps_eq (hops : List (ArbHop × PoolState)) (amount : UInt64) :
    buildSteps F hops amount =
      (pushSteps (·.1) (fun h => quoteHop F h.1 h.2) dexArbMinOut hops amount).2.map fun final =>
        ((pushSteps (·.1) (fun h => quoteHop F h.1 h.2) dexArbMinOut hops amount).1.map (·.step),
          final) := by
  exact loop_eq (fun _ => rfl) (fun _ _ _ => rfl) hops amount

theorem hopSteps_eq (s : BackrunStrategy) (cache : AccountCache) (hops : List ArbHop)
    (amount : UInt64) :
    s.hopSteps F cache hops amount =
      (pushSteps id (backrunQuote F cache) (backrunMinOut s.maxSlippageBps) hops amount).2.map
        fun final =>
          ((pushSteps id (backrunQuote F cache) (backrunMinOut s.maxSlippageBps) hops
            amount).1.map (·.step), final) := by
  exact loop_eq (fun _ => rfl) (fun _ _ _ => rfl) hops amount

/-- An opportunity of `simulate_cycle` carries the steps pushed. -/
theorem dexArb_path {cache : AccountCache} {arbPath : ArbPath F} {opp : Opportunity}
    (h : DexArbStrategy.simulateCycle cache arbPath = some opp) :
    opp.path = (dexArbPushed F cache arbPath).map (·.step) := by
  obtain ⟨states, hstates, h⟩ := Option.bind_eq_some_iff.mp h
  rw [dexArbPushed, hstates]
  dsimp only at h ⊢
  split at h
  · cases h
  · rename_i hgood
    rw [if_neg hgood]
    rw [buildSteps_eq] at h
    obtain ⟨⟨steps, final⟩, hsteps, h⟩ := Option.bind_eq_some_iff.mp h
    obtain ⟨final', -, hpair⟩ := Option.map_eq_some_iff.mp hsteps
    obtain rfl := Option.some.inj h
    exact (Prod.mk.inj hpair).1.symm

/-- And so does one of `simulate_backrun_cycle`. -/
theorem backrun_path {s : BackrunStrategy} {cache : AccountCache} {arbPath : ArbPath F}
    {opp : Opportunity} (h : s.simulateBackrunCycle cache arbPath = some opp) :
    opp.path = (backrunPushed F s cache arbPath).map (·.step) := by
  obtain ⟨⟨steps, final⟩, hsteps, h⟩ := Option.bind_eq_some_iff.mp h
  obtain rfl := Option.some.inj h
  rw [hopSteps_eq] at hsteps
  obtain ⟨final', -, hpair⟩ := Option.map_eq_some_iff.mp hsteps
  exact (Prod.mk.inj hpair).1.symm

/-- What is pushed for a hop was quoted for it. -/
theorem pushed_quote {H : Type} {hopOf : H → ArbHop} {quote : H → UInt64 → Option Quote}
    {minOut : UInt64 → UInt64} {hops : List H} {amount : UInt64} {p : Pushed H}
    (h : p ∈ (pushSteps hopOf quote minOut hops amount).1) :
    p.hop ∈ hops ∧ (∃ q, quote p.hop p.amountIn = some q ∧ q.amountOut = p.quoted) ∧
      p.step.minAmountOut = minOut p.quoted := by
  induction hops generalizing amount with
  | nil => cases h
  | cons hop hops ih =>
      rw [pushSteps] at h
      cases hquote : quote hop amount with
      | none =>
          rw [hquote] at h
          cases h
      | some q =>
          rw [hquote] at h
          dsimp only at h
          split at h
          · cases h
          · rcases List.mem_cons.mp h with rfl | hrest
            · exact ⟨List.mem_cons_self, ⟨q, hquote, rfl⟩, rfl⟩
            · obtain ⟨hmem, hstep⟩ := ih hrest
              exact ⟨List.mem_cons_of_mem _ hmem, hstep⟩

/-! ## The bound on the output -/

/-- The swap pays at most `cap`, as a condition on its reserves and its input. -/
def PaysAtMost (cap : Nat) (hop : HopParams) (amountIn : UInt64) : Prop :=
  (amountIn.toNat - (chargedFee amountIn hop.feeNumerator hop.feeDenominator).toNat) *
      (hop.reserveOut.toNat - (cap + 1)) < hop.reserveIn.toNat * (cap + 1)

theorem paysAtMost_iff {hop : HopParams} {amountIn out fee : UInt64}
    (h : hop.swap amountIn = some (out, fee)) (cap : Nat) :
    PaysAtMost cap hop amountIn ↔ out.toNat ≤ cap := by
  obtain ⟨⟨hin, -, -, -⟩, rfl, -, hpaid⟩ := swapBaseIn_some_iff.mp h
  rw [hpaid, productOut_le_iff (toNat_pos hin), PaysAtMost]

/-- A reserve of at most one more than the cap never pays more. -/
theorem paysAtMost_of_reserve {cap : Nat} {hop : HopParams} (hin : hop.reserveIn ≠ 0)
    (hout : hop.reserveOut.toNat ≤ cap + 1) (amountIn : UInt64) : PaysAtMost cap hop amountIn := by
  rw [PaysAtMost, Nat.sub_eq_zero_of_le hout, Nat.mul_zero]
  exact Nat.mul_pos (toNat_pos hin) (Nat.succ_pos cap)

/-- The swap of a step pushed by `simulate_cycle`. -/
theorem dexArb_swap {h : ArbHop × PoolState} {amountIn : UInt64} {q : Quote}
    (hquote : quoteHop F h.1 h.2 amountIn = some q) :
    ∃ fee, (directedParams h.2 h.1.inputMint).swap amountIn = some (q.amountOut, fee) := by
  obtain ⟨adapter, hfind, hq⟩ := Option.bind_eq_some_iff.mp hquote
  obtain ⟨emptyText, htext⟩ := adapter_quote (List.mem_of_find?_eq_some hfind)
  rw [htext] at hq
  exact (quoteWith_iff.mp ⟨q, toOption_eq_some_iff.mp hq, rfl⟩).2

/-- The swap of a step pushed by `simulate_backrun_cycle`, on the pool of its account. -/
theorem backrun_swap {cache : AccountCache} {hop : ArbHop} {amountIn : UInt64} {q : Quote}
    (hquote : backrunQuote F cache hop amountIn = some q) :
    ∃ pool fee, accountPool F cache hop = some pool ∧
      (directedParams pool hop.inputMint).swap amountIn = some (q.amountOut, fee) := by
  obtain ⟨pool, hpool⟩ := accountPool_of_quote hquote
  obtain ⟨-, fee, hswap⟩ := (backrunQuote_iff hpool).mp ⟨q, hquote, rfl⟩
  exact ⟨pool, fee, hpool, hswap⟩

/-! ## The guard of one step -/

/-- A minimum that is computed without overflow and is the exact one. -/
structure Guarded (debug : Debug UInt64) (minOut : UInt64) (exact : Nat) : Prop where
  noOverflow : debug = .ok minOut
  equal : minOut.toNat = exact

/-- The largest output whose minimum `dex_arb` can compute. -/
def DEX_ARB_CAP : Nat := (2 ^ 64 - 1) / 995

theorem dexArb_guarded_iff (q : UInt64) :
    Guarded (dexArbMinOutDebug q) (dexArbMinOut q) (995 * q.toNat / 1000) ↔
      q.toNat ≤ DEX_ARB_CAP := by
  have hcap : q.toNat ≤ DEX_ARB_CAP ↔ q.toNat * (995 : UInt64).toNat < 2 ^ 64 := by
    rw [DEX_ARB_CAP, show (995 : UInt64).toNat = 995 from rfl]
    omega
  rw [hcap]
  constructor
  · intro h
    by_contra hnot
    have hover := h.noOverflow
    rw [dexArbMinOutDebug, mulU64_overflows hnot] at hover
    cases hover
  · intro hfits
    constructor
    · rw [dexArbMinOutDebug, mulU64_fits hfits]
      rfl
    · rw [dexArbMinOut, UInt64.toNat_div, UInt64.toNat_mul, Nat.mod_eq_of_lt hfits, Nat.mul_comm]
      rfl

/-- The setting is at most the whole, and the output can be scaled. -/
def BackrunFits (maxSlippageBps : UInt16) (out : Nat) : Prop :=
  maxSlippageBps.toNat ≤ 10000 ∧
    (maxSlippageBps.toNat < 10000 → out ≤ (2 ^ 64 - 1) / (10000 - maxSlippageBps.toNat))

theorem slippageFactor_toNat {maxSlippageBps : UInt16} (h : maxSlippageBps.toNat ≤ 10000) :
    (10000 : UInt64) ≥ maxSlippageBps.toUInt64 ∧
      (10000 - maxSlippageBps.toUInt64).toNat = 10000 - maxSlippageBps.toNat := by
  have hle : maxSlippageBps.toUInt64 ≤ 10000 := by
    rw [UInt64.le_iff_toNat_le, UInt16.toNat_toUInt64]
    exact h
  refine ⟨hle, ?_⟩
  rw [UInt64.toNat_sub_of_le _ _ hle, UInt16.toNat_toUInt64]
  rfl

theorem backrun_guarded_iff (maxSlippageBps : UInt16) (q : UInt64) :
    Guarded (backrunMinOutDebug maxSlippageBps q) (backrunMinOut maxSlippageBps q)
        (q.toNat * (10000 - maxSlippageBps.toNat) / 10000) ↔
      BackrunFits maxSlippageBps q.toNat := by
  by_cases hbps : maxSlippageBps.toNat ≤ 10000
  · obtain ⟨hle, hfactor⟩ := slippageFactor_toNat hbps
    have hcap : BackrunFits maxSlippageBps q.toNat ↔
        q.toNat * (10000 - maxSlippageBps.toUInt64).toNat < 2 ^ 64 := by
      rw [BackrunFits, hfactor]
      rcases Nat.lt_or_ge maxSlippageBps.toNat 10000 with hlt | hge
      · rw [Nat.le_div_iff_mul_le (Nat.sub_pos_of_lt hlt)]
        omega
      · rw [Nat.sub_eq_zero_of_le hge, Nat.mul_zero]
        omega
    rw [hcap]
    constructor
    · intro h
      by_contra hnot
      have hover := h.noOverflow
      rw [backrunMinOutDebug, subU64_fits hle] at hover
      simp only [bind, Except.bind, mulU64_overflows hnot] at hover
      cases hover
    · intro hfits
      constructor
      · rw [backrunMinOutDebug, subU64_fits hle]
        simp only [bind, Except.bind, mulU64_fits hfits]
        rfl
      · rw [backrunMinOut, UInt64.toNat_div, UInt64.toNat_mul, Nat.mod_eq_of_lt hfits, hfactor]
        rfl
  · -- the factor itself underflows
    refine iff_of_false ?_ fun h => hbps h.1
    intro h
    have hnot : ¬maxSlippageBps.toUInt64 ≤ 10000 := by
      rw [UInt64.le_iff_toNat_le, UInt16.toNat_toUInt64]
      exact hbps
    have hover := h.noOverflow
    rw [backrunMinOutDebug, subU64_overflows hnot] at hover
    cases hover

/-! ## The theorem -/

/-- Every step pushed by `simulate_cycle` carries the exact minimum. -/
def DexArbGuarded (cache : AccountCache) (arbPath : ArbPath F) : Prop :=
  ∀ p ∈ dexArbPushed F cache arbPath,
    Guarded (dexArbMinOutDebug p.quoted) p.step.minAmountOut (995 * p.quoted.toNat / 1000)

/-- Every hop it comes to pays no more than can be scaled. -/
def DexArbInRange (cache : AccountCache) (arbPath : ArbPath F) : Prop :=
  ∀ p ∈ dexArbPushed F cache arbPath,
    PaysAtMost DEX_ARB_CAP (directedParams p.hop.2 p.hop.1.inputMint) p.amountIn

/-- Every step pushed by `simulate_backrun_cycle` carries the exact minimum. -/
def BackrunGuarded (s : BackrunStrategy) (cache : AccountCache) (arbPath : ArbPath F) : Prop :=
  ∀ p ∈ backrunPushed F s cache arbPath,
    Guarded (backrunMinOutDebug s.maxSlippageBps p.quoted) p.step.minAmountOut
      (p.quoted.toNat * (10000 - s.maxSlippageBps.toNat) / 10000)

/-- The setting is at most the whole, and every hop it comes to pays no more than can be
    scaled by what the setting leaves. -/
def BackrunInRange (s : BackrunStrategy) (cache : AccountCache) (arbPath : ArbPath F) : Prop :=
  ∀ p ∈ backrunPushed F s cache arbPath, s.maxSlippageBps.toNat ≤ 10000 ∧
    (s.maxSlippageBps.toNat < 10000 → ∀ pool, accountPool F cache p.hop = some pool →
      PaysAtMost ((2 ^ 64 - 1) / (10000 - s.maxSlippageBps.toNat))
        (directedParams pool p.hop.inputMint) p.amountIn)

/-- What a step pushed by `simulate_cycle` was quoted, and the minimum it carries. -/
theorem dexArbPushed_quote {cache : AccountCache} {arbPath : ArbPath F}
    {p : Pushed (ArbHop × PoolState)} (hp : p ∈ dexArbPushed F cache arbPath) :
    ∃ q, quoteHop F p.hop.1 p.hop.2 p.amountIn = some q ∧ q.amountOut = p.quoted ∧
      p.step.minAmountOut = dexArbMinOut p.quoted := by
  rw [dexArbPushed] at hp
  split at hp
  · cases hp
  · dsimp only at hp
    split at hp
    · cases hp
    · obtain ⟨-, ⟨q, hquote, hq⟩, hmin⟩ := pushed_quote hp
      exact ⟨q, hquote, hq, hmin⟩

theorem dexArbGuarded_iff (cache : AccountCache) (arbPath : ArbPath F) :
    DexArbGuarded cache arbPath ↔ DexArbInRange cache arbPath := by
  refine forall₂_congr fun p hp => ?_
  obtain ⟨q, hquote, hq, hmin⟩ := dexArbPushed_quote hp
  obtain ⟨fee, hswap⟩ := dexArb_swap hquote
  rw [hmin, dexArb_guarded_iff, paysAtMost_iff hswap, hq]

/-- Reserves below the cap keep every hop in range. -/
theorem dexArbInRange_of_reserves {cache : AccountCache} {arbPath : ArbPath F}
    (h : ∀ p ∈ dexArbPushed F cache arbPath,
      (directedParams p.hop.2 p.hop.1.inputMint).reserveOut.toNat ≤ DEX_ARB_CAP + 1) :
    DexArbInRange cache arbPath := by
  intro p hp
  obtain ⟨q, hquote, -, -⟩ := dexArbPushed_quote hp
  obtain ⟨fee, hswap⟩ := dexArb_swap hquote
  obtain ⟨⟨hin, -, -, -⟩, -⟩ := swapBaseIn_some_iff.mp hswap
  exact paysAtMost_of_reserve hin (h p hp) p.amountIn

theorem backrunGuarded_iff (s : BackrunStrategy) (cache : AccountCache) (arbPath : ArbPath F) :
    BackrunGuarded s cache arbPath ↔ BackrunInRange s cache arbPath := by
  refine forall₂_congr fun p hp => ?_
  obtain ⟨-, ⟨q, hquote, hq⟩, hmin⟩ := pushed_quote hp
  obtain ⟨pool, fee, hpool, hswap⟩ := backrun_swap hquote
  have hpays : ∀ cap, (∀ pool', accountPool F cache p.hop = some pool' →
      PaysAtMost cap (directedParams pool' p.hop.inputMint) p.amountIn) ↔
        p.quoted.toNat ≤ cap := by
    intro cap
    rw [← hq, ← paysAtMost_iff hswap]
    constructor
    · intro h
      exact h pool hpool
    · intro h pool' hpool'
      rw [hpool] at hpool'
      obtain rfl := Option.some.inj hpool'
      exact h
  rw [hmin, backrun_guarded_iff, BackrunFits, hpays]

/-- **WHEN THE GUARD IS THE CONFIGURED ONE**, for every path, cache content and setting: the
    pushed steps, which are those of the opportunity, carry the exact minimum exactly when
    every hop stays in range, as it does where no reserve it takes from is above the cap. -/
theorem slippageGuard_iff (s : BackrunStrategy) (cache : AccountCache) (arbPath : ArbPath F) :
    (DexArbGuarded cache arbPath ↔ DexArbInRange cache arbPath) ∧
      ((∀ p ∈ dexArbPushed F cache arbPath,
        (directedParams p.hop.2 p.hop.1.inputMint).reserveOut.toNat ≤ DEX_ARB_CAP + 1) →
          DexArbGuarded cache arbPath) ∧
      (BackrunGuarded s cache arbPath ↔ BackrunInRange s cache arbPath) ∧
      (∀ opp, DexArbStrategy.simulateCycle cache arbPath = some opp →
        opp.path = (dexArbPushed F cache arbPath).map (·.step)) ∧
      (∀ opp, s.simulateBackrunCycle cache arbPath = some opp →
        opp.path = (backrunPushed F s cache arbPath).map (·.step)) :=
  ⟨dexArbGuarded_iff cache arbPath,
    fun h => (dexArbGuarded_iff cache arbPath).mpr (dexArbInRange_of_reserves h),
    backrunGuarded_iff s cache arbPath, fun _ h => dexArb_path h, fun _ h => backrun_path h⟩

/-- A market that sells a large-supply token, and one that buys it back. -/
def supplyCache : AccountCache :=
  (AccountCache.new.update (phoenixAccount 101 1 1 18446744073709551 1)).update
    (phoenixAccount 102 1 1000000000000 18446744073709551 2)

def supplyPath : ArbPath ExactF64 :=
  { hops := [⟨keyOf 101, .phoenix, keyOf 1, keyOf 2, 0⟩, ⟨keyOf 102, .phoenix, keyOf 2, keyOf 1, 3⟩]
    profitRatio := .nan
    estimatedProfitLamports := 0 }

/-- The amounts of a pushed step: input, quoted output and minimum. -/
def Pushed.amounts {H : Type} (p : Pushed H) : UInt64 × UInt64 × UInt64 :=
  (p.amountIn, p.quoted, p.step.minAmountOut)

theorem exists_pushed {H : Type} {pushed : List (Pushed H)} {amountIn quoted minOut : UInt64}
    (h : (amountIn, quoted, minOut) ∈ pushed.map Pushed.amounts) :
    ∃ p ∈ pushed, p.quoted = quoted ∧ p.step.minAmountOut = minOut := by
  obtain ⟨p, hp, hamounts⟩ := List.mem_map.mp h
  obtain ⟨-, hrest⟩ := Prod.mk.inj hamounts
  obtain ⟨hquoted, hmin⟩ := Prod.mk.inj hrest
  exact ⟨p, hp, hquoted, hmin⟩

/-- **THE PRODUCT WRAPS**: the first hop may return a thousandth of its quote in `dex_arb`,
    and a ten-thousandth in `backrun`, where half a percent is configured. -/
theorem guards_wrapped :
    (dexArbPushed ExactF64 supplyCache supplyPath).map Pushed.amounts =
        [(500076735, 18446707171195417649, 18410026072146254),
          (18446707171195417649, 499899479873194, 497399982473828)] ∧
      (backrunPushed ExactF64 ⟨0, 0, 50, []⟩ supplyCache supplyPath).map Pushed.amounts =
        [(1000000000, 18446725619602288492, 1826312570644146),
          (18446725619602288492, 499899729896094, 497400231246613)] ∧
      ¬DexArbGuarded supplyCache supplyPath ∧
      ¬BackrunGuarded ⟨0, 0, 50, []⟩ supplyCache supplyPath := by
  have hdex : (dexArbPushed ExactF64 supplyCache supplyPath).map Pushed.amounts =
      [(500076735, 18446707171195417649, 18410026072146254),
        (18446707171195417649, 499899479873194, 497399982473828)] := by
    decide +kernel
  have hback : (backrunPushed ExactF64 ⟨0, 0, 50, []⟩ supplyCache supplyPath).map Pushed.amounts =
      [(1000000000, 18446725619602288492, 1826312570644146),
        (18446725619602288492, 499899729896094, 497400231246613)] := by
    decide +kernel
  refine ⟨hdex, hback, ?_, ?_⟩
  · intro hall
    obtain ⟨p, hp, hquoted, hmin⟩ := exists_pushed (hdex ▸ List.mem_cons_self)
    have hequal := (hall p hp).equal
    rw [hquoted, hmin] at hequal
    exact absurd hequal (by decide)
  · intro hall
    obtain ⟨p, hp, hquoted, hmin⟩ := exists_pushed (hback ▸ List.mem_cons_self)
    have hequal := (hall p hp).equal
    rw [hquoted, hmin] at hequal
    exact absurd hequal (by decide)

end MevSlippage
