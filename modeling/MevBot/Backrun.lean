import MevBot.SwapLaws
import MevBot.VaultReserves

/-! # The backrun strategy

    After a large swap `BackrunStrategy` searches the published graph and
    simulates the cycles found at one SOL.  Its hop loop is a second copy of the
    one in `dex_arb`, with four adapters instead of five and without the vault
    balances.  The two loops agree on a cycle exactly when every hop can be
    quoted and the vault balances make no difference to the run
    (`backrun_agrees_iff`): never through a Raydium pool. -/

namespace MevBackrun

open MevMachine MevTypes MevMath MevDex MevGraph MevSearch MevCache MevStrategy MevAdapterFacts
open MevSimulation MevVaults MevExact

/-! ## The strategy -/

variable (F : Type) [F64 F]

/-- The adapters of `BackrunStrategy::new`. -/
def backrunAdapters : List DexAdapter :=
  [RaydiumAmmAdapter, OrcaWhirlpoolAdapter F, MeteoraDlmmAdapter F, PhoenixAdapter]

/-- `BackrunStrategy`; graph and cache are shared and passed to its methods. -/
structure BackrunStrategy where
  minTradeSizeLamports : UInt64
  minProfitLamports : Int64
  maxSlippageBps : UInt16
  anchorMints : List Pubkey

/-- One SOL. -/
def START_AMOUNT : UInt64 := 1000000000

/-- The quote for a hop, on the pool as its account has it. -/
def backrunQuote (cache : AccountCache) (hop : ArbHop) (currentAmount : UInt64) :
    Option Quote := do
  let adapter ← (backrunAdapters F).find? fun a => a.dexType = hop.dexType
  let poolData ← cache.getData hop.poolAddress
  let decoded ← (adapter.decodePool hop.poolAddress poolData).toOption
  let pool ← decoded
  (adapter.quote pool hop.inputMint currentAmount).toOption

/-- The hop loop of `simulate_backrun_cycle`: the swap steps from `currentAmount`
    on, and the final output. -/
def BackrunStrategy.hopSteps (s : BackrunStrategy) (cache : AccountCache) :
    List ArbHop → UInt64 → Option (List SwapStep × UInt64)
  | [], currentAmount => some ([], currentAmount)
  | hop :: hops, currentAmount => do
      let quote ← backrunQuote F cache hop currentAmount
      if quote.amountOut = 0 then none
      else
        -- both the difference and the product wrap
        let slippageFactor := 10000 - s.maxSlippageBps.toUInt64
        let minOut := quote.amountOut * slippageFactor / 10000
        let (steps, final) ← s.hopSteps cache hops quote.amountOut
        some ({ poolAddress := hop.poolAddress, dexType := hop.dexType,
                inputMint := hop.inputMint, outputMint := hop.outputMint,
                amountIn := currentAmount, minAmountOut := minOut,
                instructions := [] } :: steps, final)

variable {F}

/-- `simulate_backrun_cycle`. -/
def BackrunStrategy.simulateBackrunCycle (s : BackrunStrategy) (cache : AccountCache)
    (arbPath : ArbPath F) : Option Opportunity := do
  let (steps, final) ← s.hopSteps F cache arbPath.hops START_AMOUNT
  some { strategy := "backrun", path := steps,
         expectedProfitLamports := profitOf final START_AMOUNT,
         estimatedComputeUnits := 300000 * UInt32.ofNat arbPath.numHops,
         detectedAtSlot := 0 }

/-- The opportunity `evaluate_swap` returns at a cycle, if it does. -/
def BackrunStrategy.evaluateCycle (s : BackrunStrategy) (cache : AccountCache)
    (cycle : ArbPath F) : Option Opportunity :=
  if F64.lt 1.0 cycle.profitRatio then
    (s.simulateBackrunCycle cache cycle).filter fun opp =>
      decide (opp.expectedProfitLamports ≥ s.minProfitLamports)
  else none

/-- `evaluate_swap`: the first cycle good enough, from the first anchor that has
    one.  Which pool was swapped is logged only. -/
def BackrunStrategy.evaluateSwap (s : BackrunStrategy) (graph : PriceGraph F)
    (cache : AccountCache) (estimatedSize : UInt64) : Option Opportunity :=
  if estimatedSize < s.minTradeSizeLamports then none
  else
    s.anchorMints.findSome? fun anchor =>
      (graph.tokens.getIndex anchor).bind fun anchorIdx =>
        (findCyclesDfs graph anchorIdx 3 0.0001).findSome? (s.evaluateCycle cache)

/-! ## One hop -/

/-- The backrun strategy can quote the hop on the pool: it has the adapter, and
    the input mint is one of the pool's. -/
def Quotable (hop : ArbHop) (pool : PoolState) : Prop :=
  hop.dexType ≠ .raydiumClmm ∧
    (hop.inputMint = pool.tokenAMint ∨ hop.inputMint = pool.tokenBMint)

instance (hop : ArbHop) (pool : PoolState) : Decidable (Quotable hop pool) :=
  inferInstanceAs (Decidable (_ ∧ _))

theorem swap_reserves {p : HopParams} {amount : UInt64} {r : UInt64 × UInt64}
    (h : p.swap amount = some r) : p.reserveIn ≠ 0 ∧ p.reserveOut ≠ 0 := by
  obtain ⟨out, fee⟩ := r
  obtain ⟨⟨hin, hout, -, -⟩, -⟩ := MevSwap.swapBaseIn_some_iff.mp h
  exact ⟨hin, hout⟩

/-- A quote succeeds where the swap on the oriented reserves does. -/
theorem quoteWith_of_swap {emptyText : Pubkey → QuoteError} {pool : PoolState}
    {mint outMint : Pubkey} {reserveIn reserveOut amount out fee : UInt64}
    (horient : orient pool mint = some (reserveIn, reserveOut, outMint))
    (hswap : HopParams.swap ⟨reserveIn, reserveOut, pool.feeNumerator, pool.feeDenominator⟩
      amount = some (out, fee)) :
    ∃ q, quoteWith emptyText pool mint amount = .ok q ∧ q.amountOut = out := by
  obtain ⟨hin, hout⟩ := swap_reserves hswap
  rw [HopParams.swap] at hswap
  rw [quoteWith, horient]
  dsimp only at hin hout hswap ⊢
  rw [if_neg (not_or.mpr ⟨hin, hout⟩), hswap]
  exact ⟨_, rfl, rfl⟩

/-- A quote succeeds where the input mint is the pool's and the swap succeeds. -/
theorem quoteWith_iff {emptyText : Pubkey → QuoteError} {pool : PoolState} {mint : Pubkey}
    {amount out : UInt64} :
    (∃ q, quoteWith emptyText pool mint amount = .ok q ∧ q.amountOut = out) ↔
      (mint = pool.tokenAMint ∨ mint = pool.tokenBMint) ∧
        ∃ fee, (directedParams pool mint).swap amount = some (out, fee) := by
  constructor
  · rintro ⟨q, hq, rfl⟩
    obtain ⟨reserveIn, reserveOut, outMint, horient, hswap, -⟩ := quoteWith_spec hq
    rcases orient_some horient with ⟨hA, rfl, rfl⟩ | ⟨hA, hB, rfl, rfl⟩
    · refine ⟨Or.inl hA, q.feeAmount, ?_⟩
      rw [directedParams, if_pos hA]
      exact hswap
    · refine ⟨Or.inr hB, q.feeAmount, ?_⟩
      rw [directedParams, if_neg hA]
      exact hswap
  · rintro ⟨hmint, fee, hswap⟩
    by_cases hA : mint = pool.tokenAMint
    · have horient : orient pool mint = _ := if_pos hA
      rw [directedParams, if_pos hA] at hswap
      exact quoteWith_of_swap horient hswap
    · have horient : orient pool mint = _ :=
        (if_neg hA).trans (if_pos (hmint.resolve_left hA))
      rw [directedParams, if_neg hA] at hswap
      exact quoteWith_of_swap horient hswap

/-- The backrun strategy has the adapter of every DEX but Raydium CLMM. -/
theorem find_backrunAdapter (dexType : DexType) :
    (backrunAdapters F).find? (fun a => a.dexType = dexType) =
      if dexType = .raydiumClmm then none
      else (dexArbAdapters F).find? fun a => a.dexType = dexType := by
  cases dexType with
  | raydiumAmm => rfl
  | raydiumClmm => rfl
  | orcaWhirlpool => rfl
  | meteoraDlmm => rfl
  | phoenix => rfl

/-- **ONE HOP** yields what the swap on the decoded reserves yields. -/
theorem backrunQuote_iff {cache : AccountCache} {hop : ArbHop} {pool : PoolState}
    (hpool : accountPool F cache hop = some pool) {amount out : UInt64} :
    (∃ q, backrunQuote F cache hop amount = some q ∧ q.amountOut = out) ↔
      Quotable hop pool ∧
        ∃ fee, (directedParams pool hop.inputMint).swap amount = some (out, fee) := by
  obtain ⟨adapter, data, hfind, hdata, hdecode⟩ := accountPool_some_iff.mp hpool
  obtain ⟨emptyText, hquote⟩ := adapter_quote (List.mem_of_find?_eq_some hfind)
  by_cases hclmm : hop.dexType = .raydiumClmm
  · refine ⟨?_, fun h => absurd hclmm h.1.1⟩
    rintro ⟨q, hq, -⟩
    rw [backrunQuote, find_backrunAdapter, if_pos hclmm] at hq
    cases hq
  · have hsame : ∀ q, backrunQuote F cache hop amount = some q ↔
        quoteWith emptyText pool hop.inputMint amount = .ok q := by
      intro q
      rw [backrunQuote, find_backrunAdapter, if_neg hclmm, hfind, hdata]
      change (adapter.decodePool hop.poolAddress data).toOption.bind _ = some q ↔ _
      rw [hdecode, ← toOption_eq_some_iff, ← hquote]
      rfl
    simp only [hsame]
    rw [quoteWith_iff, Quotable]
    exact ⟨fun ⟨hmint, hswap⟩ => ⟨⟨hclmm, hmint⟩, hswap⟩, fun h => ⟨h.1.2, h.2⟩⟩

/-! ## The hop loop -/

theorem hopSteps_cons_iff (s : BackrunStrategy) {cache : AccountCache} {hop : ArbHop}
    {hops : List ArbHop} {amount final : UInt64} :
    (∃ steps, s.hopSteps F cache (hop :: hops) amount = some (steps, final)) ↔
      ∃ out, (∃ q, backrunQuote F cache hop amount = some q ∧ q.amountOut = out) ∧ out ≠ 0 ∧
        ∃ steps, s.hopSteps F cache hops out = some (steps, final) := by
  constructor
  · rintro ⟨steps, h⟩
    obtain ⟨q, hq, h⟩ := Option.bind_eq_some_iff.mp h
    split at h
    · cases h
    · rename_i hout
      obtain ⟨⟨rest, final'⟩, hrest, h⟩ := Option.bind_eq_some_iff.mp h
      obtain ⟨-, rfl⟩ := Prod.mk.inj (Option.some.inj h)
      exact ⟨q.amountOut, ⟨q, hq, rfl⟩, hout, rest, hrest⟩
  · rintro ⟨out, ⟨q, hq, rfl⟩, hout, steps, hrest⟩
    rw [BackrunStrategy.hopSteps, hq]
    simp only [bind, Option.bind, if_neg hout, hrest]
    exact ⟨_, rfl⟩

theorem runHops_cons_iff {p : HopParams} {hops : List HopParams} {amount final : UInt64} :
    runHops (p :: hops) amount = some final ↔
      ∃ out, (∃ fee, p.swap amount = some (out, fee)) ∧ out ≠ 0 ∧
        runHops hops out = some final := by
  rw [runHops]
  cases p.swap amount with
  | none =>
      constructor
      · intro h
        cases h
      · rintro ⟨out, ⟨fee, hnone⟩, -⟩
        cases hnone
  | some r =>
      obtain ⟨out, fee⟩ := r
      dsimp only
      split
      · rename_i hzero
        constructor
        · intro h
          cases h
        · rintro ⟨out', ⟨fee', hswap⟩, hout, -⟩
          obtain ⟨rfl, -⟩ := Prod.mk.inj (Option.some.inj hswap)
          exact absurd hzero hout
      · rename_i hout
        refine ⟨fun h => ⟨out, ⟨fee, rfl⟩, hout, h⟩, ?_⟩
        rintro ⟨out', ⟨fee', hswap⟩, -, h⟩
        obtain ⟨rfl, -⟩ := Prod.mk.inj (Option.some.inj hswap)
        exact h

variable (F) in
/-- The hop's parameters on the decoded reserves, no vault read. -/
def accountParams (cache : AccountCache) (hop : ArbHop) : Option HopParams :=
  (accountPool F cache hop).map (directedParams · hop.inputMint)

variable (F) in
/-- Every hop can be quoted on the pool its account decodes to. -/
def AllQuotable (cache : AccountCache) (hops : List ArbHop) : Prop :=
  ∀ hop ∈ hops, ∀ pool, accountPool F cache hop = some pool → Quotable hop pool

/-- **THE HOP LOOP** is the optimizer's run on the decoded reserves, if every hop
    can be quoted. -/
theorem hopSteps_iff (s : BackrunStrategy) {cache : AccountCache} {hops : List ArbHop}
    {params : List HopParams} (hparams : hops.mapM (accountParams F cache) = some params)
    {amount final : UInt64} :
    (∃ steps, s.hopSteps F cache hops amount = some (steps, final)) ↔
      AllQuotable F cache hops ∧ runHops params amount = some final := by
  induction hops generalizing params amount with
  | nil =>
      rw [List.mapM_nil] at hparams
      obtain rfl := Option.some.inj hparams
      constructor
      · rintro ⟨steps, h⟩
        obtain ⟨-, rfl⟩ := Prod.mk.inj (Option.some.inj h)
        exact ⟨fun hop hmem => absurd hmem List.not_mem_nil, rfl⟩
      · rintro ⟨-, h⟩
        obtain rfl := Option.some.inj h
        exact ⟨[], rfl⟩
  | cons hop hops ih =>
      obtain ⟨p, rest, rfl, hp, hrest⟩ := mapM_cons_some hparams
      obtain ⟨pool, hpool, rfl⟩ := Option.map_eq_some_iff.mp hp
      rw [hopSteps_cons_iff, runHops_cons_iff]
      simp only [backrunQuote_iff hpool, ih hrest]
      have hsplit : AllQuotable F cache (hop :: hops) ↔
          Quotable hop pool ∧ AllQuotable F cache hops := by
        rw [AllQuotable, List.forall_mem_cons, hpool]
        refine and_congr ⟨fun h => h pool rfl, fun h pool' hpool' => ?_⟩ Iff.rfl
        obtain rfl := Option.some.inj hpool'
        exact h
      rw [hsplit]
      constructor
      · rintro ⟨out, ⟨hquotable, hswap⟩, hout, hall, hrun⟩
        exact ⟨⟨hquotable, hall⟩, out, hswap, hout, hrun⟩
      · rintro ⟨⟨hquotable, hall⟩, out, hswap, hout, hrun⟩
        exact ⟨out, ⟨hquotable, hswap⟩, hout, hall, hrun⟩

/-! ## Agreement -/

/-- The backrun simulation returns an opportunity of the given profit. -/
def Returns (s : BackrunStrategy) (cache : AccountCache) (arbPath : ArbPath F)
    (profit : Int64) : Prop :=
  ∃ opp, s.simulateBackrunCycle cache arbPath = some opp ∧ opp.expectedProfitLamports = profit

theorem returns_iff {s : BackrunStrategy} {cache : AccountCache} {arbPath : ArbPath F}
    {final : UInt64} :
    Returns s cache arbPath (profitOf final START_AMOUNT) ↔
      ∃ steps, s.hopSteps F cache arbPath.hops START_AMOUNT = some (steps, final) := by
  constructor
  · rintro ⟨opp, hopp, hprofit⟩
    obtain ⟨⟨steps, final'⟩, hsteps, hopp⟩ := Option.bind_eq_some_iff.mp hopp
    obtain rfl := Option.some.inj hopp
    -- a wrapped difference still determines its minuend
    have hword : final'.toInt64 = final.toInt64 := (Int64.sub_left_inj _).mp hprofit
    have hfinal : final' = final := by
      rw [← UInt64.toUInt64_toInt64 final', hword, UInt64.toUInt64_toInt64]
    rw [← hfinal]
    exact ⟨steps, hsteps⟩
  · rintro ⟨steps, hsteps⟩
    exact ⟨_, Option.bind_eq_some_iff.mpr ⟨_, hsteps, rfl⟩, rfl⟩

/-- Where the first loop of `dex_arb` succeeds, every account decodes. -/
theorem accountParams_of_hopState {cache : AccountCache} {hops : List ArbHop}
    {states : List (PoolState × HopParams)} (hstates : hops.mapM (hopState F cache) = some states) :
    ∃ params, hops.mapM (accountParams F cache) = some params ∧
      ((∀ hop ∈ hops, ∀ pool, accountPool F cache hop = some pool → VaultsQuiet cache pool) →
        params = states.map (·.2)) := by
  induction hops generalizing states with
  | nil =>
      rw [List.mapM_nil] at hstates
      obtain rfl := Option.some.inj hstates
      exact ⟨[], rfl, fun _ => rfl⟩
  | cons hop hops ih =>
      obtain ⟨⟨pool, p⟩, rest, rfl, hstate, hrest⟩ := mapM_cons_some hstates
      obtain ⟨params, hparams, hquiet⟩ := ih hrest
      obtain ⟨decoded, hdecoded, rfl, rfl, -⟩ := hopState_some_iff.mp hstate
      refine ⟨directedParams decoded hop.inputMint :: params, ?_, fun h => ?_⟩
      · rw [List.mapM_cons, accountParams, hdecoded, hparams]
        rfl
      · rw [List.forall_mem_cons] at h
        rw [List.map_cons, hquiet h.2, (h.1 decoded hdecoded).populate]

/-- A Raydium AMM account carries no reserves. -/
theorem raydiumAmm_empty {cache : AccountCache} {hop : ArbHop} {p : HopParams}
    (htype : hop.dexType = .raydiumAmm) (h : accountParams F cache hop = some p) :
    p.reserveIn = 0 := by
  obtain ⟨pool, hpool, rfl⟩ := Option.map_eq_some_iff.mp h
  obtain ⟨adapter, data, hfind, -, hdecode⟩ := accountPool_some_iff.mp hpool
  rw [htype] at hfind
  obtain rfl : RaydiumAmmAdapter = adapter := Option.some.inj hfind
  obtain ⟨-, hA, hB⟩ := raydiumAmm_yields hop.poolAddress data pool hdecode
  rw [directedParams]
  split
  · exact hA
  · exact hB

/-- A quoted run on decoded reserves that ends goes through no Raydium pool. -/
theorem no_raydium {cache : AccountCache} {hops : List ArbHop} {params : List HopParams}
    (hparams : hops.mapM (accountParams F cache) = some params)
    (hquotable : AllQuotable F cache hops) {amount final : UInt64}
    (hrun : runHops params amount = some final) :
    ∀ hop ∈ hops, hop.dexType ≠ .raydiumAmm ∧ hop.dexType ≠ .raydiumClmm := by
  induction hops generalizing params amount with
  | nil =>
      intro hop hmem
      cases hmem
  | cons hop hops ih =>
      obtain ⟨p, rest, rfl, hp, hrest⟩ := mapM_cons_some hparams
      obtain ⟨out, ⟨fee, hswap⟩, -, hrun'⟩ := runHops_cons_iff.mp hrun
      obtain ⟨hhead, htail⟩ := List.forall_mem_cons.mp hquotable
      obtain ⟨pool, hpool, -⟩ := Option.map_eq_some_iff.mp hp
      refine List.forall_mem_cons.mpr
        ⟨⟨fun htype => ?_, (hhead pool hpool).1⟩, ih hrest htail hrun'⟩
      exact (swap_reserves hswap).1 (raydiumAmm_empty htype hp)

/-- **WHEN BACKRUN AGREES WITH DEX ARB**: on a cycle that `dex_arb` can turn into hop
    parameters and the optimizer runs to its end, the backrun simulation reports
    the optimizer's profit exactly when every hop can be quoted and the vault
    balances make no difference to the run.  It does where no vault is cached
    with a balance of its own, and never through a Raydium pool. -/
theorem backrun_agrees_iff (s : BackrunStrategy) {cache : AccountCache} {arbPath : ArbPath F}
    {states : List (PoolState × HopParams)} {final : UInt64}
    (hstates : arbPath.hops.mapM (hopState F cache) = some states)
    (hlive : runHops (states.map (·.2)) START_AMOUNT = some final) :
    (Returns s cache arbPath (MevMath.simulateCycle (states.map (·.2)) START_AMOUNT) ↔
        AllQuotable F cache arbPath.hops ∧
          (arbPath.hops.mapM (accountParams F cache)).bind (runHops · START_AMOUNT) =
            runHops (states.map (·.2)) START_AMOUNT) ∧
      (AllQuotable F cache arbPath.hops → (∀ hop ∈ arbPath.hops, ∀ pool,
          accountPool F cache hop = some pool → VaultsQuiet cache pool) →
        Returns s cache arbPath (MevMath.simulateCycle (states.map (·.2)) START_AMOUNT)) ∧
      (Returns s cache arbPath (MevMath.simulateCycle (states.map (·.2)) START_AMOUNT) →
        ∀ hop ∈ arbPath.hops, hop.dexType ≠ .raydiumAmm ∧ hop.dexType ≠ .raydiumClmm) := by
  obtain ⟨params, hparams, hquiet⟩ := accountParams_of_hopState hstates
  have hresult : MevMath.simulateCycle (states.map (·.2)) START_AMOUNT =
      profitOf final START_AMOUNT := by
    rw [MevMath.simulateCycle, if_neg (by decide), hlive]
  have hiff : Returns s cache arbPath (MevMath.simulateCycle (states.map (·.2)) START_AMOUNT) ↔
      AllQuotable F cache arbPath.hops ∧ runHops params START_AMOUNT = some final := by
    rw [hresult, returns_iff, hopSteps_iff s hparams]
  have hbind : (arbPath.hops.mapM (accountParams F cache)).bind (runHops · START_AMOUNT) =
      runHops params START_AMOUNT := by
    rw [hparams]
    rfl
  refine ⟨?_, fun hquotable hvaults => ?_, fun h => ?_⟩
  · rw [hiff, hbind, hlive]
  · refine hiff.mpr ⟨hquotable, ?_⟩
    rw [hquiet hvaults]
    exact hlive
  · obtain ⟨hquotable, hrun⟩ := hiff.mp h
    exact no_raydium hparams hquotable hrun

/-! ## What the strategy can return -/

/-- A hop that was quoted has a pool. -/
theorem accountPool_of_quote {cache : AccountCache} {hop : ArbHop} {amount : UInt64} {q : Quote}
    (h : backrunQuote F cache hop amount = some q) :
    ∃ pool, accountPool F cache hop = some pool := by
  obtain ⟨adapter, hfind, h⟩ := Option.bind_eq_some_iff.mp h
  obtain ⟨data, hdata, h⟩ := Option.bind_eq_some_iff.mp h
  obtain ⟨decoded, hdecode, h⟩ := Option.bind_eq_some_iff.mp h
  obtain ⟨pool, rfl, -⟩ := Option.bind_eq_some_iff.mp h
  rw [find_backrunAdapter] at hfind
  split at hfind
  · cases hfind
  · exact ⟨pool, accountPool_some_iff.mpr
      ⟨adapter, data, hfind, hdata, toOption_eq_some_iff.mp hdecode⟩⟩

theorem exists_hop {hops : List ArbHop} {steps : List SwapStep}
    (h : List.Forall₂ StepOf hops steps) : ∀ step ∈ steps, ∃ hop ∈ hops, StepOf hop step := by
  induction h with
  | nil =>
      intro step hstep
      cases hstep
  | cons hhead _ ih =>
      refine List.forall_mem_cons.mpr ⟨⟨_, List.mem_cons_self, hhead⟩, fun step hstep => ?_⟩
      obtain ⟨hop, hhop, hof⟩ := ih step hstep
      exact ⟨hop, List.mem_cons_of_mem _ hhop, hof⟩

/-- Buying through the Raydium AMM pool and selling through the Phoenix market. -/
def raydiumPhoenix : ArbPath ExactF64 :=
  { hops :=
      [⟨raydiumPool.address, .raydiumAmm, raydiumPool.tokenAMint, raydiumPool.tokenBMint, 0⟩,
        ⟨vaultedPool.address, .phoenix, vaultedPool.tokenBMint, vaultedPool.tokenAMint, 3⟩]
    profitRatio := .nan
    estimatedProfitLamports := 0 }

/-- The way there and back through the Phoenix market. -/
def phoenixPhoenix : ArbPath ExactF64 :=
  { hops :=
      [⟨vaultedPool.address, .phoenix, vaultedPool.tokenAMint, vaultedPool.tokenBMint, 2⟩,
        ⟨vaultedPool.address, .phoenix, vaultedPool.tokenBMint, vaultedPool.tokenAMint, 3⟩]
    profitRatio := .nan
    estimatedProfitLamports := 0 }

/-- The Phoenix market is cached, its vaults are not. -/
def phoenixCache : AccountCache :=
  AccountCache.new.update ⟨vaultedPool.address, 1, vaultedMarket, 0, PHOENIX⟩

/-- Both pools are cached, and the vaults of the Raydium pool. -/
def marketsCache : AccountCache :=
  ((phoenixCache.update ⟨raydiumPool.address, 1, raydiumMarket, 0, RAYDIUM_AMM_V4⟩).update
    (vaultAccount 5 1000000000000 1)).update (vaultAccount 6 4000000000000 1)

def sampleBackrun : BackrunStrategy := ⟨0, 0, 50, []⟩

theorem phoenix_pools :
    (∀ hop ∈ phoenixPhoenix.hops, accountPool ExactF64 phoenixCache hop = some vaultedPool) ∧
      (∀ hop ∈ phoenixPhoenix.hops, Quotable hop vaultedPool) ∧
      vaultBalance phoenixCache vaultedPool.tokenAVault = none ∧
      vaultBalance phoenixCache vaultedPool.tokenBVault = none := by
  decide +kernel

/-- Through the Phoenix market the two simulations agree. -/
theorem phoenix_agrees :
    Returns sampleBackrun phoenixCache phoenixPhoenix
      (MevMath.simulateCycle
        [⟨1000000000000, 2000000000000, 4, 10000⟩, ⟨2000000000000, 1000000000000, 4, 10000⟩]
        START_AMOUNT) := by
  obtain ⟨hpools, hquotable, hA, hB⟩ := phoenix_pools
  have hstates : phoenixPhoenix.hops.mapM (hopState ExactF64 phoenixCache) =
      some [(vaultedPool, ⟨1000000000000, 2000000000000, 4, 10000⟩),
        (vaultedPool, ⟨2000000000000, 1000000000000, 4, 10000⟩)] := by
    decide +kernel
  have hquiet : VaultsQuiet phoenixCache vaultedPool :=
    ⟨fun _ h => (nomatch hA.symm.trans h), fun _ h => (nomatch hB.symm.trans h)⟩
  have hlive : runHops
      [⟨1000000000000, 2000000000000, 4, 10000⟩, ⟨2000000000000, 1000000000000, 4, 10000⟩]
      START_AMOUNT = some 997206942 := by
    decide +kernel
  refine (backrun_agrees_iff sampleBackrun hstates hlive).2.1 ?_ ?_
  · intro hop hmem pool hpool
    obtain rfl := Option.some.inj ((hpools hop hmem).symm.trans hpool)
    exact hquotable hop hmem
  · intro hop hmem pool hpool
    obtain rfl := Option.some.inj ((hpools hop hmem).symm.trans hpool)
    exact hquiet

/-- The optimizer nearly doubles one SOL through the Raydium pool, and the backrun
    simulation returns nothing. -/
theorem raydium_disagrees :
    ∃ states, raydiumPhoenix.hops.mapM (hopState ExactF64 marketsCache) = some states ∧
      MevMath.simulateCycle (states.map (·.2)) START_AMOUNT = 988253737 ∧
      sampleBackrun.simulateBackrunCycle marketsCache raydiumPhoenix = none := by
  refine ⟨[({ raydiumPool with tokenAAmount := 1000000000000, tokenBAmount := 4000000000000 },
      ⟨1000000000000, 4000000000000, 25, 10000⟩),
    (vaultedPool, ⟨2000000000000, 1000000000000, 4, 10000⟩)], ?_, ?_, ?_⟩
  · decide +kernel
  · decide +kernel
  · decide +kernel

end MevBackrun
