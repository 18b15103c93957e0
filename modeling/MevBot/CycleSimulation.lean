import Mathlib.Data.List.Forall2
import MevBot.Strategies

/-! # Simulating a cycle on the cached pools

    `DexArbStrategy::simulate_cycle` prices a cycle twice: the optimizer on
    `HopParams`, then the chain of adapter quotes that fills in the swap steps.
    The two agree hop by hop (`quoteHop_swap`), so the profit of the quoted
    chain is the optimizer's (`buildSteps_runHops`), and when it is positive the
    wrapping subtraction that computed it did not wrap (`profitOf_exact`). -/

namespace MevSimulation

open MevMachine MevTypes MevMath MevDex MevSearch MevCache MevStrategy

/-! ## The optimizer's interval -/

/-- A third of the interval, in naturals. -/
theorem third_toNat {lo hi : UInt64} (hle : lo ≤ hi) :
    ((hi - lo) / 3).toNat = (hi.toNat - lo.toNat) / 3 := by
  rw [UInt64.toNat_div, UInt64.toNat_sub_of_le _ _ hle]
  rfl

/-- Both probes lie in the interval. -/
theorem probes_mem {lo hi : UInt64} (hle : lo ≤ hi) :
    (lo ≤ lo + (hi - lo) / 3 ∧ lo + (hi - lo) / 3 ≤ hi) ∧
      lo ≤ hi - (hi - lo) / 3 ∧ hi - (hi - lo) / 3 ≤ hi := by
  have hthird := third_toNat hle
  have hhi := hi.toNat_lt
  simp only [UInt64.le_iff_toNat_le] at hle ⊢
  constructor
  · rw [UInt64.toNat_add, hthird, Nat.mod_eq_of_lt (by omega)]
    omega
  · rw [UInt64.toNat_sub_of_le _ _ (by rw [UInt64.le_iff_toNat_le, hthird]; omega), hthird]
    omega

/-- The probing loop stays inside its interval. -/
theorem probe_bounds (hops : List HopParams) (n : Nat) (lo hi : UInt64) (hle : lo ≤ hi) :
    lo ≤ (probe hops n lo hi).1 ∧ (probe hops n lo hi).1 ≤ (probe hops n lo hi).2 ∧
      (probe hops n lo hi).2 ≤ hi := by
  induction n generalizing lo hi with
  | zero => exact ⟨UInt64.le_refl lo, hle, UInt64.le_refl hi⟩
  | succ n ih =>
      obtain ⟨hlo, hhi⟩ := probes_mem hle
      rw [probe]
      split
      · exact ⟨UInt64.le_refl lo, hle, UInt64.le_refl hi⟩
      · dsimp only
        split
        · obtain ⟨h1, h2, h3⟩ := ih (lo + (hi - lo) / 3) hi hlo.2
          exact ⟨UInt64.le_trans hlo.1 h1, h2, h3⟩
        · obtain ⟨h1, h2, h3⟩ := ih lo (hi - (hi - lo) / 3) hhi.1
          exact ⟨h1, h2, UInt64.le_trans h3 hhi.2⟩

/-- The midpoint of an interval whose ends do not overflow lies in it. -/
theorem midpoint_mem {lo hi : UInt64} (hle : lo ≤ hi) (hsum : lo.toNat + hi.toNat < 2 ^ 64) :
    lo ≤ (lo + hi) / 2 ∧ (lo + hi) / 2 ≤ hi := by
  have hmid : ((lo + hi) / 2).toNat = (lo.toNat + hi.toNat) / 2 := by
    rw [UInt64.toNat_div, UInt64.toNat_add, Nat.mod_eq_of_lt hsum]
    rfl
  simp only [UInt64.le_iff_toNat_le, hmid] at hle ⊢
  omega

/-- The optimizer's amount lies in its bounds, and its profit is the simulated
    one, unless it did not search at all. -/
theorem optimizeArbAmount_spec (hops : List HopParams) (maxInput minInput : UInt64)
    (hmax : maxInput.toNat ≤ 10000000000) (hlt : minInput < maxInput) :
    optimizeArbAmount hops maxInput minInput = (0, 0) ∨
      minInput ≤ (optimizeArbAmount hops maxInput minInput).1 ∧
        (optimizeArbAmount hops maxInput minInput).1 ≤ maxInput ∧
        (optimizeArbAmount hops maxInput minInput).2 =
          simulateCycle hops (optimizeArbAmount hops maxInput minInput).1 := by
  rw [optimizeArbAmount]
  split
  · exact Or.inl rfl
  · right
    -- fifty probes narrow the interval; its midpoint stays between the bounds
    obtain ⟨h1, h2, h3⟩ := probe_bounds hops 50 minInput maxInput (UInt64.le_of_lt hlt)
    have hhi := UInt64.le_iff_toNat_le.mp h3
    have hlo := UInt64.le_iff_toNat_le.mp h2
    obtain ⟨hge, hle⟩ := midpoint_mem h2 (by omega)
    exact ⟨UInt64.le_trans h1 hge, UInt64.le_trans hle h3, rfl⟩

/-- The optimizer finds nothing in an empty cycle. -/
theorem optimizeArbAmount_nil (maxInput minInput : UInt64) :
    optimizeArbAmount [] maxInput minInput = (0, 0) := if_pos (Or.inl rfl)

/-! ## The profit -/

theorem toInt64_toInt (x : UInt64) : x.toInt64.toInt = (x.toNat : Int).bmod (2 ^ 64) :=
  BitVec.toInt_eq_toNat_bmod x.toBitVec

theorem profitOf_toInt (current amountIn : UInt64) :
    (profitOf current amountIn).toInt =
      ((current.toNat : Int) - amountIn.toNat).bmod (2 ^ 64) := by
  rw [profitOf, Int64.toInt_sub, toInt64_toInt, toInt64_toInt]
  exact (Int.sub_bmod _ _ _).symm

/-- A positive wrapped profit is the exact difference. -/
theorem profitOf_exact {current amountIn : UInt64} (hin : amountIn.toNat ≤ 10000000000)
    (hpos : 0 < (profitOf current amountIn).toInt) :
    (profitOf current amountIn).toInt = (current.toNat : Int) - amountIn.toNat := by
  have hcur := current.toNat_lt
  -- the difference wraps only above 2^63, and then it is negative
  rw [profitOf_toInt, Int.bmod_def] at hpos ⊢
  split at hpos
  · rw [if_pos ‹_›]
    omega
  · rw [if_neg ‹_›]
    omega

/-! ## Quotes and hop parameters -/

variable {F : Type} [F64 F]

/-- What the first loop reads off the cache for a hop. -/
theorem hopState_spec {cache : AccountCache} {hop : ArbHop} {pool : PoolState} {p : HopParams}
    (h : hopState F cache hop = some (pool, p)) :
    p.reserveIn ≠ 0 ∧ p.reserveOut ≠ 0 ∧
      p = (if hop.inputMint = pool.tokenAMint then
          ⟨pool.tokenAAmount, pool.tokenBAmount, pool.feeNumerator, pool.feeDenominator⟩
        else ⟨pool.tokenBAmount, pool.tokenAAmount, pool.feeNumerator, pool.feeDenominator⟩) := by
  obtain ⟨adapter, -, h⟩ := Option.bind_eq_some_iff.mp h
  obtain ⟨data, -, h⟩ := Option.bind_eq_some_iff.mp h
  obtain ⟨decoded, -, h⟩ := Option.bind_eq_some_iff.mp h
  obtain ⟨pool', -, h⟩ := Option.bind_eq_some_iff.mp h
  by_cases hA : hop.inputMint = (populateReserves cache pool').tokenAMint
  · simp only [if_pos hA] at h
    split at h
    · cases h
    · rename_i hz
      obtain ⟨rfl, rfl⟩ := Prod.mk.inj (Option.some.inj h)
      rw [if_pos hA]
      exact ⟨fun h => hz (Or.inl h), fun h => hz (Or.inr h), rfl⟩
  · simp only [if_neg hA] at h
    split at h
    · cases h
    · rename_i hz
      obtain ⟨rfl, rfl⟩ := Prod.mk.inj (Option.some.inj h)
      rw [if_neg hA]
      exact ⟨fun h => hz (Or.inl h), fun h => hz (Or.inr h), rfl⟩

/-- Every adapter quotes by the shared quoting code. -/
theorem adapter_quote {adapter : DexAdapter} (h : adapter ∈ dexArbAdapters F) :
    ∃ emptyText, adapter.quote = quoteWith emptyText := by
  rcases dexArbAdapters_cases h with rfl | rfl | rfl | rfl | rfl
  · exact ⟨_, rfl⟩
  · exact ⟨_, rfl⟩
  · exact ⟨_, rfl⟩
  · exact ⟨_, rfl⟩
  · exact ⟨_, rfl⟩

/-- The two directions through a pool. -/
theorem orient_some {pool : PoolState} {mint outMint : Pubkey} {reserveIn reserveOut : UInt64}
    (h : orient pool mint = some (reserveIn, reserveOut, outMint)) :
    (mint = pool.tokenAMint ∧ reserveIn = pool.tokenAAmount ∧ reserveOut = pool.tokenBAmount) ∨
      (mint ≠ pool.tokenAMint ∧ mint = pool.tokenBMint ∧ reserveIn = pool.tokenBAmount ∧
        reserveOut = pool.tokenAAmount) := by
  rw [orient] at h
  split at h
  · rename_i hA
    obtain ⟨rfl, hrest⟩ := Prod.mk.inj (Option.some.inj h)
    obtain ⟨rfl, -⟩ := Prod.mk.inj hrest
    exact Or.inl ⟨hA, rfl, rfl⟩
  · rename_i hA
    split at h
    · rename_i hB
      obtain ⟨rfl, hrest⟩ := Prod.mk.inj (Option.some.inj h)
      obtain ⟨rfl, -⟩ := Prod.mk.inj hrest
      exact Or.inr ⟨hA, hB, rfl, rfl⟩
    · cases h

/-- A successful quote is a swap on the reserves in the direction of the input. -/
theorem quoteWith_spec {emptyText : Pubkey → QuoteError} {pool : PoolState} {mint : Pubkey}
    {amount : UInt64} {q : Quote} (h : quoteWith emptyText pool mint amount = .ok q) :
    ∃ reserveIn reserveOut outMint, orient pool mint = some (reserveIn, reserveOut, outMint) ∧
      swapBaseIn reserveIn reserveOut amount pool.feeNumerator pool.feeDenominator =
        some (q.amountOut, q.feeAmount) ∧
      q.inputMint = mint ∧ q.outputMint = outMint ∧ q.amountIn = amount := by
  rw [quoteWith] at h
  split at h
  · cases h
  · rename_i reserveIn reserveOut outMint horient
    split at h
    · cases h
    · split at h
      · cases h
      · rename_i amountOut feeAmount hswap
        obtain rfl := Except.ok.inj h
        exact ⟨reserveIn, reserveOut, outMint, horient, hswap, rfl, rfl, rfl⟩

/-- **THE QUOTE IS THE OPTIMIZER'S SWAP**: both orient the pool alike. -/
theorem quoteHop_swap {cache : AccountCache} {hop : ArbHop} {pool : PoolState} {p : HopParams}
    (hstate : hopState F cache hop = some (pool, p)) {amount : UInt64} {q : Quote}
    (hquote : quoteHop F hop pool amount = some q) :
    p.swap amount = some (q.amountOut, q.feeAmount) := by
  obtain ⟨-, -, hp⟩ := hopState_spec hstate
  obtain ⟨adapter, hfind, hq⟩ := Option.bind_eq_some_iff.mp hquote
  obtain ⟨emptyText, htext⟩ := adapter_quote (List.mem_of_find?_eq_some hfind)
  have hok : quoteWith emptyText pool hop.inputMint amount = .ok q := by
    rw [← htext]
    cases hres : adapter.quote pool hop.inputMint amount with
    | error e =>
        rw [hres] at hq
        cases hq
    | ok q' =>
        rw [hres] at hq
        exact congrArg Except.ok (Option.some.inj hq)
  obtain ⟨reserveIn, reserveOut, outMint, horient, hswap, -⟩ := quoteWith_spec hok
  rw [hp]
  -- `quote` and the first loop compare the same mint with the A side
  rcases orient_some horient with ⟨hA, rfl, rfl⟩ | ⟨hA, -, rfl, rfl⟩
  · rw [if_pos hA]
    exact hswap
  · rw [if_neg hA]
    exact hswap

/-! ## The chain of steps -/

/-- A step as the hop it was made from; the edge index is not used. -/
def hopOfStep (step : SwapStep) : ArbHop :=
  { poolAddress := step.poolAddress, dexType := step.dexType, inputMint := step.inputMint,
    outputMint := step.outputMint, edgeIndex := 0 }

/-- The adapter's quote for a step on the pool the cache holds. -/
def cachedQuote (F : Type) [F64 F] (cache : AccountCache) (step : SwapStep) : Option Quote := do
  let (pool, _) ← hopState F cache (hopOfStep step)
  quoteHop F (hopOfStep step) pool step.amountIn

/-- Each step trades the amount the previous one is quoted, down to `final`. -/
def QuotedChain (F : Type) [F64 F] (cache : AccountCache) :
    UInt64 → List SwapStep → UInt64 → Prop
  | amount, [], final => final = amount
  | amount, step :: steps, final =>
      step.amountIn = amount ∧ ∃ q, cachedQuote F cache step = some q ∧
        QuotedChain F cache q.amountOut steps final

/-- A step made from a hop. -/
def StepOf (hop : ArbHop) (step : SwapStep) : Prop :=
  step.poolAddress = hop.poolAddress ∧ step.dexType = hop.dexType ∧
    step.inputMint = hop.inputMint ∧ step.outputMint = hop.outputMint ∧ step.instructions = []

/-- A loop that reads one value for each element, from its first element on. -/
theorem mapM_cons_some {α β : Type} {f : α → Option β} {x : α} {xs : List α} {ys : List β}
    (h : (x :: xs).mapM f = some ys) :
    ∃ y rest, ys = y :: rest ∧ f x = some y ∧ xs.mapM f = some rest := by
  rw [List.mapM_cons] at h
  obtain ⟨y, hy, h⟩ := Option.bind_eq_some_iff.mp h
  obtain ⟨rest, hrest, h⟩ := Option.bind_eq_some_iff.mp h
  exact ⟨y, rest, (Option.some.inj h).symm, hy, hrest⟩

/-- **THE SECOND LOOP**: one step for each hop, chained by cached quotes, ending in
    the optimizer's output. -/
theorem buildSteps_spec {cache : AccountCache} {hops : List ArbHop}
    {states : List (PoolState × HopParams)} {amount final : UInt64} {steps : List SwapStep}
    (hstates : hops.mapM (hopState F cache) = some states)
    (hsteps : buildSteps F (hops.zip (states.map (·.1))) amount = some (steps, final)) :
    List.Forall₂ StepOf hops steps ∧ QuotedChain F cache amount steps final ∧
      runHops (states.map (·.2)) amount = some final := by
  induction hops generalizing states amount steps with
  | nil =>
      rw [List.mapM_nil] at hstates
      obtain rfl := Option.some.inj hstates
      obtain ⟨rfl, rfl⟩ := Prod.mk.inj (Option.some.inj hsteps)
      exact ⟨List.Forall₂.nil, rfl, rfl⟩
  | cons hop hops ih =>
      obtain ⟨⟨pool, p⟩, rest, rfl, hstate, hrest⟩ := mapM_cons_some hstates
      change buildSteps F ((hop, pool) :: hops.zip (rest.map (·.1))) amount = _ at hsteps
      rw [buildSteps] at hsteps
      obtain ⟨q, hquote, hsteps⟩ := Option.bind_eq_some_iff.mp hsteps
      split at hsteps
      · cases hsteps
      -- the second loop gives up on an output of zero, and so does the optimizer
      · rename_i hout
        obtain ⟨⟨tail, final'⟩, htail, hsteps⟩ := Option.bind_eq_some_iff.mp hsteps
        obtain ⟨rfl, rfl⟩ := Prod.mk.inj (Option.some.inj hsteps)
        obtain ⟨hforall, hchain, hrun⟩ := ih hrest htail
        refine ⟨List.Forall₂.cons ⟨rfl, rfl, rfl, rfl, rfl⟩ hforall, ⟨rfl, q, ?_, hchain⟩, ?_⟩
        · rw [cachedQuote]
          exact Option.bind_eq_some_iff.mpr ⟨(pool, p), hstate, hquote⟩
        · rw [List.map_cons, runHops, quoteHop_swap hstate hquote]
          show (if q.amountOut = 0 then none else _) = _
          rw [if_neg hout]
          exact hrun

/-! ## The whole simulation -/

/-- What an emitted opportunity of `simulate_cycle` is, for the hops of a cycle. -/
structure Simulated (F : Type) [F64 F] (cache : AccountCache) (hops : List ArbHop)
    (opp : Opportunity) (amount final : UInt64) : Prop where
  steps : List.Forall₂ StepOf hops opp.path
  nonempty : hops ≠ []
  amount_ge : MIN_INPUT ≤ amount
  amount_le : amount ≤ MAX_INPUT
  chain : QuotedChain F cache amount opp.path final
  optimal : ∃ states, hops.mapM (hopState F cache) = some states ∧
    optimizeArbAmount (states.map (·.2)) MAX_INPUT MIN_INPUT =
      (amount, opp.expectedProfitLamports)
  positive : 0 < opp.expectedProfitLamports.toInt
  exact : opp.expectedProfitLamports.toInt = (final.toNat : Int) - amount.toNat

/-- **`simulate_cycle`** emits a chain of cached quotes whose exact profit is the
    optimizer's. -/
theorem simulateCycle_spec {cache : AccountCache} {arbPath : ArbPath F} {opp : Opportunity}
    (h : DexArbStrategy.simulateCycle cache arbPath = some opp) :
    ∃ amount final, Simulated F cache arbPath.hops opp amount final := by
  obtain ⟨states, hstates, h⟩ := Option.bind_eq_some_iff.mp h
  have hspec := optimizeArbAmount_spec (states.map (·.2)) MAX_INPUT MIN_INPUT
    (by decide) (by decide)
  obtain ⟨amount, profit, hopt⟩ :
      ∃ a p, optimizeArbAmount (states.map (·.2)) MAX_INPUT MIN_INPUT = (a, p) := ⟨_, _, rfl⟩
  rw [hopt] at hspec h
  change (if profit ≤ 0 ∨ amount = 0 then none else _) = _ at h
  split at h
  · cases h
  · rename_i hgood
    obtain ⟨hprofit, hamount⟩ := not_or.mp hgood
    obtain ⟨⟨steps, final⟩, hsteps, h⟩ := Option.bind_eq_some_iff.mp h
    obtain rfl := Option.some.inj h
    obtain ⟨hforall, hchain, hrun⟩ := buildSteps_spec hstates hsteps
    -- an amount of zero was rejected, so the optimizer ended on its midpoint
    rcases hspec with hzero | ⟨hge, hle, hsim⟩
    · exact absurd (Prod.mk.inj hzero).1 hamount
    · have hsim' : profit = profitOf final amount := by
        rw [show profit = simulateCycle (states.map (·.2)) amount from hsim,
          MevMath.simulateCycle, if_neg hamount, hrun]
      have hpos : 0 < (profitOf final amount).toInt := by
        rw [← hsim']
        exact Int64.lt_iff_toInt_lt.mp (Int64.not_le.mp hprofit)
      have hne : arbPath.hops ≠ [] := by
        intro hnil
        rw [hnil, List.mapM_nil] at hstates
        obtain rfl := Option.some.inj hstates
        rw [List.map_nil, optimizeArbAmount_nil] at hopt
        exact hamount (Prod.mk.inj hopt).1.symm
      refine ⟨amount, final, hforall, hne, hge, hle, hchain, ⟨states, hstates, ?_⟩, hpos, ?_⟩
      · rw [hopt, hsim']
      · exact profitOf_exact (UInt64.le_iff_toNat_le.mp hle) hpos

end MevSimulation
