import MevBot.AccountCache
import MevBot.CycleSearch
import MevBot.DexAdapters
import MevBot.LendingAdapters

/-! # The two strategies

    `DexArbStrategy` turns pool updates into graph updates, searches the graph
    from every anchor mint and simulates the cycles found on the CACHED pool
    states.  `LiquidationStrategy` looks at one obligation account at a time.
    The account cache is shared with the cache updater, so every call takes
    the content it reads as an argument. -/

namespace MevStrategy

open MevMachine MevTypes MevMath MevDex MevLending MevGraph MevSearch MevCache

variable {F : Type}

/-! ## Vaults -/

/-- `VaultTracker`: the discovered vault keys. -/
structure VaultTracker where
  vaults : List Pubkey

/-- `VaultTracker::register_vaults`. -/
def VaultTracker.registerVaults (t : VaultTracker) (vaultA vaultB : Pubkey) : VaultTracker :=
  ⟨(t.vaults.insert vaultA).insert vaultB⟩

/-- `VaultTracker::is_vault`. -/
def VaultTracker.isVault (t : VaultTracker) (pubkey : Pubkey) : Bool :=
  decide (pubkey ∈ t.vaults)

/-- `parse_token_account_amount`: the balance of an SPL token account. -/
def parseTokenAccountAmount (data : List UInt8) : Option UInt64 :=
  if data.length < 72 then none
  else some (UInt64.ofNat (fromLeBytes ((data.drop 64).take 8)))

/-- The balance the cache holds for a vault, if it parses. -/
def vaultBalance (cache : AccountCache) (vault : Pubkey) : Option UInt64 :=
  (cache.getData vault).bind parseTokenAccountAmount

/-- `populate_reserves`: a cached vault balance replaces the decoded reserve. -/
def populateReserves (cache : AccountCache) (pool : PoolState) : PoolState :=
  { pool with
    tokenAAmount := (vaultBalance cache pool.tokenAVault).getD pool.tokenAAmount
    tokenBAmount := (vaultBalance cache pool.tokenBVault).getD pool.tokenBAmount }

/-! ## DEX arbitrage -/

variable (F) in
/-- The adapters of `DexArbStrategy::new`. -/
def dexArbAdapters [F64 F] : List DexAdapter :=
  [RaydiumAmmAdapter, RaydiumClmmAdapter F, OrcaWhirlpoolAdapter F, MeteoraDlmmAdapter F,
    PhoenixAdapter]

theorem dexArbAdapters_cases [F64 F] {adapter : DexAdapter} (h : adapter ∈ dexArbAdapters F) :
    adapter = RaydiumAmmAdapter ∨ adapter = RaydiumClmmAdapter F ∨
      adapter = OrcaWhirlpoolAdapter F ∨ adapter = MeteoraDlmmAdapter F ∨
      adapter = PhoenixAdapter := by
  simpa only [dexArbAdapters, List.mem_cons, List.not_mem_nil, or_false] using h

/-- The strategy's own state. -/
structure DexArbStrategy (F : Type) where
  /-- The snapshot published for other readers. -/
  graph : PriceGraph F
  mutableGraph : PriceGraph F
  vaultTracker : VaultTracker
  minProfitLamports : Int64
  maxHops : Nat
  anchorMints : List Pubkey
  updatesSincePublish : UInt32

/-- `DexArbStrategy::new`. -/
def DexArbStrategy.new (minProfitLamports : Int64) (maxHops : Nat) (anchorMints : List Pubkey) :
    DexArbStrategy F :=
  { graph := PriceGraph.new, mutableGraph := PriceGraph.new, vaultTracker := ⟨[]⟩,
    minProfitLamports, maxHops, anchorMints, updatesSincePublish := 0 }

/-- The pool an adapter reads off an update of one of its accounts. -/
def decodeUpdate (adapter : DexAdapter) (update : AccountUpdate) : Option PoolState :=
  if update.owner = adapter.programId then
    match adapter.decodePool update.pubkey update.data with
    | .ok (some pool) => some { pool with slot := update.slot }
    | _ => none
  else none

variable (F) in
/-- The adapter loop of `try_decode_pool`: the first adapter that decodes. -/
def decodeAny [F64 F] (update : AccountUpdate) : Option PoolState :=
  (dexArbAdapters F).findSome? (decodeUpdate · update)

/-- `try_decode_pool`: registers the vaults and fills in the cached reserves. -/
def DexArbStrategy.tryDecodePool [F64 F] (s : DexArbStrategy F) (cache : AccountCache)
    (update : AccountUpdate) : DexArbStrategy F × Option PoolState :=
  match decodeAny F update with
  | none => (s, none)
  | some pool =>
      ({ s with
          vaultTracker := s.vaultTracker.registerVaults pool.tokenAVault pool.tokenBVault },
        some (populateReserves cache pool))

variable (F) in
/-- One hop of the first loop of `simulate_cycle`: the pool as the cache has it
    now, and its parameters in the direction of the hop. -/
def hopState [F64 F] (cache : AccountCache) (hop : ArbHop) : Option (PoolState × HopParams) := do
  let adapter ← (dexArbAdapters F).find? fun a => a.dexType = hop.dexType
  let poolData ← cache.getData hop.poolAddress
  let decoded ← (adapter.decodePool hop.poolAddress poolData).toOption
  let pool ← decoded
  let pool := populateReserves cache pool
  let (reserveIn, reserveOut) :=
    if hop.inputMint = pool.tokenAMint then (pool.tokenAAmount, pool.tokenBAmount)
    else (pool.tokenBAmount, pool.tokenAAmount)
  if reserveIn = 0 ∨ reserveOut = 0 then none
  else some (pool, ⟨reserveIn, reserveOut, pool.feeNumerator, pool.feeDenominator⟩)

variable (F) in
/-- The adapter's quote for a hop. -/
def quoteHop [F64 F] (hop : ArbHop) (pool : PoolState) (amountIn : UInt64) : Option Quote := do
  let adapter ← (dexArbAdapters F).find? fun a => a.dexType = hop.dexType
  (adapter.quote pool hop.inputMint amountIn).toOption

variable (F) in
/-- The second loop of `simulate_cycle`: the swap steps from `currentAmount` on,
    and the final output. -/
def buildSteps [F64 F] : List (ArbHop × PoolState) → UInt64 → Option (List SwapStep × UInt64)
  | [], currentAmount => some ([], currentAmount)
  | (hop, pool) :: rest, currentAmount => do
      let quote ← quoteHop F hop pool currentAmount
      if quote.amountOut = 0 then none
      else
        -- 0.5% slippage buffer; the product wraps
        let minOut := quote.amountOut * 995 / 1000
        let (steps, final) ← buildSteps rest quote.amountOut
        some ({ poolAddress := hop.poolAddress, dexType := hop.dexType,
                inputMint := hop.inputMint, outputMint := hop.outputMint,
                amountIn := currentAmount, minAmountOut := minOut,
                instructions := [] } :: steps, final)

def MAX_INPUT : UInt64 := 10000000000
def MIN_INPUT : UInt64 := 1000000

/-- `DexArbStrategy::simulate_cycle`. -/
def DexArbStrategy.simulateCycle [F64 F] (cache : AccountCache) (arbPath : ArbPath F) :
    Option Opportunity := do
  let states ← arbPath.hops.mapM (hopState F cache)
  let (optimalAmount, maxProfit) := optimizeArbAmount (states.map (·.2)) MAX_INPUT MIN_INPUT
  if maxProfit ≤ 0 ∨ optimalAmount = 0 then none
  else
    let (steps, final) ← buildSteps F (arbPath.hops.zip (states.map (·.1))) optimalAmount
    -- the advertised profit is recomputed from the quotes
    some { strategy := "dex_arb", path := steps,
           expectedProfitLamports := profitOf final optimalAmount,
           estimatedComputeUnits := 200000 * UInt32.ofNat arbPath.numHops,
           detectedAtSlot := 0 }

/-- The cycles `find_opportunities` looks at for one anchor. -/
def DexArbStrategy.anchorCycles [F64 F] (s : DexArbStrategy F) (anchor : Pubkey) :
    List (ArbPath F) :=
  match s.mutableGraph.tokens.getIndex anchor with
  | some anchorIdx => findCyclesDfs s.mutableGraph anchorIdx s.maxHops 0.0001
  | none => []

/-- `find_opportunities`. -/
def DexArbStrategy.findOpportunities [F64 F] (s : DexArbStrategy F) (cache : AccountCache) :
    List Opportunity :=
  s.anchorMints.flatMap fun anchor =>
    (s.anchorCycles anchor).filterMap fun cycle =>
      (DexArbStrategy.simulateCycle cache cycle).filter fun opp =>
        decide (opp.expectedProfitLamports ≥ s.minProfitLamports)

/-- The graph update and snapshot publication of `process_update`. -/
def DexArbStrategy.absorb [F64 F] (s : DexArbStrategy F) (pool : PoolState) : DexArbStrategy F :=
  let mutableGraph := s.mutableGraph.updatePool pool
  let updates := s.updatesSincePublish + 1
  -- every hundredth update is published for other readers
  if updates ≥ 100 then { s with mutableGraph, graph := mutableGraph, updatesSincePublish := 0 }
  else { s with mutableGraph, updatesSincePublish := updates }

/-- `DexArbStrategy::process_update`. -/
def DexArbStrategy.processUpdate [F64 F] (s : DexArbStrategy F) (cache : AccountCache)
    (update : AccountUpdate) : DexArbStrategy F × List Opportunity :=
  match s.tryDecodePool cache update with
  | (s, some pool) =>
      let s := s.absorb pool
      (s, s.findOpportunities cache)
  | (s, none) => (s, [])

/-- The strategy after a sequence of updates, each processed on the cache
    content of its moment. -/
def DexArbStrategy.run [F64 F] (s : DexArbStrategy F)
    (updates : List (AccountCache × AccountUpdate)) : DexArbStrategy F :=
  updates.foldl (fun s u => (s.processUpdate u.1 u.2).1) s

/-! ## Liquidation -/

/-- `LiquidationStrategy`; its cache is never read. -/
structure LiquidationStrategy where
  minBonusBps : UInt16
  minBorrowValueUsd : UInt64

variable (F) in
/-- The adapters of `LiquidationStrategy::new`. -/
def lendingAdapters [F64 F] : List (LendingAdapter F) :=
  [KaminoAdapter F, MarginfiAdapter F, SaveAdapter F]

/-- The liquidation of an obligation as a one-step path. -/
def liquidationStep (obligation : ObligationState F) (repayAmount : UInt64) : SwapStep :=
  { poolAddress := obligation.address
    dexType := .raydiumAmm
    inputMint := (obligation.borrows.head?.map (·.mint)).getD Pubkey.default
    outputMint := (obligation.deposits.head?.map (·.mint)).getD Pubkey.default
    amountIn := repayAmount
    minAmountOut := 0
    instructions := [] }

/-- `evaluate_obligation`. -/
def LiquidationStrategy.evaluateObligation [F64 F] (s : LiquidationStrategy)
    (obligation : ObligationState F) : Option Opportunity :=
  if !obligation.isLiquidatable then none
  else if obligation.liquidationBonusBps < s.minBonusBps then none
  else if obligation.totalBorrowUsd < s.minBorrowValueUsd then none
  else
    let repayAmount := obligation.maxLiquidationAmount
    if repayAmount = 0 then none
    else
      let bonusRate : F := F64.ofNat obligation.liquidationBonusBps.toNat / 10000.0
      let estimatedProfit := F64.toI64 (F64.ofNat repayAmount.toNat * bonusRate)
      some { strategy := "liquidation_" ++ obligation.protocol.display
             path := [liquidationStep obligation repayAmount]
             expectedProfitLamports := estimatedProfit
             estimatedComputeUnits := 400000
             detectedAtSlot := obligation.slot }

/-- The obligation an adapter reads off an update of one of its accounts. -/
def decodeObligationUpdate (adapter : LendingAdapter F) (update : AccountUpdate) :
    Option (ObligationState F) :=
  if update.owner = adapter.programId then
    match adapter.decodeObligation update.pubkey update.data with
    | .ok (some obligation) => some obligation
    | _ => none
  else none

variable (F) in
/-- `LiquidationStrategy::process_update`: the first obligation decoded decides. -/
def LiquidationStrategy.processUpdate [F64 F] (s : LiquidationStrategy)
    (update : AccountUpdate) : Option Opportunity :=
  ((lendingAdapters F).findSome? (decodeObligationUpdate · update)).bind s.evaluateObligation

end MevStrategy
