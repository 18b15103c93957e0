import MevBot.ConstantProduct

/-! # The DEX adapters

    Five adapters decode program accounts into `PoolState` and quote swaps on
    the decoded reserves.  Decoding never returns an error: `ok none` is "not a
    pool", and the only failure left is a panic on a short slice.  Four of the
    adapters derive VIRTUAL reserves from prices held in the account; Raydium
    AMM leaves its reserves zero, to be filled from the vault accounts. -/

namespace MevDex

open MevMachine MevTypes MevMath

variable {F : Type}

/-! ## Quoting -/

/-- The errors of `quote`, with the values their messages name. -/
inductive QuoteError where
  /-- "Input mint {} not in pool {}" -/
  | inputMintNotInPool (inputMint pool : Pubkey)
  /-- "Pool {} has zero reserves" -/
  | zeroReserves (pool : Pubkey)
  /-- "Pool {} has zero virtual reserves" -/
  | zeroVirtualReserves (pool : Pubkey)
  /-- "Swap math overflow for pool {}" -/
  | swapMathOverflow (pool : Pubkey)
deriving DecidableEq, Repr

/-- Reserves and output mint in the direction of the input mint. -/
def orient (pool : PoolState) (inputMint : Pubkey) : Option (UInt64 × UInt64 × Pubkey) :=
  if inputMint = pool.tokenAMint then
    some (pool.tokenAAmount, pool.tokenBAmount, pool.tokenBMint)
  else if inputMint = pool.tokenBMint then
    some (pool.tokenBAmount, pool.tokenAAmount, pool.tokenAMint)
  else none

/-- `quote`, the same in all five adapters up to the text for empty reserves. -/
def quoteWith (emptyText : Pubkey → QuoteError)
    (pool : PoolState) (inputMint : Pubkey) (amountIn : UInt64) : Except QuoteError Quote :=
  match orient pool inputMint with
  | none => .error (.inputMintNotInPool inputMint pool.address)
  | some (reserveIn, reserveOut, outputMint) =>
      if reserveIn = 0 ∨ reserveOut = 0 then .error (emptyText pool.address)
      else
        match swapBaseIn reserveIn reserveOut amountIn pool.feeNumerator pool.feeDenominator with
        | none => .error (.swapMathOverflow pool.address)
        | some (amountOut, feeAmount) =>
            .ok { inputMint, outputMint, amountIn, amountOut, feeAmount,
                  priceImpactBps := priceImpactBps reserveIn reserveOut amountIn amountOut }

/-! ## Raydium AMM V4 -/

namespace RaydiumAmm

/-- A `u64`. -/
def STATUS_OFFSET : Nat := 0
/-- The swap fee, a fraction of two `u64`s. -/
def SWAP_FEE_NUM_OFFSET : Nat := 176
/-- Its denominator. -/
def SWAP_FEE_DEN_OFFSET : Nat := 184
/-- The vault of the coin side, a key. -/
def COIN_VAULT_OFFSET : Nat := 336
/-- The vault of the pc side. -/
def PC_VAULT_OFFSET : Nat := 368
/-- The mint that becomes the pool's A side. -/
def COIN_MINT_OFFSET : Nat := 400
/-- The mint that becomes its B side. -/
def PC_MINT_OFFSET : Nat := 432
/-- A shorter account is no pool. -/
def AMM_INFO_SIZE : Nat := 752
/-- The status of most active pools. -/
def STATUS_SWAP_ONLY : UInt64 := 6
/-- The other status that is accepted. -/
def STATUS_INITIALIZED : UInt64 := 1

/-- `RaydiumAmmAdapter::decode_pool`. -/
def decodePool (address : Pubkey) (data : List UInt8) : Rust (Option PoolState) := do
  if data.length < AMM_INFO_SIZE then return none
  let status ← readU64 data STATUS_OFFSET
  if status ≠ STATUS_INITIALIZED ∧ status ≠ STATUS_SWAP_ONLY then return none
  let coinMint ← readPubkey data COIN_MINT_OFFSET
  let pcMint ← readPubkey data PC_MINT_OFFSET
  let coinVault ← readPubkey data COIN_VAULT_OFFSET
  let pcVault ← readPubkey data PC_VAULT_OFFSET
  let swapFeeNumerator ← readU64 data SWAP_FEE_NUM_OFFSET
  let swapFeeDenominator ← readU64 data SWAP_FEE_DEN_OFFSET
  return some
    { address, dexType := .raydiumAmm, tokenAMint := coinMint, tokenBMint := pcMint,
      tokenAVault := coinVault, tokenBVault := pcVault, tokenAAmount := 0, tokenBAmount := 0,
      feeNumerator := swapFeeNumerator, feeDenominator := swapFeeDenominator, slot := 0 }

/-- `RaydiumAmmAdapter::quote`. -/
def quote := quoteWith .zeroReserves

end RaydiumAmm

/-! ## Raydium CLMM -/

variable (F) in
/-- `L / sqrt_price` and `L * sqrt_price` as `u64`, the price being Q64.64. -/
def virtualReserves [F64 F] (liquidity sqrtPriceX64 : Nat) : UInt64 × UInt64 :=
  let sqrtPrice : F := F64.ofNat sqrtPriceX64 / F64.ofNat (2 ^ 64)
  let liquidityF : F := F64.ofNat liquidity
  (if F64.lt 0.0 sqrtPrice then F64.toU64 (liquidityF / sqrtPrice) else 0,
    F64.toU64 (liquidityF * sqrtPrice))

namespace RaydiumClmm

/-- The A side's mint. -/
def TOKEN_MINT_0_OFFSET : Nat := 73
/-- The B side's mint. -/
def TOKEN_MINT_1_OFFSET : Nat := 105
/-- The A side's vault. -/
def TOKEN_VAULT_0_OFFSET : Nat := 137
/-- The B side's vault. -/
def TOKEN_VAULT_1_OFFSET : Nat := 169
/-- The liquidity in range, a `u128`. -/
def LIQUIDITY_OFFSET : Nat := 237
/-- The square root of the price, a `u128` in Q64.64. -/
def SQRT_PRICE_X64_OFFSET : Nat := 253
/-- The current tick, an `i32` that is read and not used. -/
def TICK_CURRENT_OFFSET : Nat := 269
/-- A byte of flags. -/
def STATUS_OFFSET : Nat := 277
/-- Discriminator and body; a shorter account is no pool. -/
def POOL_STATE_SIZE : Nat := 1544
/-- The flag without which a pool is turned away. -/
def STATUS_SWAP : UInt8 := 4

variable (F) in
/-- `RaydiumClmmAdapter::decode_pool`. -/
def decodePool [F64 F] (address : Pubkey) (data : List UInt8) : Rust (Option PoolState) := do
  if data.length < POOL_STATE_SIZE then return none
  let status ← readU8 data STATUS_OFFSET
  if status &&& STATUS_SWAP = 0 then return none
  let liquidity ← readU128 data LIQUIDITY_OFFSET
  let sqrtPriceX64 ← readU128 data SQRT_PRICE_X64_OFFSET
  if liquidity = 0 ∨ sqrtPriceX64 = 0 then return none
  let tokenMint0 ← readPubkey data TOKEN_MINT_0_OFFSET
  let tokenMint1 ← readPubkey data TOKEN_MINT_1_OFFSET
  let tokenVault0 ← readPubkey data TOKEN_VAULT_0_OFFSET
  let tokenVault1 ← readPubkey data TOKEN_VAULT_1_OFFSET
  let _tickCurrent ← readI32 data TICK_CURRENT_OFFSET
  let (virtual0, virtual1) := virtualReserves F liquidity sqrtPriceX64
  if virtual0 = 0 ∨ virtual1 = 0 then return none
  return some
    { address, dexType := .raydiumClmm, tokenAMint := tokenMint0, tokenBMint := tokenMint1,
      tokenAVault := tokenVault0, tokenBVault := tokenVault1,
      tokenAAmount := virtual0, tokenBAmount := virtual1,
      feeNumerator := 25, feeDenominator := 10000, slot := 0 }

/-- `RaydiumClmmAdapter::quote`. -/
def quote := quoteWith .zeroVirtualReserves

end RaydiumClmm

/-! ## Orca Whirlpool -/

namespace OrcaWhirlpool

/-- The fee rate, a `u16` in millionths. -/
def FEE_RATE_OFFSET : Nat := 45
/-- The liquidity in range, a `u128`. -/
def LIQUIDITY_OFFSET : Nat := 49
/-- The square root of the price, a `u128` in Q64.64. -/
def SQRT_PRICE_OFFSET : Nat := 65
/-- The A side's mint. -/
def TOKEN_MINT_A_OFFSET : Nat := 101
/-- The B side's mint. -/
def TOKEN_MINT_B_OFFSET : Nat := 133
/-- The A side's vault. -/
def TOKEN_VAULT_A_OFFSET : Nat := 165
/-- The B side's vault. -/
def TOKEN_VAULT_B_OFFSET : Nat := 197
/-- A shorter account is no pool. -/
def WHIRLPOOL_SIZE_MIN : Nat := 653

variable (F) in
/-- `OrcaWhirlpoolAdapter::decode_pool`: a zero virtual reserve is kept. -/
def decodePool [F64 F] (address : Pubkey) (data : List UInt8) : Rust (Option PoolState) := do
  if data.length < WHIRLPOOL_SIZE_MIN then return none
  let feeRateRaw ← readU16 data FEE_RATE_OFFSET
  let liquidity ← readU128 data LIQUIDITY_OFFSET
  let sqrtPrice ← readU128 data SQRT_PRICE_OFFSET
  if liquidity = 0 ∨ sqrtPrice = 0 then return none
  let tokenMintA ← readPubkey data TOKEN_MINT_A_OFFSET
  let tokenMintB ← readPubkey data TOKEN_MINT_B_OFFSET
  let tokenVaultA ← readPubkey data TOKEN_VAULT_A_OFFSET
  let tokenVaultB ← readPubkey data TOKEN_VAULT_B_OFFSET
  let (virtualA, virtualB) := virtualReserves F liquidity sqrtPrice
  return some
    { address, dexType := .orcaWhirlpool, tokenAMint := tokenMintA, tokenBMint := tokenMintB,
      tokenAVault := tokenVaultA, tokenBVault := tokenVaultB,
      tokenAAmount := virtualA, tokenBAmount := virtualB,
      feeNumerator := feeRateRaw.toUInt64, feeDenominator := 1000000, slot := 0 }

/-- `OrcaWhirlpoolAdapter::quote`. -/
def quote := quoteWith .zeroVirtualReserves

end OrcaWhirlpool

/-! ## Meteora DLMM -/

namespace MeteoraDlmm

/-- The first field of the static parameters, a `u16`. -/
def BASE_FACTOR_OFFSET : Nat := 8
/-- The active bin, an `i32`. -/
def ACTIVE_ID_OFFSET : Nat := 140
/-- The step between two bins, a `u16` of basis points. -/
def BIN_STEP_OFFSET : Nat := 144
/-- The A side's mint. -/
def TOKEN_X_MINT_OFFSET : Nat := 152
/-- The B side's mint. -/
def TOKEN_Y_MINT_OFFSET : Nat := 184
/-- The A side's vault; the account calls it a reserve. -/
def RESERVE_X_OFFSET : Nat := 216
/-- The B side's vault. -/
def RESERVE_Y_OFFSET : Nat := 248
/-- A conservative minimum; a shorter account is no pool. -/
def LB_PAIR_MIN_SIZE : Nat := 400

/-- `compute_bin_price`: `(1 + bin_step/10000)^active_id`. -/
def computeBinPrice [F64 F] (activeId : Int32) (binStep : UInt16) : F :=
  let base : F := 1.0 + F64.ofNat binStep.toNat / 10000.0
  F64.powi base activeId.toInt

variable (F) in
/-- `MeteoraDlmmAdapter::decode_pool`. -/
def decodePool [F64 F] (address : Pubkey) (data : List UInt8) : Rust (Option PoolState) := do
  if data.length < LB_PAIR_MIN_SIZE then return none
  let activeId ← readI32 data ACTIVE_ID_OFFSET
  let binStep ← readU16 data BIN_STEP_OFFSET
  let tokenXMint ← readPubkey data TOKEN_X_MINT_OFFSET
  let tokenYMint ← readPubkey data TOKEN_Y_MINT_OFFSET
  let reserveXVault ← readPubkey data RESERVE_X_OFFSET
  let reserveYVault ← readPubkey data RESERVE_Y_OFFSET
  if binStep = 0 then return none
  let baseFactor ← readU16 data BASE_FACTOR_OFFSET
  let feeBps := baseFactor.toUInt64 * binStep.toUInt64 / 100
  let price : F := computeBinPrice activeId binStep
  let virtualX : UInt64 := 1000000000
  let virtualY : UInt64 := F64.toU64 (F64.ofNat virtualX.toNat * price)
  return some
    { address, dexType := .meteoraDlmm, tokenAMint := tokenXMint, tokenBMint := tokenYMint,
      tokenAVault := reserveXVault, tokenBVault := reserveYVault,
      tokenAAmount := virtualX, tokenBAmount := max virtualY 1,
      feeNumerator := feeBps, feeDenominator := 10000, slot := 0 }

/-- `MeteoraDlmmAdapter::quote`. -/
def quote := quoteWith .zeroReserves

end MeteoraDlmm

/-! ## Phoenix -/

namespace Phoenix

/-- A `u64`; zero is no market. -/
def STATUS_OFFSET : Nat := 8
/-- The A side's vault. -/
def BASE_VAULT_OFFSET : Nat := 40
/-- The A side's mint. -/
def BASE_MINT_OFFSET : Nat := 72
/-- The size of a base lot, a `u64`. -/
def BASE_LOT_SIZE_OFFSET : Nat := 104
/-- The B side's vault. -/
def QUOTE_VAULT_OFFSET : Nat := 120
/-- The B side's mint. -/
def QUOTE_MINT_OFFSET : Nat := 152
/-- The size of a quote lot, a `u64`. -/
def QUOTE_LOT_SIZE_OFFSET : Nat := 184
/-- The tick size in quote lots per base unit, a `u64`. -/
def TICK_SIZE_OFFSET : Nat := 192
/-- A shorter account is no market. -/
def MARKET_MIN_SIZE : Nat := 512

/-- `PhoenixAdapter::decode_pool`; the lot products wrap. -/
def decodePool (address : Pubkey) (data : List UInt8) : Rust (Option PoolState) := do
  if data.length < MARKET_MIN_SIZE then return none
  let status ← readU64 data STATUS_OFFSET
  if status = 0 then return none
  let baseMint ← readPubkey data BASE_MINT_OFFSET
  let quoteMint ← readPubkey data QUOTE_MINT_OFFSET
  let baseVault ← readPubkey data BASE_VAULT_OFFSET
  let quoteVault ← readPubkey data QUOTE_VAULT_OFFSET
  let baseLotSize ← readU64 data BASE_LOT_SIZE_OFFSET
  let quoteLotSize ← readU64 data QUOTE_LOT_SIZE_OFFSET
  let tickSize ← readU64 data TICK_SIZE_OFFSET
  let virtualBase := max baseLotSize 1 * 1000
  let virtualQuote :=
    if tickSize > 0 ∧ quoteLotSize > 0 then tickSize * quoteLotSize * 1000 else virtualBase
  return some
    { address, dexType := .phoenix, tokenAMint := baseMint, tokenBMint := quoteMint,
      tokenAVault := baseVault, tokenBVault := quoteVault,
      tokenAAmount := virtualBase, tokenBAmount := virtualQuote,
      feeNumerator := 4, feeDenominator := 10000, slot := 0 }

/-- `PhoenixAdapter::quote`. -/
def quote := quoteWith .zeroReserves

end Phoenix

/-! ## The adapter table -/

/-- `trait DexAdapter`, as the record of its decoding and quoting methods. -/
structure DexAdapter where
  dexType : DexType
  programId : Pubkey
  decodePool : Pubkey → List UInt8 → Rust (Option PoolState)
  quote : PoolState → Pubkey → UInt64 → Except QuoteError Quote

/-- The only adapter whose pools come without reserves. -/
def RaydiumAmmAdapter : DexAdapter :=
  ⟨.raydiumAmm, RAYDIUM_AMM_V4, RaydiumAmm.decodePool, RaydiumAmm.quote⟩

variable (F) in
/-- Raydium's concentrated pools, at a fixed fee. -/
def RaydiumClmmAdapter [F64 F] : DexAdapter :=
  ⟨.raydiumClmm, RAYDIUM_CLMM, RaydiumClmm.decodePool F, RaydiumClmm.quote⟩

variable (F) in
/-- Orca's concentrated pools, at the fee in the account. -/
def OrcaWhirlpoolAdapter [F64 F] : DexAdapter :=
  ⟨.orcaWhirlpool, ORCA_WHIRLPOOL, OrcaWhirlpool.decodePool F, OrcaWhirlpool.quote⟩

variable (F) in
/-- Meteora's pairs, around the active bin. -/
def MeteoraDlmmAdapter [F64 F] : DexAdapter :=
  ⟨.meteoraDlmm, METEORA_DLMM, MeteoraDlmm.decodePool F, MeteoraDlmm.quote⟩

/-- Phoenix's order books, as if they were pools. -/
def PhoenixAdapter : DexAdapter :=
  ⟨.phoenix, PHOENIX, Phoenix.decodePool, Phoenix.quote⟩

end MevDex
