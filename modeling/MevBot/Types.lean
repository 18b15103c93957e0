import MevBot.Machine

/-! # The bot's shared types

    The records of the `common` crate: what the data feed delivers
    (`AccountUpdate`), what an adapter decodes (`PoolState`), what a strategy
    emits (`Opportunity`) and what the executor sends (`Instruction`).  Token
    indices, hop counts and other `usize` values are naturals. -/

namespace MevTypes

open MevMachine

/-- A Solana public key: thirty-two bytes. -/
structure Pubkey where
  bytes : Vector UInt8 32
deriving DecidableEq, Repr

/-- `Pubkey::default()`. -/
def Pubkey.default : Pubkey := ⟨Vector.replicate 32 0⟩

instance : Inhabited Pubkey := ⟨Pubkey.default⟩

/-- `Pubkey::new_from_array` on thirty-two bytes of account data. -/
def readPubkey (data : List UInt8) (offset : Nat) : Rust Pubkey := do
  let bs ← slice data offset 32
  return ⟨Vector.ofFn fun i => bs.getD i.val 0⟩

/-- Which DEX a pool belongs to. -/
inductive DexType where
  | raydiumAmm
  | raydiumClmm
  | orcaWhirlpool
  | meteoraDlmm
  | phoenix
deriving DecidableEq, Repr

/-- Raw account update from the data feed. -/
structure AccountUpdate where
  pubkey : Pubkey
  slot : UInt64
  data : List UInt8
  lamports : UInt64
  owner : Pubkey
deriving DecidableEq, Repr

/-- Decoded pool state, normalized across all DEXs. -/
structure PoolState where
  address : Pubkey
  dexType : DexType
  tokenAMint : Pubkey
  tokenBMint : Pubkey
  tokenAVault : Pubkey
  tokenBVault : Pubkey
  tokenAAmount : UInt64
  tokenBAmount : UInt64
  feeNumerator : UInt64
  feeDenominator : UInt64
  slot : UInt64
deriving DecidableEq, Repr

/-- `PoolState::fee_rate`. -/
def PoolState.feeRate {F : Type} [F64 F] (pool : PoolState) : F :=
  F64.ofNat pool.feeNumerator.toNat / F64.ofNat pool.feeDenominator.toNat

/-- Result of quoting a swap through a pool. -/
structure Quote where
  inputMint : Pubkey
  outputMint : Pubkey
  amountIn : UInt64
  amountOut : UInt64
  feeAmount : UInt64
  priceImpactBps : UInt16
deriving DecidableEq, Repr

/-- `AccountMeta`: an account an instruction names. -/
structure AccountMeta where
  pubkey : Pubkey
  isSigner : Bool
  isWritable : Bool
deriving DecidableEq, Repr

/-- A Solana instruction. -/
structure Instruction where
  programId : Pubkey
  accounts : List AccountMeta
  data : List UInt8
deriving DecidableEq, Repr

/-- One hop in a multi-swap path. -/
structure SwapStep where
  poolAddress : Pubkey
  dexType : DexType
  inputMint : Pubkey
  outputMint : Pubkey
  amountIn : UInt64
  minAmountOut : UInt64
  instructions : List Instruction
deriving DecidableEq, Repr

/-- A detected opportunity ready for execution. -/
structure Opportunity where
  strategy : String
  path : List SwapStep
  expectedProfitLamports : Int64
  estimatedComputeUnits : UInt32
  detectedAtSlot : UInt64
deriving DecidableEq, Repr

/-! ## Constants -/

/-- The program that owns Raydium AMM pools. -/
def RAYDIUM_AMM_V4 : Pubkey :=
  ⟨#v[75, 217, 73, 196, 54, 2, 195, 63, 32, 119, 144, 237, 22, 163, 82, 76,
    161, 185, 151, 92, 241, 33, 162, 169, 12, 255, 236, 125, 248, 182, 138, 205]⟩

/-- The program of Raydium's concentrated pools. -/
def RAYDIUM_CLMM : Pubkey :=
  ⟨#v[165, 213, 202, 158, 4, 207, 93, 181, 144, 183, 20, 186, 47, 227, 44, 177,
    89, 19, 63, 193, 193, 146, 183, 34, 87, 253, 7, 211, 156, 176, 64, 30]⟩

/-- The Whirlpool program. -/
def ORCA_WHIRLPOOL : Pubkey :=
  ⟨#v[14, 3, 104, 95, 142, 144, 144, 83, 228, 88, 18, 28, 102, 245, 167, 106,
    237, 199, 112, 106, 161, 28, 130, 248, 170, 149, 42, 143, 43, 120, 121, 169]⟩

/-- The program of Meteora's pairs. -/
def METEORA_DLMM : Pubkey :=
  ⟨#v[4, 233, 225, 47, 188, 132, 232, 38, 201, 50, 204, 233, 226, 100, 12, 206,
    21, 89, 12, 28, 98, 115, 176, 146, 87, 8, 186, 59, 133, 32, 176, 188]⟩

/-- The program of Phoenix's markets. -/
def PHOENIX : Pubkey :=
  ⟨#v[5, 208, 234, 79, 51, 115, 112, 19, 165, 99, 224, 147, 72, 237, 182, 244,
    89, 61, 145, 252, 118, 65, 249, 36, 124, 36, 65, 168, 66, 161, 187, 235]⟩

/-- The program of Kamino's obligations. -/
def KAMINO_KLEND : Pubkey :=
  ⟨#v[4, 178, 172, 177, 18, 88, 204, 227, 104, 44, 65, 139, 168, 114, 255, 61,
    249, 17, 2, 113, 47, 21, 175, 18, 182, 190, 105, 179, 67, 91, 0, 8]⟩

/-- The program of Marginfi's accounts. -/
def MARGINFI : Pubkey :=
  ⟨#v[5, 48, 122, 214, 69, 75, 188, 94, 30, 78, 146, 5, 146, 83, 161, 139,
    184, 200, 134, 140, 88, 166, 49, 46, 200, 106, 57, 230, 34, 78, 55, 59]⟩

/-- The program of Save's obligations. -/
def SAVE_SOLEND : Pubkey :=
  ⟨#v[6, 155, 139, 152, 90, 171, 83, 42, 69, 9, 13, 232, 85, 127, 205, 220,
    190, 108, 182, 227, 68, 248, 76, 111, 179, 27, 60, 164, 63, 253, 234, 10]⟩

/-- The smallest tip of a bundle. -/
def MIN_TIP_LAMPORTS : UInt64 := 10000

end MevTypes
