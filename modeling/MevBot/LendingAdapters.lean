import MevBot.Types

/-! # The lending adapters

    Three adapters decode obligation accounts into `ObligationState`.  Kamino
    and Save share a layout of counted records (56-byte collateral, 80-byte
    liquidity); the record loops stop at the first record cut off by the end
    of the data.  Marginfi scans sixteen fixed balance slots. -/

namespace MevLending

open MevMachine MevTypes

variable {F : Type}

/-- A position within a lending protocol obligation. -/
structure LendingPosition where
  reserve : Pubkey
  mint : Pubkey
  depositedAmount : UInt64
  borrowedAmount : UInt64
  marketValueUsd : UInt64
deriving DecidableEq, Repr

/-- The three lending programs. -/
inductive LendingProtocol where
  | kamino
  | marginfi
  | save
deriving DecidableEq, Repr

/-- `Display for LendingProtocol`. -/
def LendingProtocol.display : LendingProtocol → String
  | .kamino => "kamino"
  | .marginfi => "marginfi"
  | .save => "save"

/-- Decoded obligation state from a lending protocol. -/
structure ObligationState (F : Type) where
  address : Pubkey
  protocol : LendingProtocol
  owner : Pubkey
  deposits : List LendingPosition
  borrows : List LendingPosition
  totalDepositUsd : UInt64
  totalBorrowUsd : UInt64
  healthFactor : F
  maxLiquidationAmount : UInt64
  liquidationBonusBps : UInt16
  slot : UInt64

/-- `ObligationState::is_liquidatable`. -/
def ObligationState.isLiquidatable [F64 F] (o : ObligationState F) : Bool :=
  F64.lt o.healthFactor 1.0 && decide (o.totalBorrowUsd > 0)

/-- `ObligationState::estimated_profit_usd`. -/
def ObligationState.estimatedProfitUsd [F64 F] (o : ObligationState F) : UInt64 :=
  if !o.isLiquidatable then 0
  else
    let bonusRate : F := F64.ofNat o.liquidationBonusBps.toNat / 10000.0
    F64.toU64 (F64.ofNat o.maxLiquidationAmount.toNat * bonusRate)

/-- `deposits / borrows`, infinite when nothing is borrowed. -/
def healthFactor [F64 F] (totalDeposit totalBorrow : UInt64) : F :=
  if totalBorrow > 0 then F64.ofNat totalDeposit.toNat / F64.ofNat totalBorrow.toNat
  else F64.infinity

/-- The close factor: half of the first borrow. -/
def maxLiquidation (borrows : List LendingPosition) : UInt64 :=
  match borrows.head? with
  | some b => b.borrowedAmount / 2
  | none => 0

/-! ## Counted records -/

/-- The 56-byte collateral records: up to `count` of them from `offset` on.
    `usd` turns the on-account 128-bit market value into USD. -/
def parseCollateral (usd : Nat → UInt64) (data : List UInt8) :
    Nat → Nat → Rust (List LendingPosition × Nat)
  | 0, offset => .ok ([], offset)
  | count + 1, offset =>
      if offset + 56 > data.length then .ok ([], offset)
      else do
        let reserve ← readPubkey data offset
        let amount ← readU64 data (offset + 32)
        let marketValue ← readU128 data (offset + 40)
        let (rest, endOffset) ← parseCollateral usd data count (offset + 56)
        return ({ reserve, mint := Pubkey.default, depositedAmount := amount,
                  borrowedAmount := 0, marketValueUsd := usd marketValue } :: rest, endOffset)

/-- The 80-byte liquidity records: up to `count` of them from `offset` on. -/
def parseLiquidity (usd : Nat → UInt64) (data : List UInt8) :
    Nat → Nat → Rust (List LendingPosition)
  | 0, _ => .ok []
  | count + 1, offset =>
      if offset + 80 > data.length then .ok []
      else do
        let reserve ← readPubkey data offset
        let borrowedSf ← readU128 data (offset + 48)
        let marketValue ← readU128 data (offset + 64)
        let rest ← parseLiquidity usd data count (offset + 80)
        return { reserve, mint := Pubkey.default, depositedAmount := 0,
                 borrowedAmount := UInt64.ofNat (borrowedSf >>> 20),
                 marketValueUsd := usd marketValue } :: rest

/-! ## Kamino -/

namespace Kamino

/-- Behind the discriminator, the last update and the market. -/
def OWNER_OFFSET : Nat := 64
/-- The number of deposits, a `u32`; the records follow. -/
def DEPOSITS_LEN_OFFSET : Nat := 96
/-- A shorter account is no obligation. -/
def OBLIGATION_MIN_SIZE : Nat := 400
/-- The liquidator's share; as much goes to the insurance fund. -/
def KAMINO_LIQUIDATION_BONUS_BPS : UInt16 := 250

/-- The market value is truncated to `u64` BEFORE the division. -/
def usd (marketValue : Nat) : UInt64 := UInt64.ofNat marketValue / 1048576

/-- `KaminoAdapter::decode_obligation`, under an allocator that may refuse it room.  The
    room for the borrows is asked for before their count is cut down to ten. -/
def decodeObligationIn [F64 F] (allocates : Nat → Bool) (address : Pubkey)
    (data : List UInt8) : Rust (Option (ObligationState F)) := do
  if data.length < OBLIGATION_MIN_SIZE then return none
  let owner ← readPubkey data OWNER_OFFSET
  let depositsLen ← readU32 data DEPOSITS_LEN_OFFSET
  if depositsLen > 10 then return none
  withCapacity allocates depositsLen.toNat
  let (deposits, offset) ←
    parseCollateral usd data depositsLen.toNat (DEPOSITS_LEN_OFFSET + 4)
  let borrowsLen ← if offset + 4 ≤ data.length then readU32 data offset else pure 0
  withCapacity allocates borrowsLen.toNat
  let borrows ← parseLiquidity usd data (min borrowsLen.toNat 10) (offset + 4)
  let totalDeposit := (deposits.map (·.marketValueUsd)).foldl (· + ·) 0
  let totalBorrow := (borrows.map (·.marketValueUsd)).foldl (· + ·) 0
  return some
    { address, protocol := .kamino, owner, deposits, borrows,
      totalDepositUsd := totalDeposit, totalBorrowUsd := totalBorrow,
      healthFactor := healthFactor totalDeposit totalBorrow,
      maxLiquidationAmount := maxLiquidation borrows,
      liquidationBonusBps := KAMINO_LIQUIDATION_BONUS_BPS, slot := 0 }

/-- The same where the allocator grants every request. -/
def decodeObligation [F64 F] : Pubkey → List UInt8 → Rust (Option (ObligationState F)) :=
  decodeObligationIn fun _ => true

/-- There the requests leave no trace. -/
theorem decodeObligation_eq [F64 F] (address : Pubkey) (data : List UInt8) :
    decodeObligation (F := F) address data = (do
      if data.length < OBLIGATION_MIN_SIZE then return none
      let owner ← readPubkey data OWNER_OFFSET
      let depositsLen ← readU32 data DEPOSITS_LEN_OFFSET
      if depositsLen > 10 then return none
      let (deposits, offset) ←
        parseCollateral usd data depositsLen.toNat (DEPOSITS_LEN_OFFSET + 4)
      let borrowsLen ← if offset + 4 ≤ data.length then readU32 data offset else pure 0
      let borrows ← parseLiquidity usd data (min borrowsLen.toNat 10) (offset + 4)
      let totalDeposit := (deposits.map (·.marketValueUsd)).foldl (· + ·) 0
      let totalBorrow := (borrows.map (·.marketValueUsd)).foldl (· + ·) 0
      return some
        { address, protocol := .kamino, owner, deposits, borrows,
          totalDepositUsd := totalDeposit, totalBorrowUsd := totalBorrow,
          healthFactor := healthFactor totalDeposit totalBorrow,
          maxLiquidationAmount := maxLiquidation borrows,
          liquidationBonusBps := KAMINO_LIQUIDATION_BONUS_BPS, slot := 0 }) :=
  rfl

end Kamino

/-! ## Marginfi -/

namespace Marginfi

/-- The owner of the account. -/
def AUTHORITY_OFFSET : Nat := 40
/-- Where the balance slots begin. -/
def BALANCES_OFFSET : Nat := 72
/-- The width of a slot. -/
def BALANCE_SIZE : Nat := 104
/-- All slots are there, active or not. -/
def MAX_BALANCES : Nat := 16
/-- A shorter account is none. -/
def MARGINFI_ACCOUNT_MIN_SIZE : Nat := 300
/-- The bonus varies by bank; this is its lower end. -/
def MARGINFI_LIQUIDATION_BONUS_BPS : UInt16 := 250

variable (F) in
/-- `read_i80f48`: a signed 128-bit number with 48 fraction bits. -/
def readI80F48 [F64 F] (data : List UInt8) (offset : Nat) : Rust F := do
  let raw ← readI128 data offset
  return F64.ofInt raw / F64.ofInt (2 ^ 48)

variable (F) in
/-- The balance slots: `count` more of them, the next one at `offset`. -/
def parseBalances [F64 F] (data : List UInt8) :
    Nat → Nat → Rust (List LendingPosition × List LendingPosition)
  | 0, _ => .ok ([], [])
  | count + 1, offset =>
      if offset + BALANCE_SIZE > data.length then .ok ([], [])
      else do
        let active ← readU8 data offset
        if active = 0 then parseBalances data count (offset + BALANCE_SIZE)
        else
          let bankPk ← readPubkey data (offset + 1)
          let assetShares ← readI80F48 F data (offset + 40)
          let liabilityShares ← readI80F48 F data (offset + 56)
          let (deposits, borrows) ← parseBalances data count (offset + BALANCE_SIZE)
          let deposit : LendingPosition :=
            { reserve := bankPk, mint := Pubkey.default, depositedAmount := F64.toU64 assetShares,
              borrowedAmount := 0, marketValueUsd := 0 }
          let borrow : LendingPosition :=
            { reserve := bankPk, mint := Pubkey.default, depositedAmount := 0,
              borrowedAmount := F64.toU64 liabilityShares, marketValueUsd := 0 }
          return (if F64.lt 0.0 assetShares then deposit :: deposits else deposits,
            if F64.lt 0.0 liabilityShares then borrow :: borrows else borrows)

/-- `MarginfiAdapter::decode_obligation`: the totals are native amounts. -/
def decodeObligation [F64 F] (address : Pubkey) (data : List UInt8) :
    Rust (Option (ObligationState F)) := do
  if data.length < MARGINFI_ACCOUNT_MIN_SIZE then return none
  let owner ← readPubkey data AUTHORITY_OFFSET
  let (deposits, borrows) ← parseBalances F data MAX_BALANCES BALANCES_OFFSET
  let totalDeposit := (deposits.map (·.depositedAmount)).foldl (· + ·) 0
  let totalBorrow := (borrows.map (·.borrowedAmount)).foldl (· + ·) 0
  return some
    { address, protocol := .marginfi, owner, deposits, borrows,
      totalDepositUsd := totalDeposit, totalBorrowUsd := totalBorrow,
      healthFactor := healthFactor totalDeposit totalBorrow,
      maxLiquidationAmount := maxLiquidation borrows,
      liquidationBonusBps := MARGINFI_LIQUIDATION_BONUS_BPS, slot := 0 }

end Marginfi

/-! ## Save -/

namespace Save

/-- A byte; zero is an account not initialized. -/
def VERSION_OFFSET : Nat := 0
/-- Behind the version, the last update and the market. -/
def OWNER_OFFSET : Nat := 49
/-- The value of all deposits, a `u128`. -/
def DEPOSITED_VALUE_OFFSET : Nat := 81
/-- The value of all borrows, a `u128`. -/
def BORROWED_VALUE_OFFSET : Nat := 97
/-- The number of deposits, behind the padding; the records follow. -/
def DEPOSITS_LEN_OFFSET : Nat := 657
/-- A shorter account is no obligation, a longer one may still end before the lists. -/
def OBLIGATION_MIN_SIZE : Nat := 300
/-- The bonus of most reserves. -/
def SAVE_LIQUIDATION_BONUS_BPS : UInt16 := 500

/-- The value is shifted first and truncated to `u64` after. -/
def usd (value : Nat) : UInt64 := UInt64.ofNat (value >>> 20)

/-- `SaveAdapter::decode_obligation`: only the first ten deposits are stepped
    over before the borrow count is read. -/
def decodeObligation [F64 F] (address : Pubkey) (data : List UInt8) :
    Rust (Option (ObligationState F)) := do
  if data.length < OBLIGATION_MIN_SIZE then return none
  let version ← readU8 data VERSION_OFFSET
  if version = 0 then return none
  let owner ← readPubkey data OWNER_OFFSET
  let depositedValue ← readU128 data DEPOSITED_VALUE_OFFSET
  let borrowedValue ← readU128 data BORROWED_VALUE_OFFSET
  let (deposits, borrows) ←
    if DEPOSITS_LEN_OFFSET + 4 ≤ data.length then do
      let depositsLen ← readU32 data DEPOSITS_LEN_OFFSET
      let (deposits, offset) ←
        parseCollateral usd data (min depositsLen.toNat 10) (DEPOSITS_LEN_OFFSET + 4)
      let borrows ←
        if offset + 4 ≤ data.length then do
          let borrowsLen ← readU32 data offset
          parseLiquidity usd data (min borrowsLen.toNat 10) (offset + 4)
        else pure []
      pure (deposits, borrows)
    else pure ([], [])
  let totalDeposit := usd depositedValue
  let totalBorrow := usd borrowedValue
  return some
    { address, protocol := .save, owner, deposits, borrows,
      totalDepositUsd := totalDeposit, totalBorrowUsd := totalBorrow,
      healthFactor := healthFactor totalDeposit totalBorrow,
      maxLiquidationAmount := maxLiquidation borrows,
      liquidationBonusBps := SAVE_LIQUIDATION_BONUS_BPS, slot := 0 }

end Save

/-! ## The adapter table -/

/-- `trait LendingAdapter`, as the record of its decoding methods. -/
structure LendingAdapter (F : Type) where
  protocol : LendingProtocol
  programId : Pubkey
  decodeObligation : Pubkey → List UInt8 → Rust (Option (ObligationState F))

variable (F) in
/-- Where every request for room is granted. -/
def KaminoAdapter [F64 F] : LendingAdapter F :=
  ⟨.kamino, KAMINO_KLEND, Kamino.decodeObligation⟩

variable (F) in
/-- Marginfi accounts, by their balance slots. -/
def MarginfiAdapter [F64 F] : LendingAdapter F :=
  ⟨.marginfi, MARGINFI, Marginfi.decodeObligation⟩

variable (F) in
/-- Save obligations, formerly Solend. -/
def SaveAdapter [F64 F] : LendingAdapter F :=
  ⟨.save, SAVE_SOLEND, Save.decodeObligation⟩

end MevLending
