import MevBot.AdapterFacts
import MevBot.DecoderOverflow
import MevBot.ExactReal

/-! # The fee of a decoded pool

    The fee of a pool comes from its adapter: two raw words of a Raydium AMM
    account, a raw rate of an Orca pool, the product of two fields of a Meteora
    pair, a constant elsewhere.  None of the decoders tests it.  A Raydium AMM
    pool has a fee below one exactly when its own two words say so, a Meteora
    pair exactly when the product of its two fields stays below a million; the
    other three always have one (`properFee_iff`).  The fee of a pair is a
    hundred times the protocol's: the two are close only where both are next to
    nothing (`meteoraFee_close_iff`). -/

namespace MevDecodedFees

open MevMachine MevTypes MevDex MevStrategy MevAdapterFacts MevExact MevDecoderOverflow

variable {F : Type} [F64 F]

/-- A fee below one. -/
def ProperPoolFee (pool : PoolState) : Prop :=
  0 < pool.feeDenominator ∧ pool.feeNumerator < pool.feeDenominator

/-! ## Where the fee comes from -/

/-- The fee of a Raydium AMM pool is the account's, as it stands there. -/
theorem raydiumAmm_fee (address : Pubkey) (data : List UInt8) :
    Yields (fun pool =>
        readU64 data RaydiumAmm.SWAP_FEE_NUM_OFFSET = .ok pool.feeNumerator ∧
          readU64 data RaydiumAmm.SWAP_FEE_DEN_OFFSET = .ok pool.feeDenominator)
      (RaydiumAmm.decodePool address data) := by
  refine Yields.ite Yields.none ?_
  refine Yields.bind fun status => Yields.ite Yields.none ?_
  refine Yields.bind fun coinMint => Yields.bind fun pcMint => ?_
  refine Yields.bind fun coinVault => Yields.bind fun pcVault => ?_
  refine Yields.read fun feeNum hnum => Yields.read fun feeDen hden => ?_
  exact Yields.some ⟨hnum, hden⟩

/-- Concentrated Raydium pools have a fixed fee. -/
theorem raydiumClmm_fee (address : Pubkey) (data : List UInt8) :
    Yields (fun pool => pool.feeNumerator = 25 ∧ pool.feeDenominator = 10000)
      (RaydiumClmm.decodePool F address data) := by
  refine Yields.ite Yields.none ?_
  refine Yields.bind fun status => Yields.ite Yields.none ?_
  refine Yields.bind fun liquidity => Yields.bind fun sqrtPrice => Yields.ite Yields.none ?_
  refine Yields.bind fun mint0 => Yields.bind fun mint1 => ?_
  refine Yields.bind fun vault0 => Yields.bind fun vault1 => Yields.bind fun tick => ?_
  exact Yields.ite Yields.none (Yields.some ⟨rfl, rfl⟩)

/-- A Whirlpool's fee rate is sixteen bits over a million. -/
theorem orcaWhirlpool_fee (address : Pubkey) (data : List UInt8) :
    Yields (fun pool => (∃ feeRateRaw : UInt16, pool.feeNumerator = feeRateRaw.toUInt64) ∧
        pool.feeDenominator = 1000000)
      (OrcaWhirlpool.decodePool F address data) := by
  refine Yields.ite Yields.none ?_
  refine Yields.bind fun fee => Yields.bind fun liquidity => Yields.bind fun sqrtPrice => ?_
  refine Yields.ite Yields.none ?_
  refine Yields.bind fun mintA => Yields.bind fun mintB => ?_
  refine Yields.bind fun vaultA => Yields.bind fun vaultB => ?_
  exact Yields.some ⟨⟨fee, rfl⟩, rfl⟩

/-- A Meteora fee is the product of two fields of the account. -/
theorem meteoraDlmm_fee (address : Pubkey) (data : List UInt8) :
    Yields (fun pool => ∃ baseFactor binStep,
        readU16 data MeteoraDlmm.BASE_FACTOR_OFFSET = .ok baseFactor ∧
          readU16 data MeteoraDlmm.BIN_STEP_OFFSET = .ok binStep ∧
          pool.feeNumerator = baseFactor.toUInt64 * binStep.toUInt64 / 100 ∧
          pool.feeDenominator = 10000)
      (MeteoraDlmm.decodePool F address data) := by
  refine Yields.ite Yields.none ?_
  refine Yields.bind fun activeId => Yields.read fun binStep hstep => ?_
  refine Yields.bind fun mintX => Yields.bind fun mintY => ?_
  refine Yields.bind fun reserveX => Yields.bind fun reserveY => Yields.ite Yields.none ?_
  refine Yields.read fun baseFactor hfactor => ?_
  exact Yields.some ⟨baseFactor, binStep, hfactor, hstep, rfl, rfl⟩

/-- Phoenix has a fixed taker fee. -/
theorem phoenix_fee (address : Pubkey) (data : List UInt8) :
    Yields (fun pool => pool.feeNumerator = 4 ∧ pool.feeDenominator = 10000)
      (Phoenix.decodePool address data) := by
  refine Yields.ite Yields.none ?_
  refine Yields.bind fun status => Yields.ite Yields.none ?_
  refine Yields.bind fun baseMint => Yields.bind fun quoteMint => ?_
  refine Yields.bind fun baseVault => Yields.bind fun quoteVault => ?_
  refine Yields.bind fun baseLot => Yields.bind fun quoteLot => Yields.bind fun tick => ?_
  exact Yields.some ⟨rfl, rfl⟩

/-! ## When it is below one -/

/-- The fee of a Meteora pair, without wrapping. -/
theorem meteora_feeNumerator (baseFactor binStep : UInt16) :
    (baseFactor.toUInt64 * binStep.toUInt64 / 100).toNat =
      baseFactor.toNat * binStep.toNat / 100 := by
  have hprod : baseFactor.toNat * binStep.toNat < 2 ^ 16 * 2 ^ 16 :=
    Nat.mul_lt_mul'' baseFactor.toNat_lt binStep.toNat_lt
  rw [UInt64.toNat_div, UInt64.toNat_mul, UInt16.toNat_toUInt64, UInt16.toNat_toUInt64,
    Nat.mod_eq_of_lt (by omega)]
  rfl

/-- The account's own fields keep the fee below one: for a Raydium AMM pool its two fee
    words, for a Meteora pair the product of its base factor and bin step. -/
def FeeFieldsProper (dexType : DexType) (data : List UInt8) : Prop :=
  match dexType with
  | .raydiumAmm => ∃ num den, readU64 data RaydiumAmm.SWAP_FEE_NUM_OFFSET = .ok num ∧
      readU64 data RaydiumAmm.SWAP_FEE_DEN_OFFSET = .ok den ∧ num < den
  | .meteoraDlmm => ∃ baseFactor binStep,
      readU16 data MeteoraDlmm.BASE_FACTOR_OFFSET = .ok baseFactor ∧
        readU16 data MeteoraDlmm.BIN_STEP_OFFSET = .ok binStep ∧
        baseFactor.toNat * binStep.toNat < 1000000
  | _ => True

/-- So the fee is proper just when the account's fraction is. -/
theorem raydiumAmm_properFee {address : Pubkey} {data : List UInt8} {pool : PoolState}
    (h : RaydiumAmm.decodePool address data = .ok (some pool)) :
    ProperPoolFee pool ↔ FeeFieldsProper .raydiumAmm data := by
  obtain ⟨hnum, hden⟩ := raydiumAmm_fee address data pool h
  constructor
  · rintro ⟨-, hlt⟩
    exact ⟨_, _, hnum, hden, hlt⟩
  · rintro ⟨num, den, hnum', hden', hlt⟩
    obtain rfl := Except.ok.inj (hnum.symm.trans hnum')
    obtain rfl := Except.ok.inj (hden.symm.trans hden')
    refine ⟨?_, hlt⟩
    rw [UInt64.lt_iff_toNat_lt] at hlt ⊢
    exact Nat.zero_lt_of_lt hlt

/-- And just when the product of the two fields stays below the whole. -/
theorem meteoraDlmm_properFee {address : Pubkey} {data : List UInt8} {pool : PoolState}
    (h : MeteoraDlmm.decodePool F address data = .ok (some pool)) :
    ProperPoolFee pool ↔ FeeFieldsProper .meteoraDlmm data := by
  obtain ⟨baseFactor, binStep, hfactor, hstep, hnum, hden⟩ := meteoraDlmm_fee address data pool h
  rw [ProperPoolFee, hnum, hden, UInt64.lt_iff_toNat_lt (a := _ / _), meteora_feeNumerator]
  constructor
  · rintro ⟨-, hlt⟩
    refine ⟨baseFactor, binStep, hfactor, hstep, ?_⟩
    change baseFactor.toNat * binStep.toNat / 100 < 10000 at hlt
    omega
  · rintro ⟨baseFactor', binStep', hfactor', hstep', hlt⟩
    obtain rfl := Except.ok.inj (hfactor.symm.trans hfactor')
    obtain rfl := Except.ok.inj (hstep.symm.trans hstep')
    refine ⟨by decide, ?_⟩
    change baseFactor.toNat * binStep.toNat / 100 < 10000
    omega

/-- Sixteen bits are below a million: nothing is asked of the account. -/
theorem orcaWhirlpool_properFee {address : Pubkey} {data : List UInt8} {pool : PoolState}
    (h : OrcaWhirlpool.decodePool F address data = .ok (some pool)) : ProperPoolFee pool := by
  obtain ⟨⟨feeRateRaw, hnum⟩, hden⟩ := orcaWhirlpool_fee address data pool h
  rw [ProperPoolFee, hnum, hden]
  refine ⟨by decide, ?_⟩
  -- sixteen bits of a rate in millionths
  have hlt := feeRateRaw.toNat_lt
  rw [UInt64.lt_iff_toNat_lt, UInt16.toNat_toUInt64]
  change feeRateRaw.toNat < 1000000
  omega

/-- **WHEN A DECODED POOL HAS A FEE BELOW ONE**, for any account data and any of the five
    adapters. -/
theorem properFee_iff {adapter : DexAdapter} (hadapter : adapter ∈ dexArbAdapters F)
    {address : Pubkey} {data : List UInt8} {pool : PoolState}
    (h : adapter.decodePool address data = .ok (some pool)) :
    ProperPoolFee pool ↔ FeeFieldsProper adapter.dexType data := by
  rcases dexArbAdapters_cases hadapter with rfl | rfl | rfl | rfl | rfl
  · exact raydiumAmm_properFee h
  · obtain ⟨hnum, hden⟩ := raydiumClmm_fee address data pool h
    rw [ProperPoolFee, hnum, hden]
    exact iff_of_true (by decide) trivial
  · exact iff_of_true (orcaWhirlpool_properFee h) trivial
  · exact meteoraDlmm_properFee h
  · obtain ⟨hnum, hden⟩ := phoenix_fee address data pool h
    rw [ProperPoolFee, hnum, hden]
    exact iff_of_true (by decide) trivial

/-! ## How far it is from the protocol's -/

/-- The fee of the pool as a fraction. -/
def feeFraction (pool : PoolState) : ℚ := pool.feeNumerator.toNat / pool.feeDenominator.toNat

/-- The fee of the protocol: base factor times bin step times ten, in units of `10⁻⁹`. -/
def protocolFee (baseFactor binStep : UInt16) : ℚ :=
  baseFactor.toNat * binStep.toNat * 10 / 10 ^ 9

/-- A fee truncated to hundredths where the protocol has ten-thousandths. -/
theorem truncated_close_iff (product : Nat) :
    |((product / 100 : Nat) : ℚ) / 10000 - (product : ℚ) * 10 / 10 ^ 9| < 1 / 10000 ↔
      product < 200 := by
  have hscaled : ((product / 100 : Nat) : ℚ) / 10000 - (product : ℚ) * 10 / 10 ^ 9 =
      (10000 * ((product / 100 : Nat) : ℚ) - product) / 100000000 := by
    ring
  have hnat : (10000 * (product / 100) < product + 10000 ∧
      product < 10000 * (product / 100) + 10000) ↔ product < 200 := by
    omega
  rw [hscaled, abs_lt, lt_div_iff₀ (by norm_num), div_lt_iff₀ (by norm_num), ← hnat]
  constructor
  · rintro ⟨hlow, hhigh⟩
    constructor
    · have h : (10000 * (product / 100 : Nat) : ℚ) < product + 10000 := by linarith
      exact_mod_cast h
    · have h : (product : ℚ) < 10000 * (product / 100 : Nat) + 10000 := by linarith
      exact_mod_cast h
  · rintro ⟨hhigh, hlow⟩
    have hhigh' : (10000 * (product / 100 : Nat) : ℚ) < product + 10000 := by exact_mod_cast hhigh
    have hlow' : (product : ℚ) < 10000 * (product / 100 : Nat) + 10000 := by exact_mod_cast hlow
    constructor
    · linarith
    · linarith

/-- **WHEN A METEORA FEE IS CLOSE** to the protocol's, within a basis point: for products of
    base factor and bin step below two hundred, whatever else the account holds. -/
theorem meteoraFee_close_iff {address : Pubkey} {data : List UInt8} {pool : PoolState}
    (h : MeteoraDlmm.decodePool F address data = .ok (some pool)) {baseFactor binStep : UInt16}
    (hfactor : readU16 data MeteoraDlmm.BASE_FACTOR_OFFSET = .ok baseFactor)
    (hstep : readU16 data MeteoraDlmm.BIN_STEP_OFFSET = .ok binStep) :
    |feeFraction pool - protocolFee baseFactor binStep| < 1 / 10000 ↔
      baseFactor.toNat * binStep.toNat < 200 := by
  obtain ⟨baseFactor', binStep', hfactor', hstep', hnum, hden⟩ :=
    meteoraDlmm_fee address data pool h
  obtain rfl := Except.ok.inj (hfactor.symm.trans hfactor')
  obtain rfl := Except.ok.inj (hstep.symm.trans hstep')
  rw [feeFraction, protocolFee, hnum, hden, meteora_feeNumerator, ← Nat.cast_mul]
  exact truncated_close_iff _

/-! ## Accounts -/

/-- A pair account of full length with a bin step decodes. -/
theorem meteora_decodes (address : Pubkey) {data : List UInt8} {binStep : UInt16}
    (hlen : MeteoraDlmm.LB_PAIR_MIN_SIZE ≤ data.length)
    (hstep : readU16 data MeteoraDlmm.BIN_STEP_OFFSET = .ok binStep) (hne : binStep ≠ 0) :
    ∃ pool, MeteoraDlmm.decodePool F address data = .ok (some pool) := by
  obtain ⟨decoded, hdecoded⟩ := meteoraDlmm_returns (F := F) address data
  rw [hdecoded]
  rw [MeteoraDlmm.decodePool, if_neg (Nat.not_lt.mpr hlen)] at hdecoded
  obtain ⟨activeId, -, hdecoded⟩ := bind_ok hdecoded
  obtain ⟨binStep', hstep', hdecoded⟩ := bind_ok hdecoded
  obtain rfl := Except.ok.inj (hstep.symm.trans hstep')
  obtain ⟨mintX, -, hdecoded⟩ := bind_ok hdecoded
  obtain ⟨mintY, -, hdecoded⟩ := bind_ok hdecoded
  obtain ⟨reserveX, -, hdecoded⟩ := bind_ok hdecoded
  obtain ⟨reserveY, -, hdecoded⟩ := bind_ok hdecoded
  rw [if_neg hne] at hdecoded
  obtain ⟨baseFactor, -, hdecoded⟩ := bind_ok hdecoded
  obtain rfl := Except.ok.inj hdecoded
  exact ⟨_, rfl⟩

/-- An initialized Raydium AMM account with a fee of 25 basis points. -/
def ammAccount : List UInt8 :=
  toLeBytes 8 1 ++ List.replicate 168 0 ++ toLeBytes 8 25 ++ toLeBytes 8 10000 ++
    List.replicate 560 0

/-- A Meteora pair with a bin step of one percent and a base factor of `10000`. -/
def pairAccount : List UInt8 :=
  List.replicate 8 0 ++ toLeBytes 2 10000 ++ List.replicate 134 0 ++ toLeBytes 2 100 ++
    List.replicate 254 0

/-- What the decoder reads of the sample pool. -/
theorem ammAccount_reads :
    ammAccount.length = 752 ∧ readU64 ammAccount 0 = .ok 1 ∧
      readU64 ammAccount 176 = .ok 25 ∧ readU64 ammAccount 184 = .ok 10000 ∧
      ∀ offset ∈ [336, 368, 400, 432], readPubkey ammAccount offset = .ok Pubkey.default := by
  decide +kernel

/-- What the decoder reads of the sample pair. -/
theorem pairAccount_reads :
    pairAccount.length = 400 ∧ readI32 pairAccount 140 = .ok 0 ∧
      readU16 pairAccount 144 = .ok 100 ∧ readU16 pairAccount 8 = .ok 10000 ∧
      ∀ offset ∈ [152, 184, 216, 248], readPubkey pairAccount offset = .ok Pubkey.default := by
  decide +kernel

/-- The sample pool is active. -/
theorem ammAccount_decodes :
    ∃ pool, RaydiumAmmAdapter.decodePool Pubkey.default ammAccount = .ok (some pool) := by
  rw [show RaydiumAmmAdapter.decodePool = RaydiumAmm.decodePool from rfl]
  obtain ⟨hlen, hstatus, hnum, hden, hkeys⟩ := ammAccount_reads
  simp [RaydiumAmm.decodePool, bind, Except.bind, pure, Except.pure, RaydiumAmm.AMM_INFO_SIZE,
    RaydiumAmm.STATUS_OFFSET, RaydiumAmm.COIN_MINT_OFFSET, RaydiumAmm.PC_MINT_OFFSET,
    RaydiumAmm.COIN_VAULT_OFFSET, RaydiumAmm.PC_VAULT_OFFSET, RaydiumAmm.SWAP_FEE_NUM_OFFSET,
    RaydiumAmm.SWAP_FEE_DEN_OFFSET, RaydiumAmm.STATUS_INITIALIZED, hlen, hstatus, hnum, hden,
    hkeys]

/-- The sample pair is decoded, at a fee of the whole. -/
theorem pairAccount_decodes :
    ∃ pool, (MeteoraDlmmAdapter F).decodePool Pubkey.default pairAccount = .ok (some pool) := by
  obtain ⟨hlen, -, hbinStep, -, -⟩ := pairAccount_reads
  have hlong : MeteoraDlmm.LB_PAIR_MIN_SIZE ≤ pairAccount.length := by
    rw [hlen]
    decide
  rw [show (MeteoraDlmmAdapter F).decodePool = MeteoraDlmm.decodePool F from rfl]
  exact meteora_decodes Pubkey.default hlong hbinStep (by decide)

/-- The Raydium AMM account decodes to a pool with a fee below one. -/
theorem ammAccount_properFee :
    ∃ pool, RaydiumAmmAdapter.decodePool Pubkey.default ammAccount = .ok (some pool) ∧
      ProperPoolFee pool := by
  obtain ⟨pool, hpool⟩ := ammAccount_decodes
  obtain ⟨-, -, hnum, hden, -⟩ := ammAccount_reads
  have hmem : RaydiumAmmAdapter ∈ dexArbAdapters ExactF64 := List.mem_cons_self
  exact ⟨pool, hpool, (properFee_iff hmem hpool).mpr ⟨25, 10000, hnum, hden, by decide⟩⟩

/-- **A PAIR THAT CHARGES ONE PERCENT** is decoded with a fee of the whole. -/
theorem pairAccount_fee_whole :
    (∃ pool,
      (MeteoraDlmmAdapter ExactF64).decodePool Pubkey.default pairAccount = .ok (some pool) ∧
      pool.feeNumerator = 10000 ∧ pool.feeDenominator = 10000) ∧
    ¬∀ adapter ∈ dexArbAdapters ExactF64, ∀ address data pool,
      adapter.decodePool address data = .ok (some pool) → ProperPoolFee pool := by
  obtain ⟨pool, hpool⟩ := pairAccount_decodes (F := ExactF64)
  obtain ⟨-, -, hbinStep, hfactor, -⟩ := pairAccount_reads
  have hraw := hpool
  rw [show (MeteoraDlmmAdapter ExactF64).decodePool = MeteoraDlmm.decodePool ExactF64 from rfl]
    at hraw
  obtain ⟨baseFactor, binStep, hfactor', hstep', hnum, hden⟩ := meteoraDlmm_fee _ _ pool hraw
  obtain rfl := Except.ok.inj (hfactor.symm.trans hfactor')
  obtain rfl := Except.ok.inj (hbinStep.symm.trans hstep')
  have hwhole : pool.feeNumerator = 10000 := hnum.trans (by decide)
  refine ⟨⟨pool, hpool, hwhole, hden⟩, ?_⟩
  intro hall
  have hmem : MeteoraDlmmAdapter ExactF64 ∈ dexArbAdapters ExactF64 := by simp [dexArbAdapters]
  obtain ⟨-, hlt⟩ := hall _ hmem Pubkey.default pairAccount pool hpool
  rw [hwhole, hden] at hlt
  exact UInt64.lt_irrefl _ hlt

/-- A pair with a bin step of ten basis points and a base factor of ten. -/
def thinPairAccount : List UInt8 :=
  List.replicate 8 0 ++ toLeBytes 2 10 ++ List.replicate 134 0 ++ toLeBytes 2 10 ++
    List.replicate 254 0

/-- Both factors of the thin pair's fee are ten. -/
theorem thinPairAccount_reads :
    MeteoraDlmm.LB_PAIR_MIN_SIZE ≤ thinPairAccount.length ∧
      readU16 thinPairAccount MeteoraDlmm.BIN_STEP_OFFSET = .ok 10 ∧
      readU16 thinPairAccount MeteoraDlmm.BASE_FACTOR_OFFSET = .ok 10 := by
  decide +kernel

/-- Its fee is one basis point, the protocol's a hundredth of one. -/
theorem thinPairAccount_close :
    ∃ pool, MeteoraDlmm.decodePool ExactF64 Pubkey.default thinPairAccount = .ok (some pool) ∧
      |feeFraction pool - protocolFee 10 10| < 1 / 10000 := by
  obtain ⟨hlen, hstep, hfactor⟩ := thinPairAccount_reads
  obtain ⟨pool, hpool⟩ := meteora_decodes (F := ExactF64) Pubkey.default hlen hstep (by decide)
  exact ⟨pool, hpool, (meteoraFee_close_iff hpool hfactor hstep).mpr (by decide)⟩

/-- **A HUNDREDFOLD FEE**: the pair that charges one percent is decoded with the whole. -/
theorem pairAccount_fee_far :
    (∃ pool, MeteoraDlmm.decodePool ExactF64 Pubkey.default pairAccount = .ok (some pool) ∧
      feeFraction pool = 1 ∧ protocolFee 10000 100 = 1 / 100) ∧
    ¬∀ address data pool baseFactor binStep,
      MeteoraDlmm.decodePool ExactF64 address data = .ok (some pool) →
        readU16 data MeteoraDlmm.BASE_FACTOR_OFFSET = .ok baseFactor →
          readU16 data MeteoraDlmm.BIN_STEP_OFFSET = .ok binStep →
            |feeFraction pool - protocolFee baseFactor binStep| < 1 / 10000 := by
  obtain ⟨pool, hpool⟩ := pairAccount_decodes (F := ExactF64)
  rw [show (MeteoraDlmmAdapter ExactF64).decodePool = MeteoraDlmm.decodePool ExactF64 from rfl]
    at hpool
  obtain ⟨-, -, hbinStep, hfactor, -⟩ := pairAccount_reads
  obtain ⟨baseFactor, binStep, hfactor', hstep', hnum, hden⟩ := meteoraDlmm_fee _ _ pool hpool
  obtain rfl := Except.ok.inj (hfactor.symm.trans hfactor')
  obtain rfl := Except.ok.inj (hbinStep.symm.trans hstep')
  have hwhole : feeFraction pool = 1 := by
    rw [feeFraction, hnum.trans (show _ = (10000 : UInt64) by decide), hden]
    exact div_self (Nat.cast_ne_zero.mpr (by decide))
  have hprotocol : protocolFee 10000 100 = 1 / 100 := by
    rw [protocolFee, show (10000 : UInt16).toNat = 10000 from rfl,
      show (100 : UInt16).toNat = 100 from rfl]
    norm_num
  refine ⟨⟨pool, hpool, hwhole, hprotocol⟩, ?_⟩
  intro hall
  have hclose := hall _ _ pool _ _ hpool hfactor hbinStep
  rw [hwhole, hprotocol] at hclose
  norm_num [abs_of_pos] at hclose

end MevDecodedFees
