import MevBot.BreakerLaws
import MevBot.BundleAccounts
import MevBot.ExactReal
import MevBot.ExecutedTrades
import MevBot.ObligationRecords

/-! # What the filters see of a liquidation

    No lending adapter reads a mint: a liquidation trades the default key for the
    default key, on a "pool" that is the obligation account.  So the blacklist of
    tokens says nothing about liquidations, and the lamport limits are compared
    with half of the first borrow, in whatever unit the account counts it: in
    exact arithmetic a liquidation is accepted just when that amount is within
    the position limit and the adapter's bonus on it reaches the minimum profit
    (`liquidation_accepted_iff`). -/

namespace MevLiquidation

open MevMachine MevTypes MevLending MevCache MevStrategy MevRisk MevPipeline MevExecuted
open MevAdapterFacts MevObligationRecords MevBreaker MevExact ExactF64

/-! ## What the adapters leave out -/

section Decoding

variable {F : Type} [F64 F]

/-- A position without a mint. -/
def Mintless (positions : List LendingPosition) : Prop := ∀ p ∈ positions, p.mint = Pubkey.default

/-- No positions have no mints. -/
theorem mintless_nil : Mintless [] := fun _ hp => absurd hp List.not_mem_nil

/-- One position more. -/
theorem mintless_cons {p : LendingPosition} {positions : List LendingPosition}
    (hp : p.mint = Pubkey.default) (h : Mintless positions) : Mintless (p :: positions) :=
  List.forall_mem_cons.mpr ⟨hp, h⟩

/-- What the liquidation takes for a mint is the default key, with or without positions. -/
theorem Mintless.head {positions : List LendingPosition} (h : Mintless positions) :
    (positions.head?.map (·.mint)).getD Pubkey.default = Pubkey.default := by
  cases positions with
  | nil => rfl
  | cons p positions => exact h p List.mem_cons_self

/-- The collateral records are decoded without mints. -/
theorem parseCollateral_mintless {usd : Nat → UInt64} {data : List UInt8} {count offset : Nat}
    {parsed : List LendingPosition × Nat}
    (h : parseCollateral usd data count offset = .ok parsed) : Mintless parsed.1 := by
  rw [parseCollateral_scan] at h
  obtain rfl := Except.ok.inj h
  intro p hp
  obtain ⟨record, -, rfl⟩ := List.mem_map.mp hp
  rfl

/-- So are the liquidity records. -/
theorem parseLiquidity_mintless {usd : Nat → UInt64} {data : List UInt8} {count offset : Nat}
    {parsed : List LendingPosition} (h : parseLiquidity usd data count offset = .ok parsed) :
    Mintless parsed := by
  rw [parseLiquidity_scan] at h
  obtain rfl := Except.ok.inj h
  intro p hp
  obtain ⟨record, -, rfl⟩ := List.mem_map.mp hp
  rfl

/-- Marginfi names banks, and no mints either. -/
theorem parseBalances_mintless {data : List UInt8} {count offset : Nat}
    {parsed : List LendingPosition × List LendingPosition}
    (h : Marginfi.parseBalances F data count offset = .ok parsed) :
    Mintless parsed.1 ∧ Mintless parsed.2 := by
  induction count generalizing offset parsed with
  | zero =>
      obtain rfl := Except.ok.inj h
      exact ⟨mintless_nil, mintless_nil⟩
  | succ count ih =>
      rw [Marginfi.parseBalances] at h
      split at h
      · obtain rfl := Except.ok.inj h
        exact ⟨mintless_nil, mintless_nil⟩
      · obtain ⟨active, -, h⟩ := bind_ok h
        split at h
        · exact ih h
        · obtain ⟨bankPk, -, h⟩ := bind_ok h
          obtain ⟨assetShares, -, h⟩ := bind_ok h
          obtain ⟨liabilityShares, -, h⟩ := bind_ok h
          obtain ⟨⟨deposits, borrows⟩, hrest, h⟩ := bind_ok h
          obtain rfl := Except.ok.inj h
          obtain ⟨hdeposits, hborrows⟩ := ih hrest
          refine ⟨?_, ?_⟩
          · show Mintless (if _ then _ else _)
            split
            · exact mintless_cons rfl hdeposits
            · exact hdeposits
          · show Mintless (if _ then _ else _)
            split
            · exact mintless_cons rfl hborrows
            · exact hborrows

/-- What every adapter makes of an account. -/
structure Plain (address : Pubkey) (o : ObligationState F) : Prop where
  address : o.address = address
  deposits : Mintless o.deposits
  borrows : Mintless o.borrows
  repay : o.maxLiquidationAmount = maxLiquidation o.borrows
  bonus : o.liquidationBonusBps.toNat ≤ 500

/-- Kamino repays half of the first borrow, at two and a half percent. -/
theorem kamino_plain (address : Pubkey) (data : List UInt8) :
    Yields (Plain address)
      (Kamino.decodeObligation address data : Rust (Option (ObligationState F))) := by
  rw [Kamino.decodeObligation_eq]
  refine Yields.ite Yields.none ?_
  refine Yields.bind fun owner => Yields.bind fun depositsLen => ?_
  refine Yields.ite Yields.none ?_
  refine Yields.read fun parsed hdeposits => ?_
  have hplain : ∀ borrowsLen, Yields (Plain address) (do
      let borrows ← parseLiquidity Kamino.usd data (min borrowsLen 10) (parsed.2 + 4)
      let totalDeposit := (parsed.1.map (·.marketValueUsd)).foldl (· + ·) 0
      let totalBorrow := (borrows.map (·.marketValueUsd)).foldl (· + ·) 0
      return some
        { address, protocol := .kamino, owner, deposits := parsed.1, borrows,
          totalDepositUsd := totalDeposit, totalBorrowUsd := totalBorrow,
          healthFactor := (healthFactor totalDeposit totalBorrow : F),
          maxLiquidationAmount := maxLiquidation borrows,
          liquidationBonusBps := Kamino.KAMINO_LIQUIDATION_BONUS_BPS, slot := 0 }) := by
    intro borrowsLen
    refine Yields.read fun borrows hborrows => Yields.some ?_
    exact ⟨rfl, parseCollateral_mintless hdeposits, parseLiquidity_mintless hborrows, rfl,
      (by decide : Kamino.KAMINO_LIQUIDATION_BONUS_BPS.toNat ≤ 500)⟩
  dsimp only
  split
  · exact Yields.bind fun borrowsLen => hplain _
  · exact Yields.bind fun borrowsLen => hplain _

/-- Marginfi does so at the same bonus. -/
theorem marginfi_plain (address : Pubkey) (data : List UInt8) :
    Yields (Plain address)
      (Marginfi.decodeObligation address data : Rust (Option (ObligationState F))) := by
  refine Yields.ite Yields.none ?_
  refine Yields.bind fun owner => Yields.read fun parsed hparsed => Yields.some ?_
  obtain ⟨hdeposits, hborrows⟩ := parseBalances_mintless hparsed
  exact ⟨rfl, hdeposits, hborrows, rfl,
    (by decide : Marginfi.MARGINFI_LIQUIDATION_BONUS_BPS.toNat ≤ 500)⟩

/-- Save does so at five percent, also where the account ends before its lists. -/
theorem save_plain (address : Pubkey) (data : List UInt8) :
    Yields (Plain address)
      (Save.decodeObligation address data : Rust (Option (ObligationState F))) := by
  have hbonus : Save.SAVE_LIQUIDATION_BONUS_BPS.toNat ≤ 500 := by decide
  refine Yields.ite Yields.none ?_
  refine Yields.bind fun version => Yields.ite Yields.none ?_
  refine Yields.bind fun owner => Yields.bind fun deposited => Yields.bind fun borrowed => ?_
  dsimp only
  split
  · refine Yields.bind fun depositsLen => Yields.read fun parsed hdeposits => ?_
    have hmintless := parseCollateral_mintless hdeposits
    refine Yields.ite (Yields.bind fun borrowsLen => Yields.read fun borrows hborrows => ?_) ?_
    · refine Yields.read fun positions hpositions => Yields.some ?_
      obtain rfl := Except.ok.inj hpositions
      exact ⟨rfl, hmintless, parseLiquidity_mintless hborrows, rfl, hbonus⟩
    · refine Yields.read fun borrows hborrows => Yields.read fun positions hpositions => ?_
      obtain rfl := Except.ok.inj hborrows
      obtain rfl := Except.ok.inj hpositions
      exact Yields.some ⟨rfl, hmintless, mintless_nil, rfl, hbonus⟩
  · refine Yields.read fun positions hpositions => Yields.some ?_
    obtain rfl := Except.ok.inj hpositions
    exact ⟨rfl, mintless_nil, mintless_nil, rfl, hbonus⟩

/-- All three adapters leave the same things out. -/
theorem decoded_plain {adapter : LendingAdapter F} (h : adapter ∈ lendingAdapters F)
    (address : Pubkey) (data : List UInt8) :
    Yields (Plain address) (adapter.decodeObligation address data) := by
  simp only [lendingAdapters, List.mem_cons, List.not_mem_nil, or_false] at h
  rcases h with rfl | rfl | rfl
  · exact kamino_plain address data
  · exact marginfi_plain address data
  · exact save_plain address data

end Decoding

/-- Half of a borrow is far below `2 ^ 64`. -/
theorem Plain.repay_lt {F : Type} {address : Pubkey} {o : ObligationState F}
    (h : Plain address o) : o.maxLiquidationAmount.toNat < 2 ^ 63 := by
  rw [h.repay, maxLiquidation]
  split
  · rename_i borrow hborrow
    have hlt := borrow.borrowedAmount.toNat_lt
    rw [UInt64.toNat_div, show (2 : UInt64).toNat = 2 from rfl]
    omega
  · decide

/-! ## The profit on offer -/

/-- The bonus on a repaid amount, rounded down: nothing saturates. -/
theorem exact_bonus {repay bonus : Nat} (hrepay : repay < 2 ^ 63) (hbonus : bonus ≤ 500) :
    (F64.toI64 (F64.ofNat repay * (F64.ofNat bonus / 10000.0 : ExactF64))).toInt =
      (repay * bonus / 10000 : Nat) := by
  have hfloor : trunc ((repay : ℝ) * ((bonus : ℝ) / 10000.0)) = (repay * bonus / 10000 : Nat) := by
    rw [trunc, if_pos (by positivity), show (10000.0 : ℝ) = ((10000 : Nat) : ℝ) by norm_num,
      ← mul_div_assoc, ← Nat.cast_mul, Int.floor_div_natCast, Int.floor_natCast,
      Int.natCast_ediv]
  have hbound : repay * bonus / 10000 < 2 ^ 63 := by
    rw [Nat.div_lt_iff_lt_mul (by omega)]
    calc repay * bonus ≤ repay * 500 := Nat.mul_le_mul_left repay hbonus
      _ < 2 ^ 63 * 10000 := by omega
  rw [ofNat_eq, ofNat_eq, fin_scientific, fin_div _ (by norm_num), fin_mul]
  show (Int64.ofInt (max (-2 ^ 63) (min (trunc _) (2 ^ 63 - 1)))).toInt = _
  rw [hfloor, min_eq_left (by omega), max_eq_right (by omega), Int64.toInt_ofInt]
  exact bmod_fits ⟨by omega, by omega⟩

/-! ## The filters -/

/-- What the filters see of an obligation: half of its first borrow, repaid in the default
    key for the default key, at the bonus of the obligation's protocol. -/
structure Seen (update : AccountUpdate) (o : ObligationState ExactF64) (opp : Opportunity) :
    Prop where
  step : ∃ step, opp.path = [step] ∧ step.poolAddress = update.pubkey ∧
    step.inputMint = Pubkey.default ∧ step.outputMint = Pubkey.default ∧
    step.amountIn = maxLiquidation o.borrows
  profit : opp.expectedProfitLamports.toInt =
    ((maxLiquidation o.borrows).toNat * o.liquidationBonusBps.toNat / 10000 : Nat)

/-- The obligation is what an adapter decodes of the account, under the account's owner. -/
def ReadOff (update : AccountUpdate) (o : ObligationState ExactF64) : Prop :=
  ∃ adapter ∈ lendingAdapters ExactF64, update.owner = adapter.programId ∧
    adapter.decodeObligation update.pubkey update.data = .ok (some o)

/-- **WHEN A LIQUIDATION IS ACCEPTED**, in exact arithmetic: just when the account is on no
    list of pools, the default key on no list of tokens, the obligation's bonus on half of
    its first borrow, rounded down, at least the minimum profit in lamports and that half
    itself at most the position limit in lamports, whatever the repaid token is. -/
theorem liquidation_accepted_iff (cfg : PipelineConfig ExactF64) (update : AccountUpdate)
    (opp : Opportunity) (h : cfg.liquidation.processUpdate ExactF64 update = some opp) :
    ∃ o, ReadOff update o ∧ Seen update o opp ∧
      cfg.liquidation.minBonusBps ≤ o.liquidationBonusBps ∧
      (cfg.accepts opp = true ↔
        update.pubkey ∉ cfg.blacklist.poolAddresses ∧
        Pubkey.default ∉ cfg.blacklist.tokenMints ∧
        cfg.risk.minProfitLamports.toInt ≤
          ((maxLiquidation o.borrows).toNat * o.liquidationBonusBps.toNat / 10000 : Nat) ∧
        maxLiquidation o.borrows ≤ cfg.risk.maxPositionLamports) := by
  obtain ⟨adapter, hadapter, o, howner, hdecode, hoffered⟩ := processUpdate_offered h
  have hplain := decoded_plain hadapter update.pubkey update.data o hdecode
  have hprofit := exact_bonus hplain.repay_lt hplain.bonus
  obtain rfl := hoffered.made
  have hstep : (liquidationStep o o.maxLiquidationAmount).poolAddress = update.pubkey ∧
      (liquidationStep o o.maxLiquidationAmount).inputMint = Pubkey.default ∧
      (liquidationStep o o.maxLiquidationAmount).outputMint = Pubkey.default :=
    ⟨hplain.address, hplain.borrows.head, hplain.deposits.head⟩
  refine ⟨o, ⟨adapter, hadapter, howner, hdecode⟩, ?_, hoffered.bonus, ?_⟩
  · refine ⟨⟨_, rfl, hstep.1, hstep.2.1, hstep.2.2, hplain.repay⟩, ?_⟩
    rw [← hplain.repay]
    exact hprofit
  rw [accepts_iff, ← hplain.repay]
  simp only [List.forall_mem_singleton, List.head?_cons, Option.some.injEq, forall_eq']
  rw [hstep.1, hstep.2.1, hstep.2.2, Int64.le_iff_toInt_le, hprofit]
  constructor
  · rintro ⟨⟨hpool, hmint, -⟩, hfloor, hposition⟩
    exact ⟨hpool, hmint, hfloor, hposition⟩
  · rintro ⟨hpool, hmint, hfloor, hposition⟩
    exact ⟨⟨hpool, hmint, hmint⟩, hfloor, hposition⟩

open MevAccounts in
/-- The sample liquidation is read off, seen and accepted so. -/
theorem obligation_seen :
    ∃ o, ReadOff obligationUpdate o ∧ Seen obligationUpdate o sampleLiquidation ∧
      200 ≤ o.liquidationBonusBps ∧
      maxLiquidation o.borrows ≤ (liquidationConfig 1000000000).risk.maxPositionLamports := by
  obtain ⟨o, hread, hseen, hbonus, haccepted⟩ := liquidation_accepted_iff
    (liquidationConfig 1000000000) obligationUpdate sampleLiquidation obligationUpdate_found
  exact ⟨o, hread, hseen, hbonus, (haccepted.mp (liquidationConfig_accepts _)).2.2.2⟩

end MevLiquidation
