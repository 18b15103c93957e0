import MevBot.DexAdapters
import MevBot.ExactReal
import MevBot.LendingAdapters

/-! # Account discriminators

    An Anchor account starts with eight bytes that name its type.  None of the
    five decoders of Anchor accounts reads them: two accounts that differ in them
    only decode alike (`decode_agree`).  So no decoder tells its own accounts
    from others of the same layout, whatever their discriminator
    (`discriminator_unchecked`). -/

namespace MevDiscriminators

open MevMachine MevTypes MevDex MevLending MevExact ExactF64

variable {F : Type} [F64 F]

/-! ## Accounts that agree behind the discriminator -/

/-- The width of a discriminator. -/
def DISCRIMINATOR_SIZE : Nat := 8

/-- Same length, and the same bytes from the ninth on. -/
structure Agree (data data' : List UInt8) : Prop where
  length : data.length = data'.length
  drop : data.drop DISCRIMINATOR_SIZE = data'.drop DISCRIMINATOR_SIZE

/-- Behind the discriminator the two accounts have the same slices. -/
theorem Agree.slice {data data' : List UInt8} (h : Agree data data') (offset : Nat)
    (hoffset : DISCRIMINATOR_SIZE ≤ offset) (n : Nat) :
    slice data offset n = slice data' offset n := by
  have hdrop : data.drop offset = data'.drop offset := by
    have hsplit : offset = DISCRIMINATOR_SIZE + (offset - DISCRIMINATOR_SIZE) := by omega
    rw [hsplit, ← List.drop_drop, ← List.drop_drop, h.drop]
  rw [MevMachine.slice, MevMachine.slice, h.length, hdrop]

/-- The readers take slices, so all of them agree there. -/
theorem Agree.readU8 {data data' : List UInt8} (h : Agree data data') (offset : Nat)
    (hoffset : DISCRIMINATOR_SIZE ≤ offset) : readU8 data offset = readU8 data' offset := by
  rw [MevMachine.readU8, MevMachine.readU8, h.slice offset hoffset]

theorem Agree.readU16 {data data' : List UInt8} (h : Agree data data') (offset : Nat)
    (hoffset : DISCRIMINATOR_SIZE ≤ offset) : readU16 data offset = readU16 data' offset := by
  rw [MevMachine.readU16, MevMachine.readU16, h.slice offset hoffset]

theorem Agree.readU32 {data data' : List UInt8} (h : Agree data data') (offset : Nat)
    (hoffset : DISCRIMINATOR_SIZE ≤ offset) : readU32 data offset = readU32 data' offset := by
  rw [MevMachine.readU32, MevMachine.readU32, h.slice offset hoffset]

theorem Agree.readI32 {data data' : List UInt8} (h : Agree data data') (offset : Nat)
    (hoffset : DISCRIMINATOR_SIZE ≤ offset) : readI32 data offset = readI32 data' offset := by
  rw [MevMachine.readI32, MevMachine.readI32, h.slice offset hoffset]

theorem Agree.readU64 {data data' : List UInt8} (h : Agree data data') (offset : Nat)
    (hoffset : DISCRIMINATOR_SIZE ≤ offset) : readU64 data offset = readU64 data' offset := by
  rw [MevMachine.readU64, MevMachine.readU64, h.slice offset hoffset]

/-- Also on the widest fields. -/
theorem Agree.readU128 {data data' : List UInt8} (h : Agree data data') (offset : Nat)
    (hoffset : DISCRIMINATOR_SIZE ≤ offset) : readU128 data offset = readU128 data' offset := by
  rw [MevMachine.readU128, MevMachine.readU128, h.slice offset hoffset]

/-- A share count is an `i128` read as a fixed-point number. -/
theorem Agree.readI80F48 {data data' : List UInt8} (h : Agree data data') (offset : Nat)
    (hoffset : DISCRIMINATOR_SIZE ≤ offset) :
    Marginfi.readI80F48 F data offset = Marginfi.readI80F48 F data' offset := by
  rw [Marginfi.readI80F48, Marginfi.readI80F48, readI128, readI128, h.slice offset hoffset]

/-- Keys are read from slices as well. -/
theorem Agree.readPubkey {data data' : List UInt8} (h : Agree data data') (offset : Nat)
    (hoffset : DISCRIMINATOR_SIZE ≤ offset) :
    readPubkey data offset = readPubkey data' offset := by
  rw [MevTypes.readPubkey, MevTypes.readPubkey, h.slice offset hoffset]

/-- The collateral records behind the discriminator. -/
theorem Agree.parseCollateral {data data' : List UInt8} (h : Agree data data')
    (usd : Nat → UInt64) (count offset : Nat) (hoffset : DISCRIMINATOR_SIZE ≤ offset) :
    parseCollateral usd data count offset = parseCollateral usd data' count offset := by
  induction count generalizing offset with
  | zero => rfl
  | succ count ih =>
      rw [MevLending.parseCollateral, MevLending.parseCollateral, h.length,
        h.readPubkey offset hoffset,
        h.readU64 (offset + 32) (Nat.le_add_right_of_le hoffset),
        h.readU128 (offset + 40) (Nat.le_add_right_of_le hoffset),
        ih _ (Nat.le_add_right_of_le hoffset)]

/-- The liquidity records behind the discriminator. -/
theorem Agree.parseLiquidity {data data' : List UInt8} (h : Agree data data')
    (usd : Nat → UInt64) (count offset : Nat) (hoffset : DISCRIMINATOR_SIZE ≤ offset) :
    parseLiquidity usd data count offset = parseLiquidity usd data' count offset := by
  induction count generalizing offset with
  | zero => rfl
  | succ count ih =>
      rw [MevLending.parseLiquidity, MevLending.parseLiquidity, h.length,
        h.readPubkey offset hoffset,
        h.readU128 (offset + 48) (Nat.le_add_right_of_le hoffset),
        h.readU128 (offset + 64) (Nat.le_add_right_of_le hoffset),
        ih _ (Nat.le_add_right_of_le hoffset)]

/-- The balance slots behind the discriminator. -/
theorem Agree.parseBalances {data data' : List UInt8} (h : Agree data data')
    (count offset : Nat) (hoffset : DISCRIMINATOR_SIZE ≤ offset) :
    Marginfi.parseBalances F data count offset = Marginfi.parseBalances F data' count offset := by
  induction count generalizing offset with
  | zero => rfl
  | succ count ih =>
      rw [Marginfi.parseBalances, Marginfi.parseBalances, h.length, h.readU8 offset hoffset,
        h.readPubkey (offset + 1) (Nat.le_add_right_of_le hoffset),
        h.readI80F48 (offset + 40) (Nat.le_add_right_of_le hoffset),
        h.readI80F48 (offset + 56) (Nat.le_add_right_of_le hoffset),
        ih _ (Nat.le_add_right_of_le hoffset)]

/-! ## The five decoders -/

/-- Every field the Whirlpool decoder reads lies behind the discriminator. -/
theorem orcaWhirlpool_agree {data data' : List UInt8} (h : Agree data data') (address : Pubkey) :
    OrcaWhirlpool.decodePool F address data = OrcaWhirlpool.decodePool F address data' := by
  simp only [OrcaWhirlpool.decodePool, h.length,
    h.readU16 OrcaWhirlpool.FEE_RATE_OFFSET (by decide),
    h.readU128 OrcaWhirlpool.LIQUIDITY_OFFSET (by decide),
    h.readU128 OrcaWhirlpool.SQRT_PRICE_OFFSET (by decide),
    h.readPubkey OrcaWhirlpool.TOKEN_MINT_A_OFFSET (by decide),
    h.readPubkey OrcaWhirlpool.TOKEN_MINT_B_OFFSET (by decide),
    h.readPubkey OrcaWhirlpool.TOKEN_VAULT_A_OFFSET (by decide),
    h.readPubkey OrcaWhirlpool.TOKEN_VAULT_B_OFFSET (by decide)]

/-- Every field of a concentrated Raydium pool lies behind the discriminator. -/
theorem raydiumClmm_agree {data data' : List UInt8} (h : Agree data data') (address : Pubkey) :
    RaydiumClmm.decodePool F address data = RaydiumClmm.decodePool F address data' := by
  simp only [RaydiumClmm.decodePool, h.length,
    h.readU8 RaydiumClmm.STATUS_OFFSET (by decide),
    h.readU128 RaydiumClmm.LIQUIDITY_OFFSET (by decide),
    h.readU128 RaydiumClmm.SQRT_PRICE_X64_OFFSET (by decide),
    h.readPubkey RaydiumClmm.TOKEN_MINT_0_OFFSET (by decide),
    h.readPubkey RaydiumClmm.TOKEN_MINT_1_OFFSET (by decide),
    h.readPubkey RaydiumClmm.TOKEN_VAULT_0_OFFSET (by decide),
    h.readPubkey RaydiumClmm.TOKEN_VAULT_1_OFFSET (by decide),
    h.readI32 RaydiumClmm.TICK_CURRENT_OFFSET (by decide)]

/-- The base factor of a Meteora pair is the first field behind. -/
theorem meteoraDlmm_agree {data data' : List UInt8} (h : Agree data data') (address : Pubkey) :
    MeteoraDlmm.decodePool F address data = MeteoraDlmm.decodePool F address data' := by
  simp only [MeteoraDlmm.decodePool, h.length,
    h.readI32 MeteoraDlmm.ACTIVE_ID_OFFSET (by decide),
    h.readU16 MeteoraDlmm.BIN_STEP_OFFSET (by decide),
    h.readPubkey MeteoraDlmm.TOKEN_X_MINT_OFFSET (by decide),
    h.readPubkey MeteoraDlmm.TOKEN_Y_MINT_OFFSET (by decide),
    h.readPubkey MeteoraDlmm.RESERVE_X_OFFSET (by decide),
    h.readPubkey MeteoraDlmm.RESERVE_Y_OFFSET (by decide),
    h.readU16 MeteoraDlmm.BASE_FACTOR_OFFSET (by decide)]

/-- The records parsed end at `offset` or behind it. -/
def EndsFrom (offset : Nat) (m : Rust (List LendingPosition × Nat)) : Prop :=
  ∀ r, m = .ok r → offset ≤ r.2

/-- What fails ends nowhere. -/
theorem EndsFrom.bind {α : Type} {offset : Nat} {m : Rust α}
    {f : α → Rust (List LendingPosition × Nat)} (h : ∀ a, m = .ok a → EndsFrom offset (f a)) :
    EndsFrom offset (m >>= f) := by
  intro r hr
  obtain ⟨a, ha, hr⟩ := bind_ok hr
  exact h a ha r hr

theorem EndsFrom.pure {offset endOffset : Nat} (h : offset ≤ endOffset)
    (positions : List LendingPosition) : EndsFrom offset (.ok (positions, endOffset)) := by
  intro r hr
  obtain rfl := Except.ok.inj hr
  exact h

/-- The collateral loop only moves forward. -/
theorem parseCollateral_ends (usd : Nat → UInt64) (data : List UInt8) (count offset : Nat) :
    EndsFrom offset (parseCollateral usd data count offset) := by
  induction count generalizing offset with
  | zero => exact EndsFrom.pure (Nat.le_refl offset) []
  | succ count ih =>
      rw [parseCollateral]
      split
      · exact EndsFrom.pure (Nat.le_refl offset) []
      · refine EndsFrom.bind fun reserve _ => EndsFrom.bind fun amount _ => ?_
        refine EndsFrom.bind fun marketValue _ => EndsFrom.bind fun r hr => ?_
        obtain ⟨rest, endOffset⟩ := r
        exact EndsFrom.pure (Nat.le_of_add_right_le (ih (offset + 56) _ hr)) _

/-- The borrow count is read where the collateral ends, so behind the discriminator too. -/
theorem kamino_agree {data data' : List UInt8} (h : Agree data data') (address : Pubkey) :
    (Kamino.decodeObligation address data : Rust (Option (ObligationState F))) =
      Kamino.decodeObligation address data' := by
  simp only [Kamino.decodeObligation_eq, h.length,
    h.readPubkey Kamino.OWNER_OFFSET (by decide),
    h.readU32 Kamino.DEPOSITS_LEN_OFFSET (by decide),
    h.parseCollateral Kamino.usd _ (Kamino.DEPOSITS_LEN_OFFSET + 4) (by decide)]
  refine ite_congr rfl (fun _ => rfl) fun _ => ?_
  refine bind_congr fun _ => bind_congr fun depositsLen => ite_congr rfl (fun _ => rfl) fun _ => ?_
  cases hdeposits : parseCollateral Kamino.usd data' depositsLen.toNat
      (Kamino.DEPOSITS_LEN_OFFSET + 4) with
  | error e => rfl
  | ok result =>
      obtain ⟨deposits, offset⟩ := result
      have hends : Kamino.DEPOSITS_LEN_OFFSET + 4 ≤ offset :=
        parseCollateral_ends Kamino.usd data' _ _ _ hdeposits
      have hoffset : DISCRIMINATOR_SIZE ≤ offset := Nat.le_trans (by decide) hends
      simp only [bind, Except.bind, h.readU32 offset hoffset,
        h.parseLiquidity Kamino.usd _ (offset + 4) (Nat.le_add_right_of_le hoffset)]

/-- The sixteen slots lie behind the authority. -/
theorem marginfi_agree {data data' : List UInt8} (h : Agree data data') (address : Pubkey) :
    (Marginfi.decodeObligation address data : Rust (Option (ObligationState F))) =
      Marginfi.decodeObligation address data' := by
  simp only [Marginfi.decodeObligation, h.length,
    h.readPubkey Marginfi.AUTHORITY_OFFSET (by decide),
    h.parseBalances Marginfi.MAX_BALANCES Marginfi.BALANCES_OFFSET (by decide)]

/-! ## Acceptance -/

/-- The decoders of Anchor accounts. -/
inductive AnchorDecoder where
  | orcaWhirlpool
  | raydiumClmm
  | meteoraDlmm
  | kamino
  | marginfi

variable (F) in
/-- The decoder returns a pool or an obligation for the account data. -/
def AnchorDecoder.Accepts : AnchorDecoder → List UInt8 → Prop
  | .orcaWhirlpool, data =>
      ∃ address pool, OrcaWhirlpool.decodePool F address data = .ok (some pool)
  | .raydiumClmm, data =>
      ∃ address pool, RaydiumClmm.decodePool F address data = .ok (some pool)
  | .meteoraDlmm, data =>
      ∃ address pool, MeteoraDlmm.decodePool F address data = .ok (some pool)
  | .kamino, data =>
      ∃ (address : Pubkey) (obligation : ObligationState F),
        Kamino.decodeObligation address data = .ok (some obligation)
  | .marginfi, data =>
      ∃ (address : Pubkey) (obligation : ObligationState F),
        Marginfi.decodeObligation address data = .ok (some obligation)

variable (F) in
/-- All accounts the decoder accepts start with one discriminator. -/
def ChecksDiscriminator (d : AnchorDecoder) : Prop :=
  ∃ discriminator : List UInt8, ∀ data, d.Accepts F data →
    data.take DISCRIMINATOR_SIZE = discriminator

/-- **NO DECODER READS THE DISCRIMINATOR.** -/
theorem decode_agree {data data' : List UInt8} (h : Agree data data') (d : AnchorDecoder)
    (haccepts : d.Accepts F data) : d.Accepts F data' := by
  cases d with
  | orcaWhirlpool =>
      obtain ⟨address, pool, hpool⟩ := haccepts
      exact ⟨address, pool, (orcaWhirlpool_agree h address).symm.trans hpool⟩
  | raydiumClmm =>
      obtain ⟨address, pool, hpool⟩ := haccepts
      exact ⟨address, pool, (raydiumClmm_agree h address).symm.trans hpool⟩
  | meteoraDlmm =>
      obtain ⟨address, pool, hpool⟩ := haccepts
      exact ⟨address, pool, (meteoraDlmm_agree h address).symm.trans hpool⟩
  | kamino =>
      obtain ⟨address, obligation, hobligation⟩ := haccepts
      exact ⟨address, obligation, (kamino_agree h address).symm.trans hobligation⟩
  | marginfi =>
      obtain ⟨address, obligation, hobligation⟩ := haccepts
      exact ⟨address, obligation, (marginfi_agree h address).symm.trans hobligation⟩

/-- Accounts that share a body agree, whatever their discriminators. -/
theorem agree_header {header header' : List UInt8} (hlen : header.length = DISCRIMINATOR_SIZE)
    (hlen' : header'.length = DISCRIMINATOR_SIZE) (body : List UInt8) :
    Agree (header ++ body) (header' ++ body) where
  length := by rw [List.length_append, List.length_append, hlen, hlen']
  drop := by rw [← hlen, List.drop_left, hlen, ← hlen', List.drop_left]

/-- An account without room for a discriminator is accepted by no decoder. -/
theorem accepts_length {d : AnchorDecoder} {data : List UInt8} (h : d.Accepts F data) :
    DISCRIMINATOR_SIZE ≤ data.length := by
  by_contra hshort
  rw [DISCRIMINATOR_SIZE, Nat.not_le] at hshort
  cases d with
  | orcaWhirlpool =>
      obtain ⟨address, pool, hpool⟩ := h
      rw [OrcaWhirlpool.decodePool, if_pos (Nat.lt_trans hshort (by decide))] at hpool
      cases hpool
  | raydiumClmm =>
      obtain ⟨address, pool, hpool⟩ := h
      rw [RaydiumClmm.decodePool, if_pos (Nat.lt_trans hshort (by decide))] at hpool
      cases hpool
  | meteoraDlmm =>
      obtain ⟨address, pool, hpool⟩ := h
      rw [MeteoraDlmm.decodePool, if_pos (Nat.lt_trans hshort (by decide))] at hpool
      cases hpool
  | kamino =>
      obtain ⟨address, obligation, hobligation⟩ := h
      rw [Kamino.decodeObligation_eq, if_pos (Nat.lt_trans hshort (by decide))] at hobligation
      cases hobligation
  | marginfi =>
      obtain ⟨address, obligation, hobligation⟩ := h
      rw [Marginfi.decodeObligation, if_pos (Nat.lt_trans hshort (by decide))] at hobligation
      cases hobligation

/-- An accepted account is accepted under any discriminator. -/
theorem accepts_any {d : AnchorDecoder} {data : List UInt8} (h : d.Accepts F data)
    (header : List UInt8) (hlen : header.length = DISCRIMINATOR_SIZE) :
    d.Accepts F (header ++ data.drop DISCRIMINATOR_SIZE) := by
  have htake : (data.take DISCRIMINATOR_SIZE).length = DISCRIMINATOR_SIZE := by
    rw [List.length_take, Nat.min_eq_left (accepts_length h)]
  refine decode_agree (agree_header htake hlen _) d ?_
  rw [List.take_append_drop]
  exact h

/-- A decoder that accepts anything at all has no discriminator. -/
theorem not_checks_of_accepts {d : AnchorDecoder} {data : List UInt8} (h : d.Accepts F data) :
    ¬ChecksDiscriminator F d := by
  rintro ⟨discriminator, hchecks⟩
  have hzero := hchecks _ (accepts_any h (List.replicate 8 0) rfl)
  have hone := hchecks _ (accepts_any h (List.replicate 8 1) rfl)
  have hsame : List.replicate 8 (0 : UInt8) = List.replicate 8 1 := hzero.trans hone.symm
  exact absurd hsame (by decide)

/-! ## Accounts the decoders accept -/

/-- An account of each kind, under a discriminator of zeros. -/
def sampleAccount : AnchorDecoder → List UInt8
  | .orcaWhirlpool =>
      List.replicate 49 0 ++ [1] ++ List.replicate 15 0 ++ [1] ++ List.replicate 587 0
  | .raydiumClmm =>
      List.replicate 245 0 ++ [1] ++ List.replicate 15 0 ++ [1] ++ List.replicate 15 0 ++ [4]
        ++ List.replicate 1266 0
  | .meteoraDlmm => List.replicate 144 0 ++ [1] ++ List.replicate 255 0
  | .kamino => List.replicate 400 0
  | .marginfi => List.replicate 300 0

/-- What the decoder reads of the sample Whirlpool. -/
theorem orcaWhirlpool_reads :
    (sampleAccount .orcaWhirlpool).length = 653 ∧
      readU16 (sampleAccount .orcaWhirlpool) 45 = .ok 0 ∧
      readU128 (sampleAccount .orcaWhirlpool) 49 = .ok 1 ∧
      readU128 (sampleAccount .orcaWhirlpool) 65 = .ok 1 ∧
      ∀ offset ∈ [101, 133, 165, 197],
        readPubkey (sampleAccount .orcaWhirlpool) offset = .ok Pubkey.default := by
  decide +kernel

/-- The sample pool is at the price one. -/
theorem raydiumClmm_reads :
    (sampleAccount .raydiumClmm).length = 1544 ∧
      readU8 (sampleAccount .raydiumClmm) 277 = .ok 4 ∧
      readU128 (sampleAccount .raydiumClmm) 237 = .ok (2 ^ 64) ∧
      readU128 (sampleAccount .raydiumClmm) 253 = .ok (2 ^ 64) ∧
      readI32 (sampleAccount .raydiumClmm) 269 = .ok 0 ∧
      ∀ offset ∈ [73, 105, 137, 169],
        readPubkey (sampleAccount .raydiumClmm) offset = .ok Pubkey.default := by
  decide +kernel

/-- The sample pair is at bin zero, with a bin step of one. -/
theorem meteoraDlmm_reads :
    (sampleAccount .meteoraDlmm).length = 400 ∧
      readI32 (sampleAccount .meteoraDlmm) 140 = .ok 0 ∧
      readU16 (sampleAccount .meteoraDlmm) 144 = .ok 1 ∧
      readU16 (sampleAccount .meteoraDlmm) 8 = .ok 0 ∧
      ∀ offset ∈ [152, 184, 216, 248],
        readPubkey (sampleAccount .meteoraDlmm) offset = .ok Pubkey.default := by
  decide +kernel

/-- The sample obligation has neither deposits nor borrows. -/
theorem kamino_reads :
    (sampleAccount .kamino).length = 400 ∧
      readPubkey (sampleAccount .kamino) 64 = .ok Pubkey.default ∧
      readU32 (sampleAccount .kamino) 96 = .ok 0 ∧
      readU32 (sampleAccount .kamino) 100 = .ok 0 := by
  decide +kernel

/-- The first two slots of the sample account are inactive; all others are cut off. -/
theorem marginfi_reads :
    (sampleAccount .marginfi).length = 300 ∧
      readPubkey (sampleAccount .marginfi) 40 = .ok Pubkey.default ∧
      readU8 (sampleAccount .marginfi) 72 = .ok 0 ∧
      readU8 (sampleAccount .marginfi) 176 = .ok 0 := by
  decide +kernel

/-- Whirlpools keep zero virtual reserves, so nothing is asked of the arithmetic. -/
theorem orcaWhirlpool_accepts :
    AnchorDecoder.Accepts F .orcaWhirlpool (sampleAccount .orcaWhirlpool) := by
  obtain ⟨hlen, hfee, hliquidity, hsqrt, hkeys⟩ := orcaWhirlpool_reads
  refine ⟨Pubkey.default, ?_⟩
  simp [OrcaWhirlpool.decodePool, bind, Except.bind, pure, Except.pure,
    OrcaWhirlpool.WHIRLPOOL_SIZE_MIN, OrcaWhirlpool.FEE_RATE_OFFSET,
    OrcaWhirlpool.LIQUIDITY_OFFSET, OrcaWhirlpool.SQRT_PRICE_OFFSET,
    OrcaWhirlpool.TOKEN_MINT_A_OFFSET, OrcaWhirlpool.TOKEN_MINT_B_OFFSET,
    OrcaWhirlpool.TOKEN_VAULT_A_OFFSET, OrcaWhirlpool.TOKEN_VAULT_B_OFFSET,
    hlen, hfee, hliquidity, hsqrt, hkeys]

/-- This decoder turns zero virtual reserves away. -/
theorem raydiumClmm_accepts (hunit : (virtualReserves F (2 ^ 64) (2 ^ 64)).1 ≠ 0 ∧
      (virtualReserves F (2 ^ 64) (2 ^ 64)).2 ≠ 0) :
    AnchorDecoder.Accepts F .raydiumClmm (sampleAccount .raydiumClmm) := by
  obtain ⟨hlen, hstatus, hliquidity, hsqrt, htick, hkeys⟩ := raydiumClmm_reads
  refine ⟨Pubkey.default, ?_⟩
  have hactive : (4 : UInt8) &&& RaydiumClmm.STATUS_SWAP ≠ 0 := by decide
  simp [RaydiumClmm.decodePool, bind, Except.bind, pure, Except.pure,
    RaydiumClmm.POOL_STATE_SIZE, RaydiumClmm.STATUS_OFFSET, RaydiumClmm.LIQUIDITY_OFFSET,
    RaydiumClmm.SQRT_PRICE_X64_OFFSET, RaydiumClmm.TOKEN_MINT_0_OFFSET,
    RaydiumClmm.TOKEN_MINT_1_OFFSET, RaydiumClmm.TOKEN_VAULT_0_OFFSET,
    RaydiumClmm.TOKEN_VAULT_1_OFFSET, RaydiumClmm.TICK_CURRENT_OFFSET,
    hlen, hstatus, hactive, hliquidity, hsqrt, htick, hkeys, -Nat.reducePow, hunit]

/-- A pair's reserves are never zero. -/
theorem meteoraDlmm_accepts :
    AnchorDecoder.Accepts F .meteoraDlmm (sampleAccount .meteoraDlmm) := by
  obtain ⟨hlen, hactiveId, hbinStep, hfactor, hkeys⟩ := meteoraDlmm_reads
  refine ⟨Pubkey.default, ?_⟩
  simp [MeteoraDlmm.decodePool, bind, Except.bind, pure, Except.pure,
    MeteoraDlmm.LB_PAIR_MIN_SIZE, MeteoraDlmm.ACTIVE_ID_OFFSET, MeteoraDlmm.BIN_STEP_OFFSET,
    MeteoraDlmm.TOKEN_X_MINT_OFFSET, MeteoraDlmm.TOKEN_Y_MINT_OFFSET,
    MeteoraDlmm.RESERVE_X_OFFSET, MeteoraDlmm.RESERVE_Y_OFFSET, MeteoraDlmm.BASE_FACTOR_OFFSET,
    hlen, hactiveId, hbinStep, hfactor, hkeys]

/-- An obligation without positions is decoded. -/
theorem kamino_accepts : AnchorDecoder.Accepts F .kamino (sampleAccount .kamino) := by
  obtain ⟨hlen, howner, hdeposits, hborrows⟩ := kamino_reads
  refine ⟨Pubkey.default, ?_⟩
  simp [Kamino.decodeObligation_eq, bind, Except.bind, pure, Except.pure,
    Kamino.OBLIGATION_MIN_SIZE, Kamino.OWNER_OFFSET, Kamino.DEPOSITS_LEN_OFFSET,
    parseCollateral, parseLiquidity, hlen, howner, hdeposits, hborrows]

/-- So is an account without balances. -/
theorem marginfi_accepts : AnchorDecoder.Accepts F .marginfi (sampleAccount .marginfi) := by
  obtain ⟨hlen, hauthority, hfirst, hsecond⟩ := marginfi_reads
  refine ⟨Pubkey.default, ?_⟩
  simp [Marginfi.decodeObligation, bind, Except.bind, pure, Except.pure,
    Marginfi.MARGINFI_ACCOUNT_MIN_SIZE, Marginfi.AUTHORITY_OFFSET, Marginfi.BALANCES_OFFSET,
    Marginfi.MAX_BALANCES, Marginfi.BALANCE_SIZE, Marginfi.parseBalances,
    hlen, hauthority, hfirst, hsecond]

variable (F) in
/-- A liquidity of `2 ^ 64` at the price one has virtual reserves on both sides. -/
def UnitReserves : Prop :=
  (virtualReserves F (2 ^ 64) (2 ^ 64)).1 ≠ 0 ∧ (virtualReserves F (2 ^ 64) (2 ^ 64)).2 ≠ 0

/-- Every decoder accepts its sample. -/
theorem sampleAccount_accepts (hunit : UnitReserves F) (d : AnchorDecoder) :
    d.Accepts F (sampleAccount d) := by
  cases d with
  | orcaWhirlpool => exact orcaWhirlpool_accepts
  | raydiumClmm => exact raydiumClmm_accepts hunit
  | meteoraDlmm => exact meteoraDlmm_accepts
  | kamino => exact kamino_accepts
  | marginfi => exact marginfi_accepts

/-- **NO DISCRIMINATOR IS CHECKED.**  For none of the five decoders is there a
    discriminator that all accepted accounts carry: whatever a decoder accepts,
    it accepts under EVERY discriminator. -/
theorem discriminator_unchecked (hunit : UnitReserves F) (d : AnchorDecoder) :
    ¬ChecksDiscriminator F d ∧
      ∀ data, d.Accepts F data → ∀ header : List UInt8, header.length = DISCRIMINATOR_SIZE →
        d.Accepts F (header ++ data.drop DISCRIMINATOR_SIZE) :=
  ⟨not_checks_of_accepts (sampleAccount_accepts hunit d),
    fun _ h header hlen => accepts_any h header hlen⟩

/-! ## Over exact reals -/

/-- Exact reals give both unit reserves. -/
theorem unitReserves_exact : UnitReserves ExactF64 := by
  have hpos : ((2 ^ 64 : Nat) : ℝ) ≠ 0 := by positivity
  have hprice : (F64.ofNat (2 ^ 64) : ExactF64) / F64.ofNat (2 ^ 64) = .fin 1 := by
    rw [ofNat_eq, fin_div _ hpos, div_self hpos]
  have hlt : F64.lt (0.0 : ExactF64) (.fin 1) = true := by
    rw [fin_zero, lt_fin]
    exact one_pos
  rw [UnitReserves, virtualReserves, hprice, if_pos hlt, ofNat_eq, fin_div _ one_ne_zero,
    fin_mul, div_one, mul_one]
  exact ⟨toU64_large (by norm_num), toU64_large (by norm_num)⟩

/-- The same for the one decoder that asks something of the arithmetic. -/
theorem discriminator_unchecked_exact :
    ¬ChecksDiscriminator ExactF64 .raydiumClmm ∧
      ∀ data, AnchorDecoder.Accepts ExactF64 .raydiumClmm data →
        ∀ header : List UInt8, header.length = DISCRIMINATOR_SIZE →
          AnchorDecoder.Accepts ExactF64 .raydiumClmm
            (header ++ data.drop DISCRIMINATOR_SIZE) :=
  discriminator_unchecked unitReserves_exact .raydiumClmm

/-- A Meteora pair is accepted under a discriminator of zeros and under one of
    ones. -/
theorem meteoraDlmm_unchecked :
    AnchorDecoder.Accepts ExactF64 .meteoraDlmm (sampleAccount .meteoraDlmm) ∧
      AnchorDecoder.Accepts ExactF64 .meteoraDlmm
        (List.replicate 8 1 ++ (sampleAccount .meteoraDlmm).drop DISCRIMINATOR_SIZE) ∧
      ¬∀ d, ChecksDiscriminator ExactF64 d := by
  refine ⟨meteoraDlmm_accepts, accepts_any meteoraDlmm_accepts _ rfl, ?_⟩
  intro hchecks
  exact not_checks_of_accepts meteoraDlmm_accepts (hchecks .meteoraDlmm)

end MevDiscriminators
