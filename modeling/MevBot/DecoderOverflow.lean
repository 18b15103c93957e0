import MevBot.DebugBuild
import MevBot.ExactRates
import MevBot.StrategyHistory

/-! # What a decoder can trip over

    Account bytes are chosen by third parties.  No decoder reads past the length
    it tests first, and four of the five have no arithmetic that could overflow;
    the Phoenix decoder multiplies its lot and tick sizes in plain `u64`.  It
    returns, with the exact virtual reserves, exactly when these products fit a
    word (`decodesExactly_iff`). -/

namespace MevDecoderOverflow

open MevMachine MevTypes MevMath MevDex MevStrategy MevDebug MevRates MevHistory

variable {F : Type} [F64 F]

/-! ## Reads in range -/

/-- A computation that returns. -/
def Returns {α : Type} (m : Rust α) : Prop := ∃ a, m = .ok a

section Returns

variable {α β : Type}

/-- Values are returned. -/
theorem Returns.pure (a : α) : Returns (pure a) := ⟨a, rfl⟩

/-- Both branches of a test return. -/
theorem Returns.ite {c : Prop} [Decidable c] {m m' : Rust α} (h : Returns m) (h' : Returns m') :
    Returns (if c then m else m') := by
  split
  · exact h
  · exact h'

/-- What follows a guard may rely on it. -/
theorem Returns.guard {c : Prop} [Decidable c] {m m' : Rust α} (h : Returns m)
    (h' : ¬c → Returns m') : Returns (if c then m else m') := by
  split
  · exact h
  · exact h' ‹_›

/-- A step, whatever it returns, is followed by one that returns. -/
theorem Returns.bind {m : Rust α} {f : α → Rust β} (h : Returns m) (hf : ∀ a, Returns (f a)) :
    Returns (m >>= f) := by
  obtain ⟨a, rfl⟩ := h
  exact hf a

end Returns

section Readers

variable {data : List UInt8} {offset : Nat}

/-- A slice that fits is the bytes there. -/
theorem slice_in_range {n : Nat} (h : offset + n ≤ data.length) :
    slice data offset n = .ok ((data.drop offset).take n) := if_pos h

/-- Eight bytes as a word. -/
def wordAt (data : List UInt8) (offset : Nat) : UInt64 :=
  UInt64.ofNat (fromLeBytes ((data.drop offset).take 8))

/-- A word that fits is made of the bytes there. -/
theorem readU64_in_range (h : offset + 8 ≤ data.length) :
    readU64 data offset = .ok (wordAt data offset) := by
  rw [readU64, slice_in_range h]
  rfl

/-- A word that fits can be read. -/
theorem readU64_returns (h : offset + 8 ≤ data.length) : Returns (readU64 data offset) :=
  ⟨_, readU64_in_range h⟩

/-- So can a byte, or a field of any other width. -/
theorem readU8_returns (h : offset + 1 ≤ data.length) : Returns (readU8 data offset) :=
  Returns.bind ⟨_, slice_in_range h⟩ fun _ => Returns.pure _

theorem readU16_returns (h : offset + 2 ≤ data.length) : Returns (readU16 data offset) :=
  Returns.bind ⟨_, slice_in_range h⟩ fun _ => Returns.pure _

theorem readI32_returns (h : offset + 4 ≤ data.length) : Returns (readI32 data offset) :=
  Returns.bind ⟨_, slice_in_range h⟩ fun _ => Returns.pure _

theorem readU128_returns (h : offset + 16 ≤ data.length) : Returns (readU128 data offset) :=
  Returns.bind ⟨_, slice_in_range h⟩ fun _ => Returns.pure _

/-- A key takes thirty-two bytes. -/
theorem readPubkey_returns (h : offset + 32 ≤ data.length) : Returns (readPubkey data offset) :=
  Returns.bind ⟨_, slice_in_range h⟩ fun _ => Returns.pure _

end Readers

/-! ## The decoders -/

section Decoders

variable (address : Pubkey) (data : List UInt8)

/-- The length test covers every field: the pool decoders never read out of range. -/
theorem raydiumAmm_returns : Returns (RaydiumAmm.decodePool address data) := by
  refine Returns.guard (Returns.pure _) fun hshort => ?_
  have hlen : RaydiumAmm.AMM_INFO_SIZE ≤ data.length := Nat.not_lt.mp hshort
  refine Returns.bind (readU64_returns (Nat.le_trans (by decide) hlen)) fun status => ?_
  refine Returns.ite (Returns.pure _) ?_
  refine Returns.bind (readPubkey_returns (Nat.le_trans (by decide) hlen)) fun coinMint => ?_
  refine Returns.bind (readPubkey_returns (Nat.le_trans (by decide) hlen)) fun pcMint => ?_
  refine Returns.bind (readPubkey_returns (Nat.le_trans (by decide) hlen)) fun coinVault => ?_
  refine Returns.bind (readPubkey_returns (Nat.le_trans (by decide) hlen)) fun pcVault => ?_
  refine Returns.bind (readU64_returns (Nat.le_trans (by decide) hlen)) fun feeNum => ?_
  refine Returns.bind (readU64_returns (Nat.le_trans (by decide) hlen)) fun feeDen => ?_
  exact Returns.pure _

theorem raydiumClmm_returns : Returns (RaydiumClmm.decodePool F address data) := by
  refine Returns.guard (Returns.pure _) fun hshort => ?_
  have hlen : RaydiumClmm.POOL_STATE_SIZE ≤ data.length := Nat.not_lt.mp hshort
  refine Returns.bind (readU8_returns (Nat.le_trans (by decide) hlen)) fun status => ?_
  refine Returns.ite (Returns.pure _) ?_
  refine Returns.bind (readU128_returns (Nat.le_trans (by decide) hlen)) fun liquidity => ?_
  refine Returns.bind (readU128_returns (Nat.le_trans (by decide) hlen)) fun sqrtPrice => ?_
  refine Returns.ite (Returns.pure _) ?_
  refine Returns.bind (readPubkey_returns (Nat.le_trans (by decide) hlen)) fun mint0 => ?_
  refine Returns.bind (readPubkey_returns (Nat.le_trans (by decide) hlen)) fun mint1 => ?_
  refine Returns.bind (readPubkey_returns (Nat.le_trans (by decide) hlen)) fun vault0 => ?_
  refine Returns.bind (readPubkey_returns (Nat.le_trans (by decide) hlen)) fun vault1 => ?_
  refine Returns.bind (readI32_returns (Nat.le_trans (by decide) hlen)) fun tick => ?_
  exact Returns.ite (Returns.pure _) (Returns.pure _)

theorem orcaWhirlpool_returns : Returns (OrcaWhirlpool.decodePool F address data) := by
  refine Returns.guard (Returns.pure _) fun hshort => ?_
  have hlen : OrcaWhirlpool.WHIRLPOOL_SIZE_MIN ≤ data.length := Nat.not_lt.mp hshort
  refine Returns.bind (readU16_returns (Nat.le_trans (by decide) hlen)) fun feeRate => ?_
  refine Returns.bind (readU128_returns (Nat.le_trans (by decide) hlen)) fun liquidity => ?_
  refine Returns.bind (readU128_returns (Nat.le_trans (by decide) hlen)) fun sqrtPrice => ?_
  refine Returns.ite (Returns.pure _) ?_
  refine Returns.bind (readPubkey_returns (Nat.le_trans (by decide) hlen)) fun mintA => ?_
  refine Returns.bind (readPubkey_returns (Nat.le_trans (by decide) hlen)) fun mintB => ?_
  refine Returns.bind (readPubkey_returns (Nat.le_trans (by decide) hlen)) fun vaultA => ?_
  refine Returns.bind (readPubkey_returns (Nat.le_trans (by decide) hlen)) fun vaultB => ?_
  exact Returns.pure _

theorem meteoraDlmm_returns : Returns (MeteoraDlmm.decodePool F address data) := by
  refine Returns.guard (Returns.pure _) fun hshort => ?_
  have hlen : MeteoraDlmm.LB_PAIR_MIN_SIZE ≤ data.length := Nat.not_lt.mp hshort
  refine Returns.bind (readI32_returns (Nat.le_trans (by decide) hlen)) fun activeId => ?_
  refine Returns.bind (readU16_returns (Nat.le_trans (by decide) hlen)) fun binStep => ?_
  refine Returns.bind (readPubkey_returns (Nat.le_trans (by decide) hlen)) fun mintX => ?_
  refine Returns.bind (readPubkey_returns (Nat.le_trans (by decide) hlen)) fun mintY => ?_
  refine Returns.bind (readPubkey_returns (Nat.le_trans (by decide) hlen)) fun reserveX => ?_
  refine Returns.bind (readPubkey_returns (Nat.le_trans (by decide) hlen)) fun reserveY => ?_
  refine Returns.ite (Returns.pure _) ?_
  refine Returns.bind (readU16_returns (Nat.le_trans (by decide) hlen)) fun baseFactor => ?_
  exact Returns.pure _

theorem phoenix_returns : Returns (Phoenix.decodePool address data) := by
  refine Returns.guard (Returns.pure _) fun hshort => ?_
  have hlen : Phoenix.MARKET_MIN_SIZE ≤ data.length := Nat.not_lt.mp hshort
  refine Returns.bind (readU64_returns (Nat.le_trans (by decide) hlen)) fun status => ?_
  refine Returns.ite (Returns.pure _) ?_
  refine Returns.bind (readPubkey_returns (Nat.le_trans (by decide) hlen)) fun baseMint => ?_
  refine Returns.bind (readPubkey_returns (Nat.le_trans (by decide) hlen)) fun quoteMint => ?_
  refine Returns.bind (readPubkey_returns (Nat.le_trans (by decide) hlen)) fun baseVault => ?_
  refine Returns.bind (readPubkey_returns (Nat.le_trans (by decide) hlen)) fun quoteVault => ?_
  refine Returns.bind (readU64_returns (Nat.le_trans (by decide) hlen)) fun baseLot => ?_
  refine Returns.bind (readU64_returns (Nat.le_trans (by decide) hlen)) fun quoteLot => ?_
  refine Returns.bind (readU64_returns (Nat.le_trans (by decide) hlen)) fun tick => ?_
  exact Returns.pure _

end Decoders

/-! ## The two builds -/

/-- The product of two half words is a word: the Meteora decoder is the same in both
    builds. -/
theorem meteoraDlmmDebug_eq (address : Pubkey) (data : List UInt8) :
    meteoraDlmmDebug F address data = ofRust (MeteoraDlmm.decodePool F address data) := by
  have hproduct : ∀ baseFactor binStep : UInt16,
      mulU64 baseFactor.toUInt64 binStep.toUInt64 =
        .ok (baseFactor.toUInt64 * binStep.toUInt64) := by
    intro baseFactor binStep
    refine mulU64_fits ?_
    rw [UInt16.toNat_toUInt64, UInt16.toNat_toUInt64]
    have hlt : baseFactor.toNat * binStep.toNat < 2 ^ 16 * 2 ^ 16 :=
      Nat.mul_lt_mul'' baseFactor.toNat_lt binStep.toNat_lt
    omega
  rw [meteoraDlmmDebug, MeteoraDlmm.decodePool]
  simp only [ofRust_bind, ofRust_ite, hproduct]
  rfl

/-- A pool a debug build decodes a release build decodes too. -/
theorem decodePoolDebug_matches {adapter : DexAdapter} (h : adapter ∈ dexArbAdapters F)
    (address : Pubkey) (data : List UInt8) :
    Matches (decodePoolDebug F adapter.dexType address data)
      (ofRust (adapter.decodePool address data)) := by
  rcases dexArbAdapters_cases h with rfl | rfl | rfl | rfl | rfl
  · exact Matches.refl _
  · exact Matches.refl _
  · exact Matches.refl _
  · exact fun pool hpool => (meteoraDlmmDebug_eq address data).symm.trans hpool
  · exact phoenixDebug_matches address data

/-! ## The lots of a Phoenix market -/

section Lots

variable (baseLotSize quoteLotSize tickSize : UInt64)

/-- Both virtual reserves, from the three sizes of a market. -/
def virtualLots : UInt64 × UInt64 :=
  (max baseLotSize 1 * 1000,
    if tickSize > 0 ∧ quoteLotSize > 0 then tickSize * quoteLotSize * 1000
    else max baseLotSize 1 * 1000)

/-- The virtual reserves of a market in a debug build. -/
def virtualLotsDebug : Debug (UInt64 × UInt64) := do
  let virtualBase ← mulU64 (max baseLotSize 1) 1000
  let virtualQuote ←
    if tickSize > 0 ∧ quoteLotSize > 0 then do
      let lots ← mulU64 tickSize quoteLotSize
      mulU64 lots 1000
    else .ok virtualBase
  return (virtualBase, virtualQuote)

/-- Neither product overflows. -/
def LotsFit : Prop :=
  1000 * max baseLotSize.toNat 1 < 2 ^ 64 ∧
    (0 < tickSize.toNat → 0 < quoteLotSize.toNat →
      1000 * tickSize.toNat * quoteLotSize.toNat < 2 ^ 64)

variable {baseLotSize quoteLotSize tickSize}

/-- The base lots do not wrap exactly when their product fits. -/
theorem virtualBase_fits :
    (max baseLotSize 1).toNat * (1000 : UInt64).toNat < 2 ^ 64 ↔
      1000 * max baseLotSize.toNat 1 < 2 ^ 64 := by
  rw [max_toNat, show (1000 : UInt64).toNat = 1000 from rfl, Nat.mul_comm]
  rfl

/-- The quote lots are multiplied twice. -/
theorem quoteLots_fit (h : 1000 * tickSize.toNat * quoteLotSize.toNat < 2 ^ 64) :
    tickSize.toNat * quoteLotSize.toNat < 2 ^ 64 ∧
      (tickSize * quoteLotSize).toNat * (1000 : UInt64).toNat < 2 ^ 64 ∧
      (tickSize * quoteLotSize * 1000).toNat = 1000 * tickSize.toNat * quoteLotSize.toNat := by
  have hassoc : 1000 * tickSize.toNat * quoteLotSize.toNat =
      tickSize.toNat * quoteLotSize.toNat * 1000 := by
    rw [Nat.mul_assoc, Nat.mul_comm]
  have hlots : tickSize.toNat * quoteLotSize.toNat < 2 ^ 64 := by omega
  have hread : (tickSize * quoteLotSize).toNat = tickSize.toNat * quoteLotSize.toNat := by
    rw [UInt64.toNat_mul, Nat.mod_eq_of_lt hlots]
  have hscaled : (tickSize * quoteLotSize).toNat * (1000 : UInt64).toNat < 2 ^ 64 := by
    rw [hread, show (1000 : UInt64).toNat = 1000 from rfl, ← hassoc]
    exact h
  refine ⟨hlots, hscaled, ?_⟩
  rw [UInt64.toNat_mul, Nat.mod_eq_of_lt hscaled, hread, hassoc]
  rfl

/-- Where both products fit, the two builds agree. -/
theorem virtualLotsDebug_fits (h : LotsFit baseLotSize quoteLotSize tickSize) :
    virtualLotsDebug baseLotSize quoteLotSize tickSize =
        .ok (virtualLots baseLotSize quoteLotSize tickSize) ∧
      (virtualLots baseLotSize quoteLotSize tickSize).1.toNat = 1000 * max baseLotSize.toNat 1 ∧
      (0 < tickSize.toNat → 0 < quoteLotSize.toNat →
        (virtualLots baseLotSize quoteLotSize tickSize).2.toNat =
          1000 * tickSize.toNat * quoteLotSize.toNat) := by
  obtain ⟨hbase, hquote⟩ := h
  have hbase' := virtualBase_fits.mpr hbase
  have hbaseNat : (max baseLotSize 1 * 1000).toNat = 1000 * max baseLotSize.toNat 1 := by
    rw [UInt64.toNat_mul, Nat.mod_eq_of_lt hbase', max_toNat, Nat.mul_comm]
    rfl
  rw [virtualLotsDebug, virtualLots]
  by_cases hpos : tickSize > 0 ∧ quoteLotSize > 0
  · obtain ⟨hlots, hscaled, hexact⟩ := quoteLots_fit
      (hquote (UInt64.lt_iff_toNat_lt.mp hpos.1) (UInt64.lt_iff_toNat_lt.mp hpos.2))
    simp only [bind, Except.bind, mulU64_fits hbase', if_pos hpos, mulU64_fits hlots,
      mulU64_fits hscaled]
    exact ⟨rfl, hbaseNat, fun _ _ => hexact⟩
  · simp only [bind, Except.bind, mulU64_fits hbase', if_neg hpos]
    refine ⟨rfl, hbaseNat, fun htick hlot => absurd ⟨?_, ?_⟩ hpos⟩
    · exact UInt64.lt_iff_toNat_lt.mpr htick
    · exact UInt64.lt_iff_toNat_lt.mpr hlot

/-- Where one does not, the debug build panics. -/
theorem virtualLotsDebug_overflows (h : ¬LotsFit baseLotSize quoteLotSize tickSize) :
    virtualLotsDebug baseLotSize quoteLotSize tickSize = .error .overflow := by
  rw [virtualLotsDebug]
  by_cases hbase : 1000 * max baseLotSize.toNat 1 < 2 ^ 64
  · -- the base lots fit, so the quote lots are positive and do not
    obtain ⟨htick, hlot, hover⟩ : 0 < tickSize.toNat ∧ 0 < quoteLotSize.toNat ∧
        ¬1000 * tickSize.toNat * quoteLotSize.toNat < 2 ^ 64 := by
      by_contra hnot
      exact h ⟨hbase, fun htick hlot => by_contra fun hover => hnot ⟨htick, hlot, hover⟩⟩
    have hpos : tickSize > 0 ∧ quoteLotSize > 0 :=
      ⟨UInt64.lt_iff_toNat_lt.mpr htick, UInt64.lt_iff_toNat_lt.mpr hlot⟩
    have hbase' := virtualBase_fits.mpr hbase
    by_cases hlots : tickSize.toNat * quoteLotSize.toNat < 2 ^ 64
    · have hscaled : ¬(tickSize * quoteLotSize).toNat * (1000 : UInt64).toNat < 2 ^ 64 := by
        rw [UInt64.toNat_mul, Nat.mod_eq_of_lt hlots, show (1000 : UInt64).toNat = 1000 from rfl,
          Nat.mul_comm, ← Nat.mul_assoc]
        exact hover
      simp only [bind, Except.bind, mulU64_fits hbase', if_pos hpos, mulU64_fits hlots,
        mulU64_overflows hscaled]
    · simp only [bind, Except.bind, mulU64_fits hbase', if_pos hpos, mulU64_overflows hlots]
  · rw [mulU64_overflows (mt virtualBase_fits.mp hbase)]
    rfl

end Lots

/-- The lot products of an active market fit a word. -/
def LotsInRange (data : List UInt8) : Prop :=
  Phoenix.MARKET_MIN_SIZE ≤ data.length → wordAt data Phoenix.STATUS_OFFSET ≠ 0 →
    LotsFit (wordAt data Phoenix.BASE_LOT_SIZE_OFFSET) (wordAt data Phoenix.QUOTE_LOT_SIZE_OFFSET)
      (wordAt data Phoenix.TICK_SIZE_OFFSET)

/-- Behind its reads and tests, the decoder multiplies the three sizes. -/
theorem phoenix_decodes {data : List UInt8} (hlen : Phoenix.MARKET_MIN_SIZE ≤ data.length)
    (hstatus : wordAt data Phoenix.STATUS_OFFSET ≠ 0) (address : Pubkey) :
    ∃ poolOf : UInt64 × UInt64 → PoolState,
      (∀ v, (poolOf v).tokenAAmount = v.1 ∧ (poolOf v).tokenBAmount = v.2) ∧
        Phoenix.decodePool address data = .ok (some (poolOf (virtualLots
          (wordAt data Phoenix.BASE_LOT_SIZE_OFFSET) (wordAt data Phoenix.QUOTE_LOT_SIZE_OFFSET)
          (wordAt data Phoenix.TICK_SIZE_OFFSET)))) ∧
        phoenixDebug address data = (virtualLotsDebug
          (wordAt data Phoenix.BASE_LOT_SIZE_OFFSET) (wordAt data Phoenix.QUOTE_LOT_SIZE_OFFSET)
          (wordAt data Phoenix.TICK_SIZE_OFFSET)).map fun v => some (poolOf v) := by
  have hword : ∀ {offset}, offset + 8 ≤ Phoenix.MARKET_MIN_SIZE →
      readU64 data offset = .ok (wordAt data offset) := fun h =>
    readU64_in_range (Nat.le_trans h hlen)
  have hkey : ∀ offset, offset + 32 ≤ Phoenix.MARKET_MIN_SIZE →
      ∃ key, readPubkey data offset = .ok key := fun _ h =>
    readPubkey_returns (Nat.le_trans h hlen)
  obtain ⟨baseMint, hbaseMint⟩ := hkey Phoenix.BASE_MINT_OFFSET (by decide)
  obtain ⟨quoteMint, hquoteMint⟩ := hkey Phoenix.QUOTE_MINT_OFFSET (by decide)
  obtain ⟨baseVault, hbaseVault⟩ := hkey Phoenix.BASE_VAULT_OFFSET (by decide)
  obtain ⟨quoteVault, hquoteVault⟩ := hkey Phoenix.QUOTE_VAULT_OFFSET (by decide)
  refine ⟨fun v =>
    { address, dexType := .phoenix, tokenAMint := baseMint, tokenBMint := quoteMint,
      tokenAVault := baseVault, tokenBVault := quoteVault, tokenAAmount := v.1,
      tokenBAmount := v.2, feeNumerator := 4, feeDenominator := 10000, slot := 0 },
    fun _ => ⟨rfl, rfl⟩, ?_, ?_⟩
  · rw [Phoenix.decodePool, if_neg (Nat.not_lt.mpr hlen), hword (by decide), hbaseMint, hquoteMint,
      hbaseVault, hquoteVault, hword (by decide), hword (by decide), hword (by decide)]
    simp only [bind, Except.bind, if_neg hstatus]
    rfl
  · rw [phoenixDebug, if_neg (Nat.not_lt.mpr hlen), hword (by decide), hbaseMint, hquoteMint,
      hbaseVault, hquoteVault, hword (by decide), hword (by decide), hword (by decide)]
    simp only [ofRust, bind, Except.bind, if_neg hstatus, virtualLotsDebug]
    cases mulU64 (max (wordAt data Phoenix.BASE_LOT_SIZE_OFFSET) 1) 1000 with
    | error e => rfl
    | ok virtualBase =>
        dsimp only
        split
        · cases mulU64 (wordAt data Phoenix.TICK_SIZE_OFFSET)
            (wordAt data Phoenix.QUOTE_LOT_SIZE_OFFSET) with
          | error e => rfl
          | ok lots =>
              cases hscaled : mulU64 lots 1000 with
              | error e =>
                  simp only [hscaled]
                  rfl
              | ok virtualQuote =>
                  simp only [hscaled]
                  rfl
        · rfl

/-- An account the decoder turns away is turned away by both builds. -/
theorem phoenix_rejects {data : List UInt8}
    (h : ¬(Phoenix.MARKET_MIN_SIZE ≤ data.length ∧ wordAt data Phoenix.STATUS_OFFSET ≠ 0))
    (address : Pubkey) :
    Phoenix.decodePool address data = .ok none ∧ phoenixDebug address data = .ok none := by
  rw [Phoenix.decodePool, phoenixDebug]
  by_cases hlen : data.length < Phoenix.MARKET_MIN_SIZE
  · rw [if_pos hlen, if_pos hlen]
    exact ⟨rfl, rfl⟩
  · have hstatus : wordAt data Phoenix.STATUS_OFFSET = 0 := by
      by_contra hne
      exact h ⟨Nat.not_lt.mp hlen, hne⟩
    rw [if_neg hlen, if_neg hlen,
      readU64_in_range (Nat.le_trans (by decide) (Nat.not_lt.mp hlen))]
    simp only [ofRust, bind, Except.bind, if_pos hstatus]
    exact ⟨rfl, rfl⟩

/-! ## The theorem -/

/-- The virtual reserves of a Phoenix pool, over the unbounded naturals. -/
def ExactLots (data : List UInt8) (pool : PoolState) : Prop :=
  pool.tokenAAmount.toNat = 1000 * max (wordAt data Phoenix.BASE_LOT_SIZE_OFFSET).toNat 1 ∧
    (0 < (wordAt data Phoenix.TICK_SIZE_OFFSET).toNat →
      0 < (wordAt data Phoenix.QUOTE_LOT_SIZE_OFFSET).toNat →
        pool.tokenBAmount.toNat = 1000 * (wordAt data Phoenix.TICK_SIZE_OFFSET).toNat *
          (wordAt data Phoenix.QUOTE_LOT_SIZE_OFFSET).toNat)

/-- Decoding that reads in range, overflows nowhere, and has exact reserves where they are
    products. -/
structure DecodesExactly (F : Type) [F64 F] (adapter : DexAdapter) (address : Pubkey)
    (data : List UInt8) : Prop where
  inRange : Returns (adapter.decodePool address data)
  noOverflow : decodePoolDebug F adapter.dexType address data =
    ofRust (adapter.decodePool address data)
  exactLots : adapter.dexType = .phoenix → ∀ pool,
    adapter.decodePool address data = .ok (some pool) → ExactLots data pool

/-- The decoder is right where both products fit. -/
theorem phoenix_decodesExactly (address : Pubkey) {data : List UInt8} (h : LotsInRange data) :
    DecodesExactly F PhoenixAdapter address data := by
  by_cases hopen : Phoenix.MARKET_MIN_SIZE ≤ data.length ∧
      wordAt data Phoenix.STATUS_OFFSET ≠ 0
  · obtain ⟨poolOf, hreserves, hdecode, hdebug⟩ := phoenix_decodes hopen.1 hopen.2 address
    obtain ⟨hfits, hbase, hquote⟩ := virtualLotsDebug_fits (h hopen.1 hopen.2)
    refine ⟨phoenix_returns address data, ?_, fun _ pool hpool => ?_⟩
    · rw [show decodePoolDebug F PhoenixAdapter.dexType address data = phoenixDebug address data
        from rfl, hdebug, hfits, show PhoenixAdapter.decodePool = Phoenix.decodePool from rfl,
        hdecode]
      rfl
    · obtain rfl := Option.some.inj (Except.ok.inj (hdecode.symm.trans hpool))
      rw [ExactLots, (hreserves _).1, (hreserves _).2]
      exact ⟨hbase, hquote⟩
  · obtain ⟨hdecode, hdebug⟩ := phoenix_rejects hopen address
    refine ⟨phoenix_returns address data, ?_, fun _ pool hpool => ?_⟩
    · rw [show decodePoolDebug F PhoenixAdapter.dexType address data = phoenixDebug address data
        from rfl, hdebug, show PhoenixAdapter.decodePool = Phoenix.decodePool from rfl, hdecode]
      rfl
    · cases hdecode.symm.trans hpool

/-- Where one overflows, a debug build stops. -/
theorem phoenix_overflows {address : Pubkey} {data : List UInt8} (h : ¬LotsInRange data) :
    phoenixDebug address data = .error .overflow := by
  simp only [LotsInRange, Classical.not_imp] at h
  obtain ⟨hlen, hstatus, hover⟩ := h
  obtain ⟨poolOf, -, -, hdebug⟩ := phoenix_decodes hlen hstatus address
  rw [hdebug, virtualLotsDebug_overflows hover]
  rfl

/-- **WHEN A DECODER IS SAFE**, for every adapter, address and byte string: always, but for
    Phoenix markets whose lot products overflow a word. -/
theorem decodesExactly_iff {adapter : DexAdapter} (h : adapter ∈ dexArbAdapters F)
    (address : Pubkey) (data : List UInt8) :
    DecodesExactly F adapter address data ↔ (adapter.dexType = .phoenix → LotsInRange data) := by
  have hother : ∀ {p : Prop} (d : DexType), d ≠ .phoenix → d = .phoenix → p :=
    fun _ hne heq => absurd heq hne
  rcases dexArbAdapters_cases h with rfl | rfl | rfl | rfl | rfl
  · exact iff_of_true ⟨raydiumAmm_returns address data, rfl, hother .raydiumAmm (by decide)⟩
      (hother .raydiumAmm (by decide))
  · exact iff_of_true ⟨raydiumClmm_returns address data, rfl, hother .raydiumClmm (by decide)⟩
      (hother .raydiumClmm (by decide))
  · exact iff_of_true ⟨orcaWhirlpool_returns address data, rfl, hother .orcaWhirlpool (by decide)⟩
      (hother .orcaWhirlpool (by decide))
  · exact iff_of_true ⟨meteoraDlmm_returns address data, meteoraDlmmDebug_eq address data,
      hother .meteoraDlmm (by decide)⟩ (hother .meteoraDlmm (by decide))
  · constructor
    · intro hexact _
      by_contra hnot
      obtain ⟨r, hr⟩ := hexact.inRange
      have hover := hexact.noOverflow
      rw [show decodePoolDebug F PhoenixAdapter.dexType address data = phoenixDebug address data
        from rfl, phoenix_overflows hnot, hr] at hover
      cases hover
    · intro hlots
      exact phoenix_decodesExactly address (hlots rfl)

/-- An ordinary market decodes. -/
theorem smallMarket_decodes :
    DecodesExactly Float PhoenixAdapter Pubkey.default
      (phoenixData 1 (keyOf 1) (keyOf 2) 1000000 100) := by
  refine (decodesExactly_iff (F := Float) ?_ Pubkey.default _).mpr fun _ _ _ => ⟨?_, ?_⟩
  · simp [dexArbAdapters]
  · decide +kernel
  · decide +kernel

/-- **A LOT SIZE OF `2 ^ 61`** overflows the first product: a debug build stops, a release
    build decodes a market whose base reserve is empty. -/
theorem hugeLots_overflow :
    phoenixDebug Pubkey.default (phoenixData 1 (keyOf 1) (keyOf 2) 2305843009213693952 100) =
        .error .overflow ∧
      ((Phoenix.decodePool Pubkey.default
        (phoenixData 1 (keyOf 1) (keyOf 2) 2305843009213693952 100)).toOption.map fun pool =>
          pool.map fun pool => (pool.tokenAAmount, pool.tokenBAmount)) = some (some (0, 100000)) ∧
      ¬∀ adapter ∈ dexArbAdapters Float, ∀ address data,
        DecodesExactly Float adapter address data := by
  have hover : phoenixDebug Pubkey.default
      (phoenixData 1 (keyOf 1) (keyOf 2) 2305843009213693952 100) = .error .overflow := by
    decide +kernel
  refine ⟨hover, by decide +kernel, ?_⟩
  intro hall
  have hexact := hall PhoenixAdapter (by simp [dexArbAdapters]) Pubkey.default
    (phoenixData 1 (keyOf 1) (keyOf 2) 2305843009213693952 100)
  obtain ⟨r, hr⟩ := hexact.inRange
  have hequal := hexact.noOverflow
  rw [show decodePoolDebug Float PhoenixAdapter.dexType Pubkey.default _ = phoenixDebug _ _
    from rfl, hover, hr] at hequal
  cases hequal

end MevDecoderOverflow
