import MevBot.CycleSimulation
import MevBot.DebugBuild
import MevBot.SwapLaws

/-! # The price impact of a quote

    `price_impact_bps` multiplies the output with the reserve, then with 10000,
    in plain `u128` arithmetic.  The first product always fits, the second does
    for outputs up to `maxOutput`.  A swap that pays more overflows the quote of
    every adapter: on two reserves of `10 ^ 18` one tenth of a reserve is already
    too much (`largeSupply_overflows`). -/

namespace MevPriceImpact

open MevMachine MevTypes MevMath MevDex MevStrategy MevSimulation MevSwap MevDebug ProductFormula

variable {F : Type} [F64 F]

/-! ## The scaled product -/

/-- The largest output whose product with the reserve can be scaled. -/
def maxOutput (reserveIn : Nat) : Nat := (2 ^ 128 - 1) / (10000 * reserveIn)

theorem scale_fits_iff {reserveIn : Nat} (hin : 0 < reserveIn) (out : Nat) :
    out * reserveIn * 10000 < 2 ^ 128 ↔ out ≤ maxOutput reserveIn := by
  rw [maxOutput, Nat.le_div_iff_mul_le (Nat.mul_pos (by decide) hin),
    show out * (10000 * reserveIn) = out * reserveIn * 10000 by ring]
  omega

/-- What is left of the input after the fee pays no more than `maxOutput`. -/
def ImpactFits (reserveIn reserveOut net : Nat) : Prop :=
  net * (reserveOut - (maxOutput reserveIn + 1)) < reserveIn * (maxOutput reserveIn + 1)

/-! ## The impact -/

section Impact

variable {reserveIn reserveOut amountIn : UInt64} (amountOut : UInt64)

/-- The impact over the unbounded naturals. -/
def exactImpact (reserveIn reserveOut amountIn amountOut : UInt64) : Nat :=
  10000 - 10000 * amountOut.toNat * reserveIn.toNat / (amountIn.toNat * reserveOut.toNat)

/-- Behind the guards, only the scaling is left of a debug build. -/
theorem priceImpactBpsDebug_eq (hin : reserveIn ≠ 0) (hout : reserveOut ≠ 0)
    (hamount : amountIn ≠ 0) :
    priceImpactBpsDebug reserveIn reserveOut amountIn amountOut =
      if amountOut.toNat * reserveIn.toNat * 10000 < 2 ^ 128 then
        .ok (priceImpactBps reserveIn reserveOut amountIn amountOut)
      else .error .overflow := by
  have hguards : ¬(reserveIn = 0 ∨ reserveOut = 0 ∨ amountIn = 0) := by
    simp only [not_or]
    exact ⟨hin, hout, hamount⟩
  have hden : amountIn.toNat * reserveOut.toNat ≠ 0 :=
    Nat.ne_of_gt (Nat.mul_pos (toNat_pos hamount) (toNat_pos hout))
  rw [priceImpactBpsDebug, priceImpactBps, if_neg hguards, if_neg hguards, mulU128_u64, mulU128_u64]
  by_cases hfits : amountOut.toNat * reserveIn.toNat * 10000 < 2 ^ 128
  · simp only [bind, Except.bind, if_neg hden, mulU128_fits hfits, if_pos hfits,
      Nat.mod_eq_of_lt hfits]
    exact (apply_ite Except.ok _ _ _).symm
  · simp only [bind, Except.bind, if_neg hden, mulU128_overflows hfits, if_neg hfits]

/-- A product that can be scaled gives the exact impact. -/
theorem priceImpactBps_exact (hin : reserveIn ≠ 0) (hout : reserveOut ≠ 0) (hamount : amountIn ≠ 0)
    (hfits : amountOut.toNat * reserveIn.toNat * 10000 < 2 ^ 128) :
    (priceImpactBps reserveIn reserveOut amountIn amountOut).toNat =
      exactImpact reserveIn reserveOut amountIn amountOut := by
  have hguards : ¬(reserveIn = 0 ∨ reserveOut = 0 ∨ amountIn = 0) := by
    simp only [not_or]
    exact ⟨hin, hout, hamount⟩
  have hden : amountIn.toNat * reserveOut.toNat ≠ 0 :=
    Nat.ne_of_gt (Nat.mul_pos (toNat_pos hamount) (toNat_pos hout))
  rw [priceImpactBps, if_neg hguards]
  simp only [if_neg hden, Nat.mod_eq_of_lt hfits]
  rw [exactImpact, show 10000 * amountOut.toNat * reserveIn.toNat =
    amountOut.toNat * reserveIn.toNat * 10000 by ring]
  split
  · rename_i hge
    exact (Nat.sub_eq_zero_of_le hge).symm
  · exact UInt16.toNat_ofNat_of_lt' (Nat.lt_of_le_of_lt (Nat.sub_le _ _) (by decide))

end Impact

/-! ## The quotes -/

/-- The text of an adapter for empty reserves. -/
def emptyText : DexType → Pubkey → QuoteError
  | .raydiumClmm | .orcaWhirlpool => .zeroVirtualReserves
  | .raydiumAmm | .meteoraDlmm | .phoenix => .zeroReserves

/-- `quote` of an adapter in a debug build. -/
def quoteDebug (adapter : DexAdapter) :
    PoolState → Pubkey → UInt64 → Debug (Except QuoteError Quote) :=
  quoteWithDebug (emptyText adapter.dexType)

theorem adapter_quote_eq {adapter : DexAdapter} (h : adapter ∈ dexArbAdapters F) :
    adapter.quote = quoteWith (emptyText adapter.dexType) := by
  rcases dexArbAdapters_cases h with rfl | rfl | rfl | rfl | rfl
  · rfl
  · rfl
  · rfl
  · rfl
  · rfl

/-- A quote a debug build returns is the quote of the release build. -/
theorem quoteDebug_matches {adapter : DexAdapter} (h : adapter ∈ dexArbAdapters F)
    (pool : PoolState) (inputMint : Pubkey) (amountIn : UInt64) :
    Matches (quoteDebug adapter pool inputMint amountIn)
      (.ok (adapter.quote pool inputMint amountIn)) := by
  rw [adapter_quote_eq h]
  exact quoteWithDebug_matches _ pool inputMint amountIn

/-- A quote that overflows nowhere and carries the exact impact. -/
structure QuotesExactly (adapter : DexAdapter) (pool : PoolState) (inputMint : Pubkey)
    (amountIn : UInt64) : Prop where
  noOverflow : quoteDebug adapter pool inputMint amountIn =
    .ok (adapter.quote pool inputMint amountIn)
  impact : ∀ reserveIn reserveOut outputMint q,
    orient pool inputMint = some (reserveIn, reserveOut, outputMint) →
      adapter.quote pool inputMint amountIn = .ok q →
        q.priceImpactBps.toNat = exactImpact reserveIn reserveOut amountIn q.amountOut

/-- The input mint is foreign, or a guard of the swap rejects the input, or the impact of
    what the fee leaves can be scaled. -/
def ImpactInRange (pool : PoolState) (inputMint : Pubkey) (amountIn : UInt64) : Prop :=
  ∀ reserveIn reserveOut outputMint,
    orient pool inputMint = some (reserveIn, reserveOut, outputMint) →
      reserveIn ≠ 0 → reserveOut ≠ 0 → amountIn ≠ 0 → pool.feeDenominator ≠ 0 →
        chargedFee amountIn pool.feeNumerator pool.feeDenominator ≤ amountIn →
          ImpactFits reserveIn.toNat reserveOut.toNat
            (amountIn.toNat - (chargedFee amountIn pool.feeNumerator pool.feeDenominator).toNat)

theorem impactInRange_foreign {pool : PoolState} {inputMint : Pubkey} {amountIn : UInt64}
    (h : orient pool inputMint = none) : ImpactInRange pool inputMint amountIn := by
  intro _ _ _ horient
  rw [h] at horient
  cases horient

theorem impactInRange_iff {pool : PoolState} {inputMint outputMint : Pubkey}
    {amountIn reserveIn reserveOut : UInt64}
    (h : orient pool inputMint = some (reserveIn, reserveOut, outputMint)) :
    ImpactInRange pool inputMint amountIn ↔
      (reserveIn ≠ 0 → reserveOut ≠ 0 → amountIn ≠ 0 → pool.feeDenominator ≠ 0 →
        chargedFee amountIn pool.feeNumerator pool.feeDenominator ≤ amountIn →
          ImpactFits reserveIn.toNat reserveOut.toNat
            (amountIn.toNat -
              (chargedFee amountIn pool.feeNumerator pool.feeDenominator).toNat)) := by
  constructor
  · intro hrange
    exact hrange _ _ _ h
  · intro hfits rin rout out hsome
    rw [h] at hsome
    obtain ⟨rfl, hrest⟩ := Prod.mk.inj (Option.some.inj hsome)
    obtain ⟨rfl, -⟩ := Prod.mk.inj hrest
    exact hfits

/-- Reserves whose product can be scaled are safe for every input. -/
theorem impactInRange_of_small {pool : PoolState}
    (h : pool.tokenAAmount.toNat * pool.tokenBAmount.toNat * 10000 < 2 ^ 128) (inputMint : Pubkey)
    (amountIn : UInt64) : ImpactInRange pool inputMint amountIn := by
  intro reserveIn reserveOut outputMint horient hin _ _ _ _
  have hscale : reserveOut.toNat * reserveIn.toNat * 10000 < 2 ^ 128 := by
    rcases orient_some horient with ⟨-, rfl, rfl⟩ | ⟨-, -, rfl, rfl⟩
    · rwa [Nat.mul_comm pool.tokenBAmount.toNat]
    · exact h
  rw [ImpactFits, ← productOut_le_iff (toNat_pos hin)]
  exact (productOut_le _ _ _).trans ((scale_fits_iff (toNat_pos hin) _).mp hscale)

/-- A quote in a debug build: as in a release build, up to the scaling. -/
theorem quoteWithDebug_eq (text : Pubkey → QuoteError) (pool : PoolState) (inputMint : Pubkey)
    (amountIn : UInt64) :
    (ImpactInRange pool inputMint amountIn →
      quoteWithDebug text pool inputMint amountIn = .ok (quoteWith text pool inputMint amountIn)) ∧
    (¬ImpactInRange pool inputMint amountIn →
      quoteWithDebug text pool inputMint amountIn = .error .overflow) := by
  rw [quoteWithDebug, quoteWith]
  rcases horient : orient pool inputMint with _ | ⟨reserveIn, reserveOut, outputMint⟩
  · exact ⟨fun _ => rfl, fun hnot => absurd (impactInRange_foreign horient) hnot⟩
  · rw [impactInRange_iff horient]
    dsimp only
    by_cases hempty : reserveIn = 0 ∨ reserveOut = 0
    · rw [if_pos hempty, if_pos hempty]
      exact ⟨fun _ => rfl, fun hnot => absurd (fun hin hout => by tauto) hnot⟩
    · rw [if_neg hempty, if_neg hempty]
      obtain ⟨hin, hout⟩ := not_or.mp hempty
      rcases hswap : swapBaseIn reserveIn reserveOut amountIn pool.feeNumerator
        pool.feeDenominator with _ | ⟨amountOut, feeAmount⟩
      · refine ⟨fun _ => rfl, fun hnot => absurd ?_ hnot⟩
        intro _ _ hamount hden hfee
        rcases swapBaseIn_none_iff.mp hswap with h | h | h | h | h
        · exact absurd h hin
        · exact absurd h hout
        · exact absurd h hamount
        · exact absurd h hden
        · exact absurd hfee (UInt64.not_le.mpr h)
      · obtain ⟨⟨-, -, hamount, hden⟩, rfl, hfee, hpaid⟩ := swapBaseIn_some_iff.mp hswap
        have hfits := scale_fits_iff (toNat_pos hin) amountOut.toNat
        rw [hpaid, productOut_le_iff (toNat_pos hin), ← hpaid] at hfits
        dsimp only
        rw [priceImpactBpsDebug_eq amountOut hin hout hamount]
        constructor
        · intro h
          rw [if_pos (hfits.mpr (h hin hout hamount hden hfee))]
          rfl
        · intro hnot
          rw [if_neg fun hscale => hnot fun _ _ _ _ _ => hfits.mp hscale]
          rfl

/-- Where the scaling fits, the quoted impact is the exact one. -/
theorem quoteWith_impact {text : Pubkey → QuoteError} {pool : PoolState}
    {inputMint outputMint : Pubkey} {amountIn reserveIn reserveOut : UInt64} {q : Quote}
    (hrange : ImpactInRange pool inputMint amountIn)
    (horient : orient pool inputMint = some (reserveIn, reserveOut, outputMint))
    (hq : quoteWith text pool inputMint amountIn = .ok q) :
    q.priceImpactBps.toNat = exactImpact reserveIn reserveOut amountIn q.amountOut := by
  rw [quoteWith, horient] at hq
  dsimp only at hq
  split at hq
  · cases hq
  · split at hq
    · cases hq
    · rename_i amountOut feeAmount hswap
      obtain rfl := Except.ok.inj hq
      obtain ⟨⟨hin, hout, hamount, hden⟩, rfl, hfee, hpaid⟩ := swapBaseIn_some_iff.mp hswap
      have hfits := hrange _ _ _ horient hin hout hamount hden hfee
      rw [ImpactFits, ← productOut_le_iff (toNat_pos hin), ← hpaid,
        ← scale_fits_iff (toNat_pos hin)] at hfits
      exact priceImpactBps_exact amountOut hin hout hamount hfits

/-- **WHEN A QUOTE IS EXACT**, for every adapter, pool, mint and amount: exactly when the
    output stays in the range that can be scaled. -/
theorem quotesExactly_iff {adapter : DexAdapter} (h : adapter ∈ dexArbAdapters F)
    (pool : PoolState) (inputMint : Pubkey) (amountIn : UInt64) :
    QuotesExactly adapter pool inputMint amountIn ↔ ImpactInRange pool inputMint amountIn := by
  obtain ⟨hin, hover⟩ := quoteWithDebug_eq (emptyText adapter.dexType) pool inputMint amountIn
  constructor
  · intro hexact
    by_contra hnot
    have hok := hexact.noOverflow
    rw [quoteDebug, hover hnot] at hok
    cases hok
  · intro hrange
    constructor
    · rw [quoteDebug, adapter_quote_eq h]
      exact hin hrange
    · intro reserveIn reserveOut outputMint q horient hq
      rw [adapter_quote_eq h] at hq
      exact quoteWith_impact hrange horient hq

/-- A pool of two tokens, 25 basis points. -/
def impactPool (amountA amountB : UInt64) : PoolState :=
  { address := ⟨Vector.replicate 32 9⟩, dexType := .raydiumAmm,
    tokenAMint := ⟨Vector.replicate 32 1⟩, tokenBMint := ⟨Vector.replicate 32 2⟩,
    tokenAVault := Pubkey.default, tokenBVault := Pubkey.default,
    tokenAAmount := amountA, tokenBAmount := amountB,
    feeNumerator := 25, feeDenominator := 10000, slot := 0 }

/-- A thousand SOL against a hundred thousand USDC is quoted exactly. -/
theorem solPool_quotesExactly :
    QuotesExactly RaydiumAmmAdapter (impactPool 1000000000000 100000000000)
      ⟨Vector.replicate 32 1⟩ 1000000000 :=
  (quotesExactly_iff (F := Float) List.mem_cons_self _ _ _).mpr
    (impactInRange_of_small (by decide) _ _)

/-- **A LARGE SUPPLY OVERFLOWS**: a tenth of a reserve of `10 ^ 18` units aborts a debug
    build; a release build reports 7736 basis points of impact for 930. -/
theorem largeSupply_overflows :
    quoteDebug RaydiumAmmAdapter (impactPool 1000000000000000000 1000000000000000000)
        ⟨Vector.replicate 32 1⟩ 100000000000000000 = .error .overflow ∧
      priceImpactBps 1000000000000000000 1000000000000000000 100000000000000000
        90702432370993407 = 7736 ∧
      exactImpact 1000000000000000000 1000000000000000000 100000000000000000
        90702432370993407 = 930 ∧
      ¬∀ adapter ∈ dexArbAdapters Float, ∀ pool inputMint amountIn,
        QuotesExactly adapter pool inputMint amountIn := by
  have hover : quoteDebug RaydiumAmmAdapter
      (impactPool 1000000000000000000 1000000000000000000) ⟨Vector.replicate 32 1⟩
      100000000000000000 = .error .overflow := by decide +kernel
  refine ⟨hover, by decide, by decide, ?_⟩
  intro hall
  have hok := (hall RaydiumAmmAdapter List.mem_cons_self
    (impactPool 1000000000000000000 1000000000000000000) ⟨Vector.replicate 32 1⟩
    100000000000000000).noOverflow
  rw [hover] at hok
  cases hok

end MevPriceImpact
