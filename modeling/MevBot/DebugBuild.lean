import MevBot.DexAdapters

/-! # The bot in a debug build

    A plain `+`, `-` or `*` of the source wraps in a release build and panics in
    a debug build.  The model computes as a release build does; these are the
    functions of it whose plain operators can overflow, as a debug build runs
    them.  Where a debug build returns, the release build returns the same
    (`Matches`): that nothing overflowed is that it returns. -/

namespace MevDebug

open MevMachine MevTypes MevMath MevDex

/-! ## The operators -/

/-- Why a debug build stops. -/
inductive Abort where
  | panicked (p : Panic)
  | overflow
deriving DecidableEq, Repr

/-- A computation of a debug build. -/
abbrev Debug (α : Type) := Except Abort α

/-- A read panics in both builds. -/
def ofRust {α : Type} : Rust α → Debug α
  | .ok a => .ok a
  | .error p => .error (.panicked p)

/-- `a + b` on `u64`. -/
def addU64 (a b : UInt64) : Debug UInt64 :=
  if a.toNat + b.toNat < 2 ^ 64 then .ok (a + b) else .error .overflow

/-- `a * b` on `u64`. -/
def mulU64 (a b : UInt64) : Debug UInt64 :=
  if a.toNat * b.toNat < 2 ^ 64 then .ok (a * b) else .error .overflow

/-- `a - b` on `u64`. -/
def subU64 (a b : UInt64) : Debug UInt64 :=
  if b ≤ a then .ok (a - b) else .error .overflow

/-- `a * b` on `u128`. -/
def mulU128 (a b : Nat) : Debug Nat :=
  if a * b < 2 ^ 128 then .ok (a * b) else .error .overflow

/-- `a - b` on `i64`. -/
def subI64 (a b : Int64) : Debug Int64 :=
  if -2 ^ 63 ≤ a.toInt - b.toInt ∧ a.toInt - b.toInt < 2 ^ 63 then .ok (a - b)
  else .error .overflow

/-! ## Two builds -/

/-- Where the debug build returns, the release build returns the same. -/
def Matches {α : Type} (debug release : Debug α) : Prop := ∀ x, debug = .ok x → release = .ok x

section Matches

variable {α β : Type}

/-- A computation matches itself. -/
theorem Matches.refl (m : Debug α) : Matches m m := fun _ h => h

/-- A panic matches anything. -/
theorem Matches.error (e : Abort) (m : Debug α) : Matches (.error e) m := fun _ h => nomatch h

/-- Both branches of a test match. -/
theorem Matches.ite {c : Prop} [Decidable c] {m m' n n' : Debug α} (h : Matches m n)
    (h' : Matches m' n') : Matches (if c then m else m') (if c then n else n') := by
  split
  · exact h
  · exact h'

/-- Matching steps, one after the other. -/
theorem Matches.bind {m n : Debug α} {f k : α → Debug β} (hm : Matches m n)
    (hf : ∀ a, Matches (f a) (k a)) : Matches (m >>= f) (n >>= k) := by
  intro x hx
  cases hres : m with
  | error e =>
      rw [hres] at hx
      cases hx
  | ok a =>
      rw [hres] at hx
      rw [hm a hres]
      exact hf a x hx

/-- The result of a checked operator is the one the release build goes on with. -/
theorem Matches.bind_ok {m : Debug α} {a : α} {f : α → Debug β} {n : Debug β}
    (hm : Matches m (.ok a)) (hf : Matches (f a) n) : Matches (m >>= f) n := by
  intro x hx
  cases hres : m with
  | error e =>
      rw [hres] at hx
      cases hx
  | ok a' =>
      obtain rfl := Except.ok.inj (hm a' hres)
      rw [hres] at hx
      exact hf x hx

/-- A read that panics does so in either build. -/
theorem ofRust_bind (m : Rust α) (f : α → Rust β) :
    ofRust (m >>= f) = ofRust m >>= fun a => ofRust (f a) := by
  cases m with
  | error p => rfl
  | ok a => rfl

theorem ofRust_ite {c : Prop} [Decidable c] (m m' : Rust α) :
    ofRust (if c then m else m') = if c then ofRust m else ofRust m' := apply_ite ofRust c m m'

end Matches

/-- Where a debug build does not stop, the product did not wrap. -/
theorem mulU64_matches (a b : UInt64) : Matches (mulU64 a b) (.ok (a * b)) := by
  rw [mulU64]
  split
  · exact Matches.refl _
  · exact Matches.error _ _

/-- The same of a difference. -/
theorem subU64_matches (a b : UInt64) : Matches (subU64 a b) (.ok (a - b)) := by
  rw [subU64]
  split
  · exact Matches.refl _
  · exact Matches.error _ _

/-- The same of a signed difference. -/
theorem subI64_matches (a b : Int64) : Matches (subI64 a b) (.ok (a - b)) := by
  rw [subI64]
  split
  · exact Matches.refl _
  · exact Matches.error _ _

/-- A release build reduces the product modulo `2 ^ 128`. -/
theorem mulU128_matches (a b : Nat) : Matches (mulU128 a b) (.ok (a * b % 2 ^ 128)) := by
  rw [mulU128]
  split
  · rename_i hlt
    rw [Nat.mod_eq_of_lt hlt]
    exact Matches.refl _
  · exact Matches.error _ _

/-- A sum that fits is computed. -/
theorem addU64_fits {a b : UInt64} (h : a.toNat + b.toNat < 2 ^ 64) :
    addU64 a b = .ok (a + b) := if_pos h

/-- A product that fits is computed. -/
theorem mulU64_fits {a b : UInt64} (h : a.toNat * b.toNat < 2 ^ 64) :
    mulU64 a b = .ok (a * b) := if_pos h

/-- A product that does not fit stops a debug build. -/
theorem mulU64_overflows {a b : UInt64} (h : ¬a.toNat * b.toNat < 2 ^ 64) :
    mulU64 a b = .error .overflow := if_neg h

/-- A difference that is not negative is computed. -/
theorem subU64_fits {a b : UInt64} (h : b ≤ a) : subU64 a b = .ok (a - b) := if_pos h

/-- A negative difference stops a debug build. -/
theorem subU64_overflows {a b : UInt64} (h : ¬b ≤ a) : subU64 a b = .error .overflow := if_neg h

/-- A wide product that fits is computed. -/
theorem mulU128_fits {a b : Nat} (h : a * b < 2 ^ 128) : mulU128 a b = .ok (a * b) := if_pos h

/-- A wide product that does not fit stops a debug build. -/
theorem mulU128_overflows {a b : Nat} (h : ¬a * b < 2 ^ 128) :
    mulU128 a b = .error .overflow := if_neg h

/-- Two words multiply into a `u128`. -/
theorem mulU128_u64 (a b : UInt64) : mulU128 a.toNat b.toNat = .ok (a.toNat * b.toNat) := by
  refine mulU128_fits ?_
  have hlt : a.toNat * b.toNat < 2 ^ 64 * 2 ^ 64 := Nat.mul_lt_mul'' a.toNat_lt b.toNat_lt
  omega

/-! ## The pool math -/

/-- `current as i64 - amount_in as i64`. -/
def profitOfDebug (current amountIn : UInt64) : Debug Int64 :=
  subI64 current.toInt64 amountIn.toInt64

/-- `optimizer::simulate_cycle`; the swaps use checked operators only. -/
def simulateCycleDebug (hops : List HopParams) (amountIn : UInt64) : Debug Int64 :=
  if amountIn = 0 then .ok 0
  else
    match runHops hops amountIn with
    | some current => profitOfDebug current amountIn
    | none => .ok Int64.minValue

/-- A profit a debug build returns is the reported one. -/
theorem simulateCycleDebug_matches (hops : List HopParams) (amountIn : UInt64) :
    Matches (simulateCycleDebug hops amountIn) (.ok (simulateCycle hops amountIn)) := by
  rw [simulateCycleDebug, simulateCycle]
  split
  · exact Matches.refl _
  · cases runHops hops amountIn with
    | none => exact Matches.refl _
    | some current => exact subI64_matches _ _

/-- `constant_product::price_impact_bps`. -/
def priceImpactBpsDebug (reserveIn reserveOut amountIn amountOut : UInt64) : Debug UInt16 :=
  if reserveIn = 0 ∨ reserveOut = 0 ∨ amountIn = 0 then .ok 0
  else do
    let spotNumerator ← mulU128 amountOut.toNat reserveIn.toNat
    let spotDenominator ← mulU128 amountIn.toNat reserveOut.toNat
    if spotDenominator = 0 then .ok 10000
    else do
      let scaled ← mulU128 spotNumerator 10000
      let ratio := scaled / spotDenominator
      -- behind this test the subtraction cannot overflow
      if ratio ≥ 10000 then .ok 0
      else .ok (UInt16.ofNat (10000 - ratio))

/-- The price impact is computed with plain operations. -/
theorem priceImpactBpsDebug_matches (reserveIn reserveOut amountIn amountOut : UInt64) :
    Matches (priceImpactBpsDebug reserveIn reserveOut amountIn amountOut)
      (.ok (priceImpactBps reserveIn reserveOut amountIn amountOut)) := by
  rw [priceImpactBpsDebug, priceImpactBps, mulU128_u64, mulU128_u64]
  split
  · exact Matches.refl _
  · simp only [bind, Except.bind]
    split
    · exact Matches.refl _
    -- only the scaling can overflow
    · refine Matches.bind_ok (mulU128_matches _ _) ?_
      split
      · exact Matches.refl _
      · exact Matches.refl _

/-- `quote`, the same in all five adapters up to the text for empty reserves. -/
def quoteWithDebug (emptyText : Pubkey → QuoteError) (pool : PoolState) (inputMint : Pubkey)
    (amountIn : UInt64) : Debug (Except QuoteError Quote) :=
  match orient pool inputMint with
  | none => .ok (.error (.inputMintNotInPool inputMint pool.address))
  | some (reserveIn, reserveOut, outputMint) =>
      if reserveIn = 0 ∨ reserveOut = 0 then .ok (.error (emptyText pool.address))
      else
        match swapBaseIn reserveIn reserveOut amountIn pool.feeNumerator pool.feeDenominator with
        | none => .ok (.error (.swapMathOverflow pool.address))
        | some (amountOut, feeAmount) => do
            let priceImpactBps ← priceImpactBpsDebug reserveIn reserveOut amountIn amountOut
            .ok (.ok { inputMint, outputMint, amountIn, amountOut, feeAmount, priceImpactBps })

/-- A debug build quotes as a release build does, or stops. -/
theorem quoteWithDebug_matches (emptyText : Pubkey → QuoteError) (pool : PoolState)
    (inputMint : Pubkey) (amountIn : UInt64) :
    Matches (quoteWithDebug emptyText pool inputMint amountIn)
      (.ok (quoteWith emptyText pool inputMint amountIn)) := by
  rw [quoteWithDebug, quoteWith]
  rcases orient pool inputMint with _ | ⟨reserveIn, reserveOut, outputMint⟩
  · exact Matches.refl _
  · dsimp only
    split
    · exact Matches.refl _
    · rcases swapBaseIn reserveIn reserveOut amountIn pool.feeNumerator
        pool.feeDenominator with _ | ⟨amountOut, feeAmount⟩
      · exact Matches.refl _
      · exact Matches.bind_ok (priceImpactBpsDebug_matches _ _ _ _) (Matches.refl _)

/-! ## The decoders -/

variable (F : Type) [F64 F]

/-- `MeteoraDlmmAdapter::decode_pool`. -/
def meteoraDlmmDebug (address : Pubkey) (data : List UInt8) : Debug (Option PoolState) := do
  if data.length < MeteoraDlmm.LB_PAIR_MIN_SIZE then return none
  let activeId ← ofRust (readI32 data MeteoraDlmm.ACTIVE_ID_OFFSET)
  let binStep ← ofRust (readU16 data MeteoraDlmm.BIN_STEP_OFFSET)
  let tokenXMint ← ofRust (readPubkey data MeteoraDlmm.TOKEN_X_MINT_OFFSET)
  let tokenYMint ← ofRust (readPubkey data MeteoraDlmm.TOKEN_Y_MINT_OFFSET)
  let reserveXVault ← ofRust (readPubkey data MeteoraDlmm.RESERVE_X_OFFSET)
  let reserveYVault ← ofRust (readPubkey data MeteoraDlmm.RESERVE_Y_OFFSET)
  if binStep = 0 then return none
  let baseFactor ← ofRust (readU16 data MeteoraDlmm.BASE_FACTOR_OFFSET)
  let feeProduct ← mulU64 baseFactor.toUInt64 binStep.toUInt64
  let price : F := MeteoraDlmm.computeBinPrice activeId binStep
  let virtualX : UInt64 := 1000000000
  let virtualY : UInt64 := F64.toU64 (F64.ofNat virtualX.toNat * price)
  return some
    { address, dexType := .meteoraDlmm, tokenAMint := tokenXMint, tokenBMint := tokenYMint,
      tokenAVault := reserveXVault, tokenBVault := reserveYVault,
      tokenAAmount := virtualX, tokenBAmount := max virtualY 1,
      feeNumerator := feeProduct / 100, feeDenominator := 10000, slot := 0 }

/-- `PhoenixAdapter::decode_pool`. -/
def phoenixDebug (address : Pubkey) (data : List UInt8) : Debug (Option PoolState) := do
  if data.length < Phoenix.MARKET_MIN_SIZE then return none
  let status ← ofRust (readU64 data Phoenix.STATUS_OFFSET)
  if status = 0 then return none
  let baseMint ← ofRust (readPubkey data Phoenix.BASE_MINT_OFFSET)
  let quoteMint ← ofRust (readPubkey data Phoenix.QUOTE_MINT_OFFSET)
  let baseVault ← ofRust (readPubkey data Phoenix.BASE_VAULT_OFFSET)
  let quoteVault ← ofRust (readPubkey data Phoenix.QUOTE_VAULT_OFFSET)
  let baseLotSize ← ofRust (readU64 data Phoenix.BASE_LOT_SIZE_OFFSET)
  let quoteLotSize ← ofRust (readU64 data Phoenix.QUOTE_LOT_SIZE_OFFSET)
  let tickSize ← ofRust (readU64 data Phoenix.TICK_SIZE_OFFSET)
  let virtualBase ← mulU64 (max baseLotSize 1) 1000
  let virtualQuote ←
    if tickSize > 0 ∧ quoteLotSize > 0 then do
      let lots ← mulU64 tickSize quoteLotSize
      mulU64 lots 1000
    else .ok virtualBase
  return some
    { address, dexType := .phoenix, tokenAMint := baseMint, tokenBMint := quoteMint,
      tokenAVault := baseVault, tokenBVault := quoteVault,
      tokenAAmount := virtualBase, tokenBAmount := virtualQuote,
      feeNumerator := 4, feeDenominator := 10000, slot := 0 }

/-- Likewise it decodes a market as a release build does, or stops in the lot products. -/
theorem phoenixDebug_matches (address : Pubkey) (data : List UInt8) :
    Matches (phoenixDebug address data) (ofRust (Phoenix.decodePool address data)) := by
  rw [phoenixDebug, Phoenix.decodePool]
  simp only [ofRust_bind, ofRust_ite]
  refine Matches.ite (Matches.refl _) ?_
  refine Matches.bind (Matches.refl _) fun status => ?_
  refine Matches.ite (Matches.refl _) ?_
  -- the reads are the same, the two products are checked
  refine Matches.bind (Matches.refl _) fun baseMint => ?_
  refine Matches.bind (Matches.refl _) fun quoteMint => ?_
  refine Matches.bind (Matches.refl _) fun baseVault => ?_
  refine Matches.bind (Matches.refl _) fun quoteVault => ?_
  refine Matches.bind (Matches.refl _) fun baseLotSize => ?_
  refine Matches.bind (Matches.refl _) fun quoteLotSize => ?_
  refine Matches.bind (Matches.refl _) fun tickSize => ?_
  refine Matches.bind_ok (mulU64_matches _ _) ?_
  split
  · refine Matches.bind_ok (mulU64_matches _ _) ?_
    exact Matches.bind_ok (mulU64_matches _ _) (Matches.refl _)
  · exact Matches.refl _

/-- `decode_pool` of the adapter of a DEX; the other three decoders have no integer
    arithmetic. -/
def decodePoolDebug : DexType → Pubkey → List UInt8 → Debug (Option PoolState)
  | .raydiumAmm, address, data => ofRust (RaydiumAmm.decodePool address data)
  | .raydiumClmm, address, data => ofRust (RaydiumClmm.decodePool F address data)
  | .orcaWhirlpool, address, data => ofRust (OrcaWhirlpool.decodePool F address data)
  | .meteoraDlmm, address, data => meteoraDlmmDebug F address data
  | .phoenix, address, data => phoenixDebug address data

end MevDebug
