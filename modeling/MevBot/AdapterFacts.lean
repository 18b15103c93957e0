import MevBot.Strategies

/-! # What an adapter's pool says about itself

    Decoding is a chain of reads and tests that ends in at most one pool
    record.  Whatever holds of that last record for any values read holds of
    every pool decoded (`Yields`); so every pool carries the address it was
    decoded for and the type of its adapter (`dexArbAdapters_stamp`). -/

namespace MevAdapterFacts

open MevMachine MevTypes MevDex MevStrategy

variable {F : Type}

/-! ## What a decoder can yield -/

/-- Every value the computation yields satisfies `P`. -/
def Yields {α : Type} (P : α → Prop) (m : Rust (Option α)) : Prop :=
  ∀ x, m = .ok (some x) → P x

/-- Nothing is claimed of an account that is turned away. -/
theorem Yields.none {α : Type} {P : α → Prop} : Yields P (pure Option.none) := by
  intro x h
  cases h

/-- A value that is returned satisfies the predicate. -/
theorem Yields.some {α : Type} {P : α → Prop} {x : α} (hx : P x) :
    Yields P (pure (Option.some x)) := by
  intro y h
  obtain rfl := Option.some.inj (Except.ok.inj h)
  exact hx

/-- Both branches of a test. -/
theorem Yields.ite {α : Type} {P : α → Prop} {c : Prop} [Decidable c] {m m' : Rust (Option α)}
    (h : Yields P m) (h' : Yields P m') : Yields P (if c then m else m') := by
  split
  · exact h
  · exact h'

/-- What follows a read is judged by the value read. -/
theorem Yields.read {α β : Type} {P : β → Prop} {m : Rust α} {f : α → Rust (Option β)}
    (h : ∀ a, m = .ok a → Yields P (f a)) : Yields P (m >>= f) := by
  intro x hx
  obtain ⟨a, ha, hx⟩ := bind_ok hx
  exact h a ha x hx

/-- Where the value read does not matter. -/
theorem Yields.bind {α β : Type} {P : β → Prop} {m : Rust α} {f : α → Rust (Option β)}
    (h : ∀ a, Yields P (f a)) : Yields P (m >>= f) :=
  Yields.read fun a _ => h a

/-! ## The five adapters -/

/-- A pool carries the address it was decoded for and its adapter's type. -/
def Stamps (adapter : DexAdapter) : Prop :=
  ∀ address data, Yields (fun pool => pool.address = address ∧ pool.dexType = adapter.dexType)
    (adapter.decodePool address data)

/-- A Raydium AMM account carries no reserves: they are in its vaults. -/
theorem raydiumAmm_yields (address : Pubkey) (data : List UInt8) :
    Yields (fun pool => (pool.address = address ∧ pool.dexType = .raydiumAmm) ∧
      pool.tokenAAmount = 0 ∧ pool.tokenBAmount = 0) (RaydiumAmm.decodePool address data) := by
  refine Yields.ite Yields.none ?_
  refine Yields.bind fun status => Yields.ite Yields.none ?_
  refine Yields.bind fun coinMint => Yields.bind fun pcMint => ?_
  refine Yields.bind fun coinVault => Yields.bind fun pcVault => ?_
  refine Yields.bind fun feeNum => Yields.bind fun feeDen => ?_
  exact Yields.some ⟨⟨rfl, rfl⟩, rfl, rfl⟩

/-- The slot is filled in by the caller. -/
theorem raydiumAmm_stamps : Stamps RaydiumAmmAdapter := by
  intro address data pool hpool
  exact (raydiumAmm_yields address data pool hpool).1

theorem raydiumClmm_stamps [F64 F] : Stamps (RaydiumClmmAdapter F) := by
  intro address data
  refine Yields.ite Yields.none ?_
  refine Yields.bind fun status => Yields.ite Yields.none ?_
  refine Yields.bind fun liquidity => Yields.bind fun sqrtPrice => Yields.ite Yields.none ?_
  refine Yields.bind fun mint0 => Yields.bind fun mint1 => ?_
  refine Yields.bind fun vault0 => Yields.bind fun vault1 => Yields.bind fun tick => ?_
  exact Yields.ite Yields.none (Yields.some ⟨rfl, rfl⟩)

theorem orcaWhirlpool_stamps [F64 F] : Stamps (OrcaWhirlpoolAdapter F) := by
  intro address data
  refine Yields.ite Yields.none ?_
  refine Yields.bind fun fee => Yields.bind fun liquidity => Yields.bind fun sqrtPrice => ?_
  refine Yields.ite Yields.none ?_
  refine Yields.bind fun mintA => Yields.bind fun mintB => ?_
  refine Yields.bind fun vaultA => Yields.bind fun vaultB => ?_
  exact Yields.some ⟨rfl, rfl⟩

theorem meteoraDlmm_stamps [F64 F] : Stamps (MeteoraDlmmAdapter F) := by
  intro address data
  refine Yields.ite Yields.none ?_
  refine Yields.bind fun activeId => Yields.bind fun binStep => ?_
  refine Yields.bind fun mintX => Yields.bind fun mintY => ?_
  refine Yields.bind fun reserveX => Yields.bind fun reserveY => Yields.ite Yields.none ?_
  refine Yields.bind fun baseFactor => ?_
  exact Yields.some ⟨rfl, rfl⟩

theorem phoenix_stamps : Stamps PhoenixAdapter := by
  intro address data
  refine Yields.ite Yields.none ?_
  refine Yields.bind fun status => Yields.ite Yields.none ?_
  refine Yields.bind fun baseMint => Yields.bind fun quoteMint => ?_
  refine Yields.bind fun baseVault => Yields.bind fun quoteVault => ?_
  refine Yields.bind fun baseLot => Yields.bind fun quoteLot => Yields.bind fun tick => ?_
  exact Yields.some ⟨rfl, rfl⟩

/-- **EVERY ADAPTER STAMPS ITS POOLS.** -/
theorem dexArbAdapters_stamp [F64 F] {adapter : DexAdapter}
    (h : adapter ∈ dexArbAdapters F) : Stamps adapter := by
  rcases dexArbAdapters_cases h with rfl | rfl | rfl | rfl | rfl
  · exact raydiumAmm_stamps
  · exact raydiumClmm_stamps
  · exact orcaWhirlpool_stamps
  · exact meteoraDlmm_stamps
  · exact phoenix_stamps

/-- A decoded update is a pool at the update's address and slot. -/
theorem decodeAny_stamped [F64 F] {update : AccountUpdate} {pool : PoolState}
    (h : decodeAny F update = some pool) :
    pool.address = update.pubkey ∧ pool.slot = update.slot := by
  obtain ⟨adapter, hadapter, hdecode⟩ := List.exists_of_findSome?_eq_some h
  -- the slot is the update's, whatever the decoder left there
  rw [decodeUpdate] at hdecode
  split at hdecode
  · split at hdecode
    · rename_i decoded hok
      obtain rfl := Option.some.inj hdecode
      exact ⟨(dexArbAdapters_stamp hadapter _ _ decoded hok).1, rfl⟩
    · cases hdecode
  · cases hdecode

end MevAdapterFacts
