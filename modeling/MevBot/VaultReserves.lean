import MevBot.AdapterFacts
import MevBot.CycleSimulation
import MevBot.ExactReal

/-! # Where a pool's reserves come from

    `populate_reserves` writes cached vault balances over the decoded reserves,
    one side at a time, and does not look at the DEX type.  Raydium AMM needs
    this; the other four adapters have derived their VIRTUAL reserves from the
    pool's price already.  Those reach the graph and the simulation unchanged
    exactly when no cached vault says otherwise (`virtualReserves_kept_iff`). -/

namespace MevVaults

open MevMachine MevTypes MevMath MevDex MevSearch MevCache MevStrategy MevAdapterFacts
open MevExact

/-! ## Reserves and parameters -/

/-- The reserve pair of a pool. -/
def reserves (pool : PoolState) : UInt64 × UInt64 := (pool.tokenAAmount, pool.tokenBAmount)

/-- The parameters of a swap through the pool from the input mint: a mint that is
    not the pool's A side counts as its B side. -/
def directedParams (pool : PoolState) (inputMint : Pubkey) : HopParams :=
  if inputMint = pool.tokenAMint then
    ⟨pool.tokenAAmount, pool.tokenBAmount, pool.feeNumerator, pool.feeDenominator⟩
  else ⟨pool.tokenBAmount, pool.tokenAAmount, pool.feeNumerator, pool.feeDenominator⟩

/-- No cached vault of the pool holds a balance other than the pool's reserve. -/
structure VaultsQuiet (cache : AccountCache) (pool : PoolState) : Prop where
  vaultA : ∀ balance, vaultBalance cache pool.tokenAVault = some balance →
    balance = pool.tokenAAmount
  vaultB : ∀ balance, vaultBalance cache pool.tokenBVault = some balance →
    balance = pool.tokenBAmount

theorem getD_eq_iff {α : Type} (o : Option α) (a : α) :
    o.getD a = a ↔ ∀ b, o = some b → b = a := by
  cases o with
  | none => exact ⟨fun _ b hb => (nomatch hb), fun _ => rfl⟩
  | some b =>
      refine ⟨fun h b' hb => ?_, fun h => h b rfl⟩
      obtain rfl := Option.some.inj hb
      exact h

/-- **WHEN THE VAULTS CHANGE NOTHING.** -/
theorem reserves_populate_iff (cache : AccountCache) (pool : PoolState) :
    reserves (populateReserves cache pool) = reserves pool ↔ VaultsQuiet cache pool := by
  rw [reserves, reserves, Prod.mk.injEq]
  constructor
  · rintro ⟨hA, hB⟩
    exact ⟨(getD_eq_iff _ _).mp hA, (getD_eq_iff _ _).mp hB⟩
  · intro h
    exact ⟨(getD_eq_iff _ _).mpr h.vaultA, (getD_eq_iff _ _).mpr h.vaultB⟩

/-- Quiet vaults leave the whole pool as it is. -/
theorem VaultsQuiet.populate {cache : AccountCache} {pool : PoolState}
    (h : VaultsQuiet cache pool) : populateReserves cache pool = pool := by
  obtain ⟨hA, hB⟩ := Prod.mk.inj ((reserves_populate_iff cache pool).mpr h)
  rw [populateReserves]
  congr 1

/-! ## The adapter tables -/

variable (F : Type) [F64 F]

/-- The adapters that derive virtual reserves. -/
def virtualAdapters : List DexAdapter :=
  [OrcaWhirlpoolAdapter F, RaydiumClmmAdapter F, MeteoraDlmmAdapter F, PhoenixAdapter]

variable {F}

/-- They are four of the strategy's five. -/
theorem mem_dexArbAdapters {adapter : DexAdapter} (h : adapter ∈ virtualAdapters F) :
    adapter ∈ dexArbAdapters F := by
  simp only [virtualAdapters, dexArbAdapters, List.mem_cons, List.not_mem_nil, or_false] at h ⊢
  rcases h with rfl | rfl | rfl | rfl
  · exact Or.inr (Or.inr (Or.inl rfl))
  · exact Or.inr (Or.inl rfl)
  · exact Or.inr (Or.inr (Or.inr (Or.inl rfl)))
  · exact Or.inr (Or.inr (Or.inr (Or.inr rfl)))

/-- An adapter is found by its DEX type. -/
theorem find_adapter {adapter : DexAdapter} (h : adapter ∈ dexArbAdapters F) :
    (dexArbAdapters F).find? (fun a => a.dexType = adapter.dexType) = some adapter := by
  rcases dexArbAdapters_cases h with rfl | rfl | rfl | rfl | rfl
  · rfl
  · rfl
  · rfl
  · rfl
  · rfl

/-- The programs of the five adapters are distinct. -/
theorem programIds_nodup : ((dexArbAdapters F).map (·.programId)).Nodup := by
  change [RAYDIUM_AMM_V4, RAYDIUM_CLMM, ORCA_WHIRLPOOL, METEORA_DLMM, PHOENIX].Nodup
  decide

/-- A search that only one element of the list can answer. -/
theorem findSome?_unique {α β : Type} {f : α → Option β} {l : List α} {a : α} (ha : a ∈ l)
    (hother : ∀ x ∈ l, x ≠ a → f x = none) : l.findSome? f = f a := by
  cases hfound : l.findSome? f with
  | none => exact (List.findSome?_eq_none_iff.mp hfound a ha).symm
  | some b =>
      obtain ⟨x, hx, hfx⟩ := List.exists_of_findSome?_eq_some hfound
      by_cases hxa : x = a
      · rw [← hxa, hfx]
      · rw [hother x hx hxa] at hfx
        cases hfx

/-- `try_decode_pool` asks the adapter that owns the account, and no other. -/
theorem decodeAny_owner {adapter : DexAdapter} (h : adapter ∈ dexArbAdapters F)
    {update : AccountUpdate} (howner : update.owner = adapter.programId) :
    decodeAny F update = decodeUpdate adapter update := by
  refine findSome?_unique h ?_
  intro other hmem hne
  rw [decodeUpdate, if_neg]
  intro heq
  exact hne (List.inj_on_of_nodup_map programIds_nodup hmem h (heq.symm.trans howner))

/-- An update that its owner's adapter decodes. -/
theorem decodeAny_of_owner {adapter : DexAdapter} (h : adapter ∈ dexArbAdapters F)
    {u : AccountUpdate} (howner : u.owner = adapter.programId) {pool : PoolState}
    (hdecode : adapter.decodePool u.pubkey u.data = .ok (some pool)) :
    decodeAny F u = some { pool with slot := u.slot } := by
  rw [decodeAny_owner h howner, decodeUpdate, if_pos howner, hdecode]

/-- The strategy sees the pool with the vault balances filled in. -/
theorem tryDecodePool_of_owner (s : DexArbStrategy F) (cache : AccountCache)
    {adapter : DexAdapter} (h : adapter ∈ dexArbAdapters F) {u : AccountUpdate}
    (howner : u.owner = adapter.programId) {pool : PoolState}
    (hdecode : adapter.decodePool u.pubkey u.data = .ok (some pool)) :
    (s.tryDecodePool cache u).2 =
      some (populateReserves cache { pool with slot := u.slot }) := by
  rw [DexArbStrategy.tryDecodePool, decodeAny_of_owner h howner hdecode]

theorem raydiumAmm_mem : RaydiumAmmAdapter ∈ dexArbAdapters F := List.mem_cons_self

/-! ## The first loop of the simulation -/

variable (F) in
/-- The pool a hop names, as its adapter decodes the cached account. -/
def accountPool (cache : AccountCache) (hop : ArbHop) : Option PoolState := do
  let adapter ← (dexArbAdapters F).find? fun a => a.dexType = hop.dexType
  let poolData ← cache.getData hop.poolAddress
  let decoded ← (adapter.decodePool hop.poolAddress poolData).toOption
  decoded

/-- The first loop fills in the vault balances and turns the pool to the hop. -/
theorem hopState_eq (cache : AccountCache) (hop : ArbHop) :
    hopState F cache hop = (accountPool F cache hop).bind fun pool =>
      let p := directedParams (populateReserves cache pool) hop.inputMint
      if p.reserveIn = 0 ∨ p.reserveOut = 0 then none
      else some (populateReserves cache pool, p) := by
  simp only [hopState, accountPool, bind, Option.bind_assoc, directedParams]
  refine Option.bind_congr fun adapter _ => Option.bind_congr fun poolData _ => ?_
  refine Option.bind_congr fun decoded _ => Option.bind_congr fun pool _ => ?_
  by_cases hA : hop.inputMint = (populateReserves cache pool).tokenAMint
  · simp only [if_pos hA]
  · simp only [if_neg hA]

theorem toOption_eq_some_iff {ε α : Type} {m : Except ε α} {a : α} :
    m.toOption = some a ↔ m = .ok a := by
  cases m with
  | error e => exact ⟨fun h => (nomatch h), fun h => (nomatch h)⟩
  | ok b => exact ⟨fun h => congrArg _ (Option.some.inj h), fun h => congrArg _ (Except.ok.inj h)⟩

/-- The account is cached, and the adapter of the hop's DEX decodes it. -/
theorem accountPool_some_iff {cache : AccountCache} {hop : ArbHop} {pool : PoolState} :
    accountPool F cache hop = some pool ↔
      ∃ adapter data, (dexArbAdapters F).find? (fun a => a.dexType = hop.dexType) = some adapter ∧
        cache.getData hop.poolAddress = some data ∧
        adapter.decodePool hop.poolAddress data = .ok (some pool) := by
  constructor
  · intro h
    obtain ⟨adapter, hfind, h⟩ := Option.bind_eq_some_iff.mp h
    obtain ⟨data, hdata, h⟩ := Option.bind_eq_some_iff.mp h
    obtain ⟨decoded, hdecode, rfl⟩ := Option.bind_eq_some_iff.mp h
    exact ⟨adapter, data, hfind, hdata, toOption_eq_some_iff.mp hdecode⟩
  · rintro ⟨adapter, data, hfind, hdata, hdecode⟩
    refine Option.bind_eq_some_iff.mpr
      ⟨adapter, hfind, Option.bind_eq_some_iff.mpr ⟨data, hdata, ?_⟩⟩
    exact Option.bind_eq_some_iff.mpr ⟨some pool, toOption_eq_some_iff.mpr hdecode, rfl⟩

/-- The pool has reserves on both sides, in the direction of the hop. -/
theorem hopState_some_iff {cache : AccountCache} {hop : ArbHop} {pool : PoolState}
    {p : HopParams} :
    hopState F cache hop = some (pool, p) ↔
      ∃ decoded, accountPool F cache hop = some decoded ∧ pool = populateReserves cache decoded ∧
        p = directedParams pool hop.inputMint ∧ p.reserveIn ≠ 0 ∧ p.reserveOut ≠ 0 := by
  rw [hopState_eq, Option.bind_eq_some_iff]
  refine exists_congr fun decoded => and_congr_right fun _ => ?_
  dsimp only
  split
  · rename_i hzero
    refine ⟨fun h => (nomatch h), ?_⟩
    rintro ⟨rfl, rfl, hin, hout⟩
    exact absurd hzero (not_or.mpr ⟨hin, hout⟩)
  · rename_i hzero
    obtain ⟨hin, hout⟩ := not_or.mp hzero
    constructor
    · intro h
      obtain ⟨rfl, rfl⟩ := Prod.mk.inj (Option.some.inj h)
      exact ⟨rfl, rfl, hin, hout⟩
    · rintro ⟨rfl, rfl, -⟩
      rfl

/-! ## Virtual reserves -/

/-- The reserve pair `decode_pool` derived reaches the graph edge and the cycle
    simulation unchanged. -/
structure KeepsReserves (s : DexArbStrategy F) (cache : AccountCache) (adapter : DexAdapter)
    (address : Pubkey) (data : List UInt8) (pool : PoolState) : Prop where
  graph : ∀ update : AccountUpdate, update.pubkey = address → update.data = data →
    update.owner = adapter.programId →
    ((s.tryDecodePool cache update).2.map reserves) = some (reserves pool)
  simulation : ∀ hop : ArbHop, hop.poolAddress = address → hop.dexType = adapter.dexType →
    cache.getData address = some data → ∀ pool' p, hopState F cache hop = some (pool', p) →
      reserves pool' = reserves pool ∧ p = directedParams pool hop.inputMint

/-- **WHEN VIRTUAL RESERVES SURVIVE**: the pair derived from the pool's own price is
    the pair traded on exactly when no cached vault of the pool parses to another
    balance. -/
theorem virtualReserves_kept_iff (s : DexArbStrategy F) (cache : AccountCache)
    {adapter : DexAdapter} (hadapter : adapter ∈ virtualAdapters F) {address : Pubkey}
    {data : List UInt8} {pool : PoolState}
    (hdecode : adapter.decodePool address data = .ok (some pool)) :
    KeepsReserves s cache adapter address data pool ↔ VaultsQuiet cache pool := by
  have hmem := mem_dexArbAdapters hadapter
  constructor
  · intro h
    have hkept := h.graph ⟨address, 0, data, 0, adapter.programId⟩ rfl rfl rfl
    rw [tryDecodePool_of_owner s cache hmem rfl hdecode] at hkept
    exact (reserves_populate_iff cache pool).mp (Option.some.inj hkept)
  · intro h
    refine ⟨?_, ?_⟩
    · rintro update rfl rfl howner
      rw [tryDecodePool_of_owner s cache hmem howner hdecode]
      exact congrArg some ((reserves_populate_iff cache pool).mpr h)
    · rintro hop rfl htype hdata pool' p hstate
      obtain ⟨decoded, hdecoded, hpool, hp, -⟩ := hopState_some_iff.mp hstate
      have hcached : accountPool F cache hop = some pool :=
        accountPool_some_iff.mpr ⟨adapter, data, htype ▸ find_adapter hmem, hdata, hdecode⟩
      obtain rfl := Option.some.inj (hcached.symm.trans hdecoded)
      rw [h.populate] at hpool
      rw [hp, hpool]
      exact ⟨rfl, rfl⟩

/-! ## Sample accounts -/

/-- An SPL token account with the given balance. -/
def tokenData (amount : UInt64) : List UInt8 :=
  List.replicate 64 0 ++ toLeBytes 8 amount.toNat ++ List.replicate 93 0

/-- `spl_token::id()`, the owner of every vault. -/
def SPL_TOKEN : Pubkey :=
  ⟨#v[6, 221, 246, 225, 215, 101, 161, 147, 217, 203, 225, 70, 206, 235, 121, 172,
    28, 180, 133, 237, 95, 91, 55, 145, 58, 140, 245, 133, 126, 255, 0, 169]⟩

/-- A vault account at an address. -/
def vaultAccount (address : UInt8) (amount slot : UInt64) : AccountUpdate :=
  { pubkey := ⟨Vector.replicate 32 address⟩, slot, data := tokenData amount, lamports := 0,
    owner := SPL_TOKEN }

/-- A Phoenix market with vaults: base lots of `10 ^ 9`, a tick of `2 * 10 ^ 9`. -/
def vaultedMarket : List UInt8 :=
  List.replicate 8 0 ++ [1] ++ List.replicate 31 0 ++ List.replicate 32 3 ++ List.replicate 32 1
    ++ toLeBytes 8 1000000000 ++ List.replicate 8 0 ++ List.replicate 32 4 ++ List.replicate 32 2
    ++ toLeBytes 8 1 ++ toLeBytes 8 2000000000 ++ List.replicate 312 0

/-- The pool that market decodes to. -/
def vaultedPool : PoolState :=
  { address := ⟨Vector.replicate 32 101⟩, dexType := .phoenix,
    tokenAMint := ⟨Vector.replicate 32 1⟩, tokenBMint := ⟨Vector.replicate 32 2⟩,
    tokenAVault := ⟨Vector.replicate 32 3⟩, tokenBVault := ⟨Vector.replicate 32 4⟩,
    tokenAAmount := 1000000000000, tokenBAmount := 2000000000000,
    feeNumerator := 4, feeDenominator := 10000, slot := 0 }

/-- Its reserves come from its lots and its tick. -/
theorem vaultedMarket_decodes :
    PhoenixAdapter.decodePool vaultedPool.address vaultedMarket = .ok (some vaultedPool) := by
  decide +kernel

/-- A Raydium AMM pool over the same mints, with a fee of 25 basis points. -/
def raydiumMarket : List UInt8 :=
  toLeBytes 8 6 ++ List.replicate 168 0 ++ toLeBytes 8 25 ++ toLeBytes 8 10000
    ++ List.replicate 144 0 ++ List.replicate 32 5 ++ List.replicate 32 6 ++ List.replicate 32 1
    ++ List.replicate 32 2 ++ List.replicate 288 0

/-- The pool it decodes to: its reserves are in the vaults. -/
def raydiumPool : PoolState :=
  { address := ⟨Vector.replicate 32 102⟩, dexType := .raydiumAmm,
    tokenAMint := ⟨Vector.replicate 32 1⟩, tokenBMint := ⟨Vector.replicate 32 2⟩,
    tokenAVault := ⟨Vector.replicate 32 5⟩, tokenBVault := ⟨Vector.replicate 32 6⟩,
    tokenAAmount := 0, tokenBAmount := 0,
    feeNumerator := 25, feeDenominator := 10000, slot := 0 }

theorem raydiumMarket_decodes :
    RaydiumAmm.decodePool raydiumPool.address raydiumMarket = .ok (some raydiumPool) := by
  decide +kernel

/-- The cache holds the base vault only, with a balance of five. -/
def baseVaultCache : AccountCache := AccountCache.new.update (vaultAccount 3 5 1)

/-- The cache holds a base vault too short to parse and a quote vault that holds the
    market's virtual reserve. -/
def quietCache : AccountCache :=
  (AccountCache.new.update
    { vaultAccount 3 5 1 with data := (tokenData 5).take 71 }).update
      (vaultAccount 4 2000000000000 1)

/-- The short vault parses to nothing, the other to what the market has. -/
theorem quietCache_quiet : VaultsQuiet quietCache vaultedPool := by
  have hA : vaultBalance quietCache vaultedPool.tokenAVault = none := by decide +kernel
  have hB : vaultBalance quietCache vaultedPool.tokenBVault = some 2000000000000 := by
    decide +kernel
  refine ⟨fun balance h => ?_, fun balance h => ?_⟩
  · rw [hA] at h
    cases h
  · rw [hB] at h
    exact (Option.some.inj h).symm

/-- There the market keeps its reserves, though both vaults are cached. -/
theorem quietCache_kept :
    KeepsReserves (DexArbStrategy.new 0 4 [] : DexArbStrategy ExactF64) quietCache
      PhoenixAdapter vaultedPool.address vaultedMarket vaultedPool :=
  (virtualReserves_kept_iff _ quietCache
    (List.mem_cons_of_mem _ (List.mem_cons_of_mem _ (List.mem_cons_of_mem _ List.mem_cons_self)))
    vaultedMarket_decodes).mpr quietCache_quiet

/-- **A MIXED PAIR**: one cached vault leaves a raw balance beside a virtual
    reserve. -/
theorem baseVault_overwrites :
    ((DexArbStrategy.new 0 4 [] : DexArbStrategy ExactF64).tryDecodePool baseVaultCache
        ⟨vaultedPool.address, 2, vaultedMarket, 0, PHOENIX⟩).2.map reserves =
        some (5, 2000000000000) ∧
      ¬∀ (s : DexArbStrategy ExactF64) (cache : AccountCache),
        ∀ adapter ∈ virtualAdapters ExactF64, ∀ address data pool,
          adapter.decodePool address data = .ok (some pool) →
            KeepsReserves s cache adapter address data pool := by
  have hphoenix : PhoenixAdapter ∈ virtualAdapters ExactF64 :=
    List.mem_cons_of_mem _ (List.mem_cons_of_mem _ (List.mem_cons_of_mem _ List.mem_cons_self))
  have hread := tryDecodePool_of_owner (DexArbStrategy.new 0 4 [] : DexArbStrategy ExactF64)
    baseVaultCache (mem_dexArbAdapters hphoenix)
    (u := ⟨vaultedPool.address, 2, vaultedMarket, 0, PHOENIX⟩) rfl vaultedMarket_decodes
  have hpair : ((DexArbStrategy.new 0 4 [] : DexArbStrategy ExactF64).tryDecodePool baseVaultCache
      ⟨vaultedPool.address, 2, vaultedMarket, 0, PHOENIX⟩).2.map reserves =
      some (5, 2000000000000) := by
    rw [hread]
    decide +kernel
  refine ⟨hpair, fun hall => ?_⟩
  have hkept := (hall (DexArbStrategy.new 0 4 []) baseVaultCache PhoenixAdapter hphoenix _ _ _
    vaultedMarket_decodes).graph ⟨vaultedPool.address, 2, vaultedMarket, 0, PHOENIX⟩ rfl rfl rfl
  exact absurd (hpair.symm.trans hkept) (by decide)

end MevVaults
