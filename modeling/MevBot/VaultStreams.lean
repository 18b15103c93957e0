import MevBot.SlotOrder
import MevBot.TwoReceivers
import MevBot.VaultReserves

/-! # Vault balances in the graph

    A vault belongs to the token program, so no adapter decodes its updates and
    `process_update` does nothing with them.  The graph of a Raydium AMM pool has
    the balances its vaults held when the POOL ACCOUNT was last delivered with
    both of them funded; whether these are the latest ones depends on the order
    of delivery (`vault_balances_tracked`). -/

namespace MevVaultStreams

open MevMachine MevTypes MevGraph MevGraphInv MevQuotes MevDex MevCache MevStrategy MevHistory
open MevAdapterFacts MevSlotOrder MevReceivers MevVaults MevExact StampedStore

variable {F : Type} [F64 F]

/-! ## The stream -/

/-- The updates of a stream, each with the cache content it is processed on. -/
def feed (cache : AccountCache) : List AccountUpdate → List CachedUpdate
  | [] => []
  | u :: us => (cache.update u, u) :: feed (cache.update u) us

/-- The last update is seen behind the cache that holds it. -/
theorem feed_concat (cache : AccountCache) (us : List AccountUpdate) (u : AccountUpdate) :
    feed cache (us ++ [u]) =
      feed cache us ++ [((us ++ [u]).foldl AccountCache.update cache, u)] := by
  induction us generalizing cache with
  | nil => rfl
  | cons v us ih =>
      rw [List.cons_append, feed, feed, ih (cache.update v)]
      rfl

variable (F) in
/-- The pools the strategy has decoded along a stream, reserves filled in. -/
def poolsOf (us : List AccountUpdate) : List PoolState :=
  (feed AccountCache.new us).filterMap (decodedPool F)

theorem poolsOf_concat (us : List AccountUpdate) (u : AccountUpdate) :
    poolsOf F (us ++ [u]) =
      poolsOf F us ++ (decodedPool F (cacheAfter (us ++ [u]), u)).toList := by
  rw [poolsOf, feed_concat, List.filterMap_append]
  rfl

/-- The update of an account that was delivered last. -/
def latest (us : List AccountUpdate) (p : Pubkey) : Option AccountUpdate :=
  us.reverse.find? fun u => decide (u.pubkey = p)

/-- The latest delivery was delivered. -/
theorem latest_mem {us : List AccountUpdate} {p : Pubkey} {u : AccountUpdate}
    (h : latest us p = some u) : u ∈ us ∧ u.pubkey = p := by
  have hkey := List.find?_some (p := fun x : AccountUpdate => decide (x.pubkey = p)) h
  exact ⟨List.mem_reverse.mp (List.mem_of_find?_eq_some h), of_decide_eq_true hkey⟩

/-- In slot order the cache holds what was delivered last. -/
theorem cacheAfter_latest {us : List AccountUpdate}
    (hord : Ordered AccountUpdate.pubkey slotOf us) (p : Pubkey) :
    (cacheAfter us).inner p = (latest us p).map entryOf := by
  rw [cacheAfter_inner, after_ordered hord]
  rfl

/-- The balance last delivered for a vault. -/
def latestBalance (us : List AccountUpdate) (vault : Pubkey) : Option UInt64 :=
  (latest us vault).bind fun u => parseTokenAccountAmount u.data

/-- The cached balance is the one delivered latest. -/
theorem vaultBalance_latest {us : List AccountUpdate}
    (hord : Ordered AccountUpdate.pubkey slotOf us) (vault : Pubkey) :
    vaultBalance (cacheAfter us) vault = latestBalance us vault := by
  rw [vaultBalance, AccountCache.getData, cacheAfter_latest hord, latestBalance]
  cases latest us vault with
  | none => rfl
  | some u => rfl

/-- An active Raydium AMM pool account and both of its vaults have been delivered,
    and the latest balances are `a` and `b`, neither of them zero. -/
structure FundedPool (us : List AccountUpdate) (pool : PoolState) (a b : UInt64) : Prop where
  account : ∃ u, latest us pool.address = some u ∧ u.owner = RAYDIUM_AMM_V4 ∧
    RaydiumAmm.decodePool pool.address u.data = .ok (some pool)
  vaultA : latestBalance us pool.tokenAVault = some a
  vaultB : latestBalance us pool.tokenBVault = some b
  fundedA : a ≠ 0
  fundedB : b ≠ 0

/-- Both edges of the pool are there, with the rates and liquidities of the
    balances. -/
structure ShowsBalances (g : PriceGraph F) (pool : PoolState) (a b : UInt64) : Prop where
  sideA : ∃ r, readingAt g (pool.address, pool.tokenAMint) = some r ∧
    r.rate = F64.ofNat b.toNat / F64.ofNat a.toNat ∧ r.liquidity = b
  sideB : ∃ r, readingAt g (pool.address, pool.tokenBMint) = some r ∧
    r.rate = F64.ofNat a.toNat / F64.ofNat b.toNat ∧ r.liquidity = a

/-! ## Funded deliveries -/

/-- The reserves of a pool at the end of a stream: the balances last delivered for
    its vaults, and the account's own numbers where a vault was not delivered. -/
def reservesAt (us : List AccountUpdate) (pool : PoolState) : UInt64 × UInt64 :=
  ((latestBalance us pool.tokenAVault).getD pool.tokenAAmount,
    (latestBalance us pool.tokenBVault).getD pool.tokenBAmount)

variable (F) in
/-- The last update of the stream, `u`, is a pool account with reserves `r`, neither of
    them zero. -/
structure FundedDelivery (us : List AccountUpdate) (u : AccountUpdate) (pool : PoolState)
    (r : UInt64 × UInt64) : Prop where
  decoded : decodeAny F u = some pool
  balances : reservesAt us pool = r
  fundedA : r.1 ≠ 0
  fundedB : r.2 ≠ 0

variable (F) in
/-- The last funded delivery of the account `p` in the stream, and its reserves then. -/
inductive LastFunded (p : Pubkey) : List AccountUpdate → PoolState → UInt64 × UInt64 → Prop
  | here {us : List AccountUpdate} {u : AccountUpdate} {pool : PoolState} {r : UInt64 × UInt64} :
      u.pubkey = p → FundedDelivery F (us ++ [u]) u pool r → LastFunded p (us ++ [u]) pool r
  | later {us : List AccountUpdate} {u : AccountUpdate} {pool : PoolState} {r : UInt64 × UInt64} :
      LastFunded p us pool r →
        (u.pubkey = p → ∀ other r', ¬FundedDelivery F (us ++ [u]) u other r') →
        LastFunded p (us ++ [u]) pool r

variable (F) in
/-- The pool's account was last delivered funded when its vaults held the balances
    `a` and `b`, and its two mints, as they were then and are now, differ. -/
structure UpToDate (us : List AccountUpdate) (pool : PoolState) (a b : UInt64) : Prop where
  distinct : pool.tokenAMint ≠ pool.tokenBMint
  found : ∃ w, LastFunded F pool.address us w (a, b) ∧ w.tokenAMint = pool.tokenAMint ∧
    w.tokenBMint = pool.tokenBMint

/-- The last funded delivery was delivered. -/
theorem LastFunded.delivered {p : Pubkey} {us : List AccountUpdate} {pool : PoolState}
    {r : UInt64 × UInt64} (h : LastFunded F p us pool r) :
    ∃ u ∈ us, u.pubkey = p ∧ decodeAny F u = some pool := by
  induction h with
  | here hkey hfund =>
      exact ⟨_, List.mem_append_right _ (List.mem_singleton.mpr rfl), hkey, hfund.decoded⟩
  | later _ _ ih =>
      obtain ⟨v, hv, hkey, hdecoded⟩ := ih
      exact ⟨v, List.mem_append_left _ hv, hkey, hdecoded⟩

/-- What the strategy makes of a pool account, in slot order. -/
theorem populate_reserves {us : List AccountUpdate}
    (hord : Ordered AccountUpdate.pubkey slotOf us) (pool : PoolState) :
    reserves (populateReserves (cacheAfter us) pool) = reservesAt us pool := by
  rw [populateReserves, vaultBalance_latest hord, vaultBalance_latest hord]
  rfl

/-! ## What the graph shows -/

/-- The last pool at an address with both reserves nonzero. -/
def lastFundedPool (pools : List PoolState) (p : Pubkey) : Option PoolState :=
  lastOf (pools.filter fun pool => decide (Funded pool)) p

theorem lastFundedPool_concat (pools : List PoolState) (pool : PoolState) (p : Pubkey) :
    lastFundedPool (pools ++ [pool]) p =
      if Funded pool ∧ pool.address = p then some pool else lastFundedPool pools p := by
  rw [lastFundedPool, lastFundedPool, List.filter_append]
  by_cases hfund : Funded pool
  · rw [List.filter_singleton, decide_eq_true hfund, cond_true, lastOf_concat]
    exact if_congr (and_iff_right hfund).symm rfl rfl
  · rw [List.filter_singleton, decide_eq_false hfund, cond_false, List.append_nil]
    rw [if_neg fun h => hfund h.1]

/-- What one more update does to a price. -/
theorem pricesOf_concat_eq (pools : List PoolState) (pool : PoolState) (key : Pubkey × Pubkey) :
    pricesOf (pools ++ [pool]) key =
      if Funded pool ∧ pool.address = key.1 then (sideOf pool key.2).or (pricesOf pools key)
      else pricesOf pools key := by
  rw [pricesOf_concat]
  by_cases hfund : Funded pool
  · rw [apply_eq_sideOf _ hfund]
    exact if_congr (and_iff_right hfund).symm rfl rfl
  · rw [QuoteTable.apply, if_neg hfund, if_neg fun h => hfund h.1]

/-- The last funded update of a pool is on offer. -/
theorem pricesOf_lastFundedPool {pools : List PoolState} {p : Pubkey} {w : PoolState}
    (h : lastFundedPool pools p = some w) {mint : Pubkey} {price : EdgePrice}
    (hside : sideOf w mint = some price) : pricesOf pools (p, mint) = some price := by
  induction pools using List.reverseRecOn with
  | nil => cases h
  | append_singleton pools pool ih =>
      rw [lastFundedPool_concat] at h
      rw [pricesOf_concat_eq]
      split at h
      · rename_i hpool
        obtain rfl := Option.some.inj h
        rw [if_pos hpool, hside, Option.some_or]
      · rename_i hpool
        rw [if_neg hpool]
        exact ih h

/-- The price of the A side's mint. -/
theorem sideOf_A {pool : PoolState} (h : pool.tokenAMint ≠ pool.tokenBMint) :
    sideOf pool pool.tokenAMint = some (sideA pool) := by
  rw [sideOf, if_neg h, if_pos rfl]

/-- The price of the B side's mint. -/
theorem sideOf_B (pool : PoolState) : sideOf pool pool.tokenBMint = some (sideB pool) := by
  rw [sideOf, if_pos rfl]

/-! ## Deliveries and pools -/

theorem FundedDelivery.taken {us : List AccountUpdate}
    (hord : Ordered AccountUpdate.pubkey slotOf us) {u : AccountUpdate} {pool : PoolState}
    {r : UInt64 × UInt64} (h : FundedDelivery F us u pool r) :
    decodedPool F (cacheAfter us, u) = some (populateReserves (cacheAfter us) pool) ∧
      reserves (populateReserves (cacheAfter us) pool) = r := by
  constructor
  · rw [decodedPool, h.decoded, Option.map_some]
  · rw [populate_reserves hord, h.balances]

theorem fundedDelivery_of_decoded {us : List AccountUpdate}
    (hord : Ordered AccountUpdate.pubkey slotOf us) {u : AccountUpdate} {v : PoolState}
    (h : decodedPool F (cacheAfter us, u) = some v) (hfund : Funded v) :
    ∃ pool, FundedDelivery F us u pool (reserves v) ∧ pool.tokenAMint = v.tokenAMint ∧
      pool.tokenBMint = v.tokenBMint := by
  obtain ⟨pool, hdecoded, rfl⟩ := Option.map_eq_some_iff.mp h
  exact ⟨pool, ⟨hdecoded, (populate_reserves hord pool).symm, hfund.1, hfund.2⟩, rfl, rfl⟩

/-- **THE LAST FUNDED DELIVERY** is the last funded pool the strategy decoded. -/
theorem LastFunded.pool {p : Pubkey} {us : List AccountUpdate} {w : PoolState}
    {r : UInt64 × UInt64} (h : LastFunded F p us w r)
    (hord : Ordered AccountUpdate.pubkey slotOf us) :
    ∃ v, lastFundedPool (poolsOf F us) p = some v ∧ v.tokenAMint = w.tokenAMint ∧
      v.tokenBMint = w.tokenBMint ∧ reserves v = r := by
  induction h with
  | @here us u w r hkey hfund =>
      obtain ⟨hdecoded, hreserves⟩ := hfund.taken hord
      refine ⟨populateReserves (cacheAfter (us ++ [u])) w, ?_, rfl, rfl, hreserves⟩
      rw [poolsOf_concat, hdecoded, Option.toList_some, lastFundedPool_concat, if_pos]
      rw [← hreserves] at hfund
      exact ⟨⟨hfund.fundedA, hfund.fundedB⟩, (decodedPool_stamped hdecoded).1.trans hkey⟩
  | @later us u w r _ hno ih =>
      obtain ⟨v, hv, hA, hB, hreserves⟩ := ih (List.pairwise_append.mp hord).1
      refine ⟨v, ?_, hA, hB, hreserves⟩
      rw [poolsOf_concat]
      cases hdecoded : decodedPool F (cacheAfter (us ++ [u]), u) with
      | none =>
          rw [Option.toList_none, List.append_nil]
          exact hv
      | some other =>
          rw [Option.toList_some, lastFundedPool_concat, if_neg]
          · exact hv
          · rintro ⟨hfund, haddr⟩
            obtain ⟨pool, hdelivery, -⟩ := fundedDelivery_of_decoded hord hdecoded hfund
            exact hno ((decodedPool_stamped hdecoded).1.symm.trans haddr) _ _ hdelivery

/-- **BALANCES FOUND ARE SHOWN.** -/
theorem UpToDate.shows {us : List AccountUpdate}
    (hord : Ordered AccountUpdate.pubkey slotOf us) {pool : PoolState} {a b : UInt64}
    (h : UpToDate F us pool a b) :
    ShowsBalances (graphOf (poolsOf F us) : PriceGraph F) pool a b := by
  obtain ⟨w, hw, hA, hB⟩ := h.found
  obtain ⟨v, hv, hvA, hvB, hreserves⟩ := hw.pool hord
  obtain ⟨rfl, rfl⟩ := Prod.mk.inj hreserves
  have hmintA := hvA.trans hA
  have hmintB := hvB.trans hB
  have hdistinct : v.tokenAMint ≠ v.tokenBMint := hmintA ▸ hmintB ▸ h.distinct
  refine ⟨⟨readingOf (sideA v), ?_, rfl, rfl⟩, ⟨readingOf (sideB v), ?_, rfl, rfl⟩⟩
  · rw [readingAt_graphOf, ← hmintA, pricesOf_lastFundedPool hv (sideOf_A hdistinct)]
    rfl
  · rw [readingAt_graphOf, ← hmintB, pricesOf_lastFundedPool hv (sideOf_B v)]
    rfl

/-- A delivered pool account decodes to the pool. -/
theorem FundedPool.decoded {us : List AccountUpdate} {pool : PoolState} {a b : UInt64}
    (h : FundedPool us pool a b) : ∃ u, latest us pool.address = some u ∧
      decodeAny F u = some { pool with slot := u.slot } := by
  obtain ⟨u, hlatest, howner, hdecode⟩ := h.account
  rw [← (latest_mem hlatest).2] at hdecode
  exact ⟨u, hlatest, decodeAny_of_owner raydiumAmm_mem howner hdecode⟩

/-- No DEX owns the token accounts. -/
theorem decodeAny_token {u : AccountUpdate} (h : u.owner = SPL_TOKEN) :
    decodeAny F u = none := by
  rw [decodeAny, List.findSome?_eq_none_iff]
  intro adapter hadapter
  have hprogram : SPL_TOKEN ∉ (dexArbAdapters F).map (·.programId) := by
    change SPL_TOKEN ∉ [RAYDIUM_AMM_V4, RAYDIUM_CLMM, ORCA_WHIRLPOOL, METEORA_DLMM, PHOENIX]
    decide
  rw [decodeUpdate, if_neg]
  intro heq
  exact hprogram (List.mem_map.mpr ⟨adapter, hadapter, heq.symm.trans h⟩)

/-- **A VAULT UPDATE CHANGES NOTHING**, whatever balance it carries. -/
theorem processUpdate_token (s : DexArbStrategy F) (cache : AccountCache) {u : AccountUpdate}
    (h : u.owner = SPL_TOKEN) : s.processUpdate cache u = (s, []) := by
  rw [DexArbStrategy.processUpdate, DexArbStrategy.tryDecodePool, decodeAny_token h]

end MevVaultStreams
