import Mathlib.Data.List.Defs
import Mathlib.Logic.Function.Basic
import MevBot.Types

/-! # The account cache

    `AccountCache` keeps the newest delivered state of every account.  It is
    slot-gated: an update older than the cached entry is rejected, an update
    of the same slot replaces it. -/

namespace MevCache

open MevTypes

/-- Cached account entry with slot-based versioning. -/
structure CachedAccount where
  data : List UInt8
  lamports : UInt64
  owner : Pubkey
  slot : UInt64
deriving DecidableEq, Repr

/-- The concurrent map, as the function it looks up. -/
structure AccountCache where
  inner : Pubkey → Option CachedAccount

/-- `AccountCache::new`. -/
def AccountCache.new : AccountCache := ⟨fun _ => none⟩

/-- The entry an update carries. -/
def entryOf (update : AccountUpdate) : CachedAccount :=
  { data := update.data, lamports := update.lamports,
    owner := update.owner, slot := update.slot }

/-- `AccountCache::update`: applies only if the new slot is not below the
    cached one. -/
def AccountCache.update (cache : AccountCache) (update : AccountUpdate) : AccountCache :=
  let entry := match cache.inner update.pubkey with
    | some existing => if update.slot ≥ existing.slot then entryOf update else existing
    | none => entryOf update
  ⟨Function.update cache.inner update.pubkey (some entry)⟩

/-- `AccountCache::get`. -/
def AccountCache.get (cache : AccountCache) (pubkey : Pubkey) : Option CachedAccount :=
  cache.inner pubkey

/-- `AccountCache::get_data`. -/
def AccountCache.getData (cache : AccountCache) (pubkey : Pubkey) : Option (List UInt8) :=
  (cache.inner pubkey).map (·.data)

/-! ## Prefetching -/

/-- An account as `getMultipleAccounts` returns it. -/
structure RpcAccount where
  data : List UInt8
  lamports : UInt64
  owner : Pubkey
deriving DecidableEq, Repr

/-- One account of a batch: cached at slot zero and counted, if it exists. -/
def prefetchOne (state : AccountCache × Nat) (answer : Pubkey × Option RpcAccount) :
    AccountCache × Nat :=
  match answer with
  | (pubkey, some account) =>
      (state.1.update { pubkey := pubkey, slot := 0, data := account.data,
                        lamports := account.lamports, owner := account.owner },
        state.2 + 1)
  | (_, none) => state

/-- `prefetch_accounts`: batches of a hundred keys; a failed batch is skipped.  An
    answer has one entry for each key of its batch. -/
def prefetchAccounts (getMultipleAccounts : List Pubkey → Option (List (Option RpcAccount)))
    (cache : AccountCache) (pubkeys : List Pubkey) : AccountCache × Nat :=
  (pubkeys.toChunks 100).foldl
    (fun state chunk =>
      match getMultipleAccounts chunk with
      | some accounts => (chunk.zip accounts).foldl prefetchOne state
      | none => state)
    (cache, 0)

end MevCache
