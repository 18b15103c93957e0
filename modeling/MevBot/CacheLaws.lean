import Mathlib.Logic.Relation
import MevBot.TwoReceivers

/-! # Many writers of one cache

    The cache is written by the stream's updater, by a replay and by the
    prefetch at startup, each in its own order and all at once.  An update is
    atomic for its key, so a run of the writers is one order of their updates.
    Whatever the order, the cache holds for each key the newest update
    applied, the last of those with the greatest slot; and where no two slots
    of a key are equal, the order does not matter (`cache_newest`). -/

namespace MevCacheLaws

open MevTypes MevCache MevReceivers StampedStore

/-! ## The writers -/

/-- The cache, the updates each writer has yet to apply, and those applied so far. -/
structure Writers where
  cache : AccountCache
  pending : List (List AccountUpdate)
  applied : List AccountUpdate

/-- Before any writer has applied anything. -/
def Writers.start (programs : List (List AccountUpdate)) : Writers :=
  ⟨AccountCache.new, programs, []⟩

/-- One writer applies its next update. -/
inductive Apply : Writers → Writers → Prop where
  | update (cache : AccountCache) (before behind : List (List AccountUpdate))
      (u : AccountUpdate) (rest applied : List AccountUpdate) :
      Apply ⟨cache, before ++ (u :: rest) :: behind, applied⟩
        ⟨cache.update u, before ++ rest :: behind, applied ++ [u]⟩

/-- What the writers can reach from the start, in any interleaving. -/
def Reaches (programs : List (List AccountUpdate)) : Writers → Prop :=
  Relation.ReflTransGen Apply (Writers.start programs)

/-- No writer has anything left to apply. -/
def Writers.Finished (s : Writers) : Prop := ∀ updates ∈ s.pending, updates = []

/-- What holds after every step: the cache is that of the updates applied, and these
    and the pending ones are all there are. -/
structure Consistent (programs : List (List AccountUpdate)) (s : Writers) : Prop where
  cache : s.cache = cacheAfter s.applied
  updates : (s.applied ++ s.pending.flatten).Perm programs.flatten

/-- At the start nothing has been applied. -/
theorem Consistent.start (programs : List (List AccountUpdate)) :
    Consistent programs (Writers.start programs) :=
  ⟨rfl, List.Perm.refl _⟩

/-- One writer applies its next update. -/
theorem Consistent.apply {programs : List (List AccountUpdate)} {s s' : Writers}
    (h : Consistent programs s) (hstep : Apply s s') : Consistent programs s' := by
  cases hstep with
  | update cache before behind u rest applied =>
      have hcache : cache = cacheAfter applied := h.cache
      refine ⟨?_, List.Perm.trans ?_ h.updates⟩
      · show cache.update u = cacheAfter (applied ++ [u])
        rw [cacheAfter_concat, hcache]
      · -- the update moves from the front of its writer to the end of those applied
        simp only [List.flatten_append, List.flatten_cons, List.append_assoc, List.cons_append,
          List.nil_append]
        refine List.Perm.append_left applied ?_
        exact List.perm_middle.symm

/-- So it is in every state reached. -/
theorem Reaches.consistent {programs : List (List AccountUpdate)} {s : Writers}
    (h : Reaches programs s) : Consistent programs s := by
  induction h with
  | refl => exact Consistent.start programs
  | tail _ hstep ih => exact ih.apply hstep

/-- In the end every update has been applied once. -/
theorem Consistent.finished {programs : List (List AccountUpdate)} {s : Writers}
    (h : Consistent programs s) (hfinished : s.Finished) : s.applied.Perm programs.flatten := by
  have hempty : s.pending.flatten = [] := List.flatten_eq_nil_iff.mpr hfinished
  have hall := h.updates
  rw [hempty, List.append_nil] at hall
  exact hall

/-! ## What the cache holds -/

/-- No two updates of a key have the same slot. -/
def DistinctSlots (us : List AccountUpdate) : Prop :=
  us.Pairwise fun u v => u.pubkey = v.pubkey → u.slot ≠ v.slot

theorem DistinctSlots.distinct {us : List AccountUpdate} (h : DistinctSlots us) :
    Distinct AccountUpdate.pubkey slotOf us := by
  refine h.imp ?_
  intro u v hne hkey hslot
  exact hne hkey (UInt64.toNat_inj.mp hslot)

/-- The entry of a key is that of its newest update. -/
theorem cacheAfter_get_iff (us : List AccountUpdate) (k : Pubkey) (entry : CachedAccount) :
    (cacheAfter us).get k = some entry ↔
      ∃ u, Newest AccountUpdate.pubkey slotOf us k u ∧ entry = entryOf u := by
  rw [AccountCache.get, cacheAfter_inner, Option.map_eq_some_iff]
  constructor
  · rintro ⟨u, hu, rfl⟩
    exact ⟨u, newest_of_after hu, rfl⟩
  · rintro ⟨u, hu, rfl⟩
    exact ⟨u, after_of_newest hu, rfl⟩

/-- A key without updates has no entry, and only such a key. -/
theorem cacheAfter_get_none_iff (us : List AccountUpdate) (k : Pubkey) :
    (cacheAfter us).get k = none ↔ ∀ u ∈ us, u.pubkey ≠ k := by
  rw [AccountCache.get, cacheAfter_inner, Option.map_eq_none_iff]
  exact after_none_iff

/-- The slot of an entry never falls. -/
theorem cacheAfter_slot_mono (us vs : List AccountUpdate) {k : Pubkey} {entry : CachedAccount}
    (h : (cacheAfter us).get k = some entry) :
    ∃ entry', (cacheAfter (us ++ vs)).get k = some entry' ∧ entry.slot ≤ entry'.slot := by
  rw [AccountCache.get, cacheAfter_inner, Option.map_eq_some_iff] at h
  obtain ⟨u, hu, rfl⟩ := h
  obtain ⟨u', hu', hle⟩ := after_append hu vs
  refine ⟨entryOf u', ?_, UInt64.le_iff_toNat_le.mpr hle⟩
  rw [AccountCache.get, cacheAfter_inner, hu']
  rfl

/-- Any order of updates with distinct slots gives the same cache. -/
theorem cacheAfter_perm {us vs : List AccountUpdate} (h : DistinctSlots us)
    (hperm : us.Perm vs) : cacheAfter us = cacheAfter vs := by
  have hinner : (cacheAfter us).inner = (cacheAfter vs).inner := by
    funext k
    rw [cacheAfter_inner, cacheAfter_inner, after_perm h.distinct hperm]
  exact congrArg AccountCache.mk hinner

/-! ## The prefetch -/

/-- The updates of a batch of answers, all of slot zero. -/
def answerUpdates (answers : List (Pubkey × Option RpcAccount)) : List AccountUpdate :=
  answers.filterMap fun answer =>
    answer.2.map fun account =>
      { pubkey := answer.1, slot := 0, data := account.data, lamports := account.lamports,
        owner := account.owner }

/-- The updates `prefetch_accounts` applies. -/
def prefetchUpdates (getMultipleAccounts : List Pubkey → Option (List (Option RpcAccount)))
    (pubkeys : List Pubkey) : List AccountUpdate :=
  (pubkeys.toChunks 100).flatMap fun chunk =>
    match getMultipleAccounts chunk with
    | some accounts => answerUpdates (chunk.zip accounts)
    | none => []

theorem prefetchOne_fold (answers : List (Pubkey × Option RpcAccount))
    (state : AccountCache × Nat) :
    (answers.foldl prefetchOne state).1 =
      (answerUpdates answers).foldl AccountCache.update state.1 := by
  induction answers generalizing state with
  | nil => rfl
  | cons answer answers ih =>
      obtain ⟨pubkey, maybeAccount⟩ := answer
      rw [List.foldl_cons, ih]
      cases maybeAccount with
      | none => rfl
      | some account => rfl

/-- **THE PREFETCH IS ONE MORE WRITER**: it applies updates of slot zero. -/
theorem prefetchAccounts_cache
    (getMultipleAccounts : List Pubkey → Option (List (Option RpcAccount)))
    (cache : AccountCache) (pubkeys : List Pubkey) :
    (prefetchAccounts getMultipleAccounts cache pubkeys).1 =
      (prefetchUpdates getMultipleAccounts pubkeys).foldl AccountCache.update cache := by
  rw [prefetchAccounts, prefetchUpdates]
  obtain ⟨state, hstate⟩ : ∃ state : AccountCache × Nat, state = (cache, 0) := ⟨_, rfl⟩
  have hcache : cache = state.1 := by rw [hstate]
  rw [← hstate, hcache]
  generalize pubkeys.toChunks 100 = chunks
  clear hstate hcache
  induction chunks generalizing state with
  | nil => rfl
  | cons chunk chunks ih =>
      rw [List.foldl_cons, ih, List.flatMap_cons, List.foldl_append]
      congr 1
      cases getMultipleAccounts chunk with
      | none => rfl
      | some accounts => exact prefetchOne_fold _ _

theorem prefetchUpdates_slot
    (getMultipleAccounts : List Pubkey → Option (List (Option RpcAccount)))
    (pubkeys : List Pubkey) : ∀ u ∈ prefetchUpdates getMultipleAccounts pubkeys, u.slot = 0 := by
  intro u hu
  obtain ⟨chunk, -, hchunk⟩ := List.mem_flatMap.mp hu
  split at hchunk
  · obtain ⟨answer, -, hanswer⟩ := List.mem_filterMap.mp hchunk
    obtain ⟨account, -, rfl⟩ := Option.map_eq_some_iff.mp hanswer
    rfl
  · cases hchunk

/-! ## Every run of the writers -/

/-- **THE CACHE HOLDS THE NEWEST UPDATE OF EVERY KEY**, in every state of every run of any
    number of writers: of the updates applied, the last of those with the greatest slot,
    whole; a key without updates is absent, and no step lowers a slot.  Where no two
    slots of a key are equal, any two finished runs leave the same cache, as do any two
    orders of the updates, and a prefetch may come before the others or behind them. -/
theorem cache_newest (programs : List (List AccountUpdate)) :
    (∀ s, Reaches programs s →
      (∀ k entry, s.cache.get k = some entry ↔
        ∃ u, Newest AccountUpdate.pubkey slotOf s.applied k u ∧ entry = entryOf u) ∧
      (∀ k, s.cache.get k = none ↔ ∀ u ∈ s.applied, u.pubkey ≠ k) ∧
      ∀ s', Apply s s' → ∀ k entry, s.cache.get k = some entry →
        ∃ entry', s'.cache.get k = some entry' ∧ entry.slot ≤ entry'.slot) ∧
    (DistinctSlots programs.flatten → ∀ s s', Reaches programs s → Reaches programs s' →
      s.Finished → s'.Finished → s.cache = s'.cache) ∧
    (∀ us vs, us.Perm vs → DistinctSlots us → cacheAfter us = cacheAfter vs) ∧
    ∀ getMultipleAccounts pubkeys,
      (∀ u ∈ prefetchUpdates getMultipleAccounts pubkeys, u.slot = 0) ∧
      (DistinctSlots (programs.flatten ++ prefetchUpdates getMultipleAccounts pubkeys) →
        (prefetchAccounts getMultipleAccounts (cacheAfter programs.flatten) pubkeys).1 =
          programs.flatten.foldl AccountCache.update
            (prefetchAccounts getMultipleAccounts AccountCache.new pubkeys).1) := by
  refine ⟨?_, ?_, fun us vs hperm hdistinct => cacheAfter_perm hdistinct hperm, ?_⟩
  · intro s hs
    have hcache := hs.consistent.cache
    refine ⟨?_, ?_, ?_⟩
    · intro k entry
      rw [hcache]
      exact cacheAfter_get_iff s.applied k entry
    · intro k
      rw [hcache]
      exact cacheAfter_get_none_iff s.applied k
    · intro s' hstep k entry hentry
      rw [hcache] at hentry
      have hcache' := (hs.consistent.apply hstep).cache
      cases hstep with
      | update cache before behind u rest applied =>
          rw [hcache']
          exact cacheAfter_slot_mono applied [u] hentry
  · intro hdistinct s s' hs hs' hfinished hfinished'
    have hperm := hs.consistent.finished hfinished
    have hperm' := hs'.consistent.finished hfinished'
    rw [hs.consistent.cache, hs'.consistent.cache,
      ← cacheAfter_perm hdistinct hperm.symm, cacheAfter_perm hdistinct hperm'.symm]
  · intro getMultipleAccounts pubkeys
    refine ⟨prefetchUpdates_slot getMultipleAccounts pubkeys, ?_⟩
    intro hdistinct
    rw [prefetchAccounts_cache, prefetchAccounts_cache, cacheAfter, ← List.foldl_append,
      ← List.foldl_append]
    exact cacheAfter_perm hdistinct List.perm_append_comm

end MevCacheLaws
