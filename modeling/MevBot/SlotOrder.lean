import MevBot.ExactRates

/-! # Late updates

    `AccountCache::update` drops an update older than the entry it has;
    `update_pool` does not look at the slot at all.  So the graph shows the pool
    update that ARRIVED last, which is the newest one exactly when the updates
    of every pool arrive in slot order (`slot_law_iff`). -/

namespace MevSlotOrder

open MevMachine MevTypes MevGraph MevGraphInv MevQuotes MevRates MevExact

/-! ## Reading the graph -/

section Reading

variable {F : Type}

/-- The four fields of an edge an update writes. -/
structure Reading (F : Type) where
  weight : F
  rate : F
  liquidity : UInt64
  lastUpdatedSlot : UInt64

/-- What the edge under a key shows. -/
def readingAt (g : PriceGraph F) (key : Pubkey × Pubkey) : Option (Reading F) :=
  ((g.poolEdgeIndex key).bind (g.edges[·]?)).map fun e =>
    ⟨e.weight, e.rate, e.liquidity, e.lastUpdatedSlot⟩

variable [F64 F]

/-- What an edge that shows a price reads as. -/
def readingOf (p : EdgePrice) : Reading F := ⟨p.weight, p.rate, p.reserveOut, p.slot⟩

/-- The graph built by a sequence of pool updates. -/
def graphOf (us : List PoolState) : PriceGraph F := PriceGraph.build (us.map .updatePool)

/-- The prices a sequence of pool updates leaves. -/
def pricesOf (us : List PoolState) : QuoteTable := quotesOf (us.map .updatePool)

theorem graphOf_concat (us : List PoolState) (pool : PoolState) :
    (graphOf (us ++ [pool]) : PriceGraph F) = (graphOf us).updatePool pool := by
  rw [graphOf, List.map_append, List.map_singleton, build_concat]
  rfl

theorem pricesOf_concat (us : List PoolState) (pool : PoolState) :
    pricesOf (us ++ [pool]) = (pricesOf us).apply (.updatePool pool) := by
  rw [pricesOf, List.map_append, List.map_singleton, quotesOf_concat]
  rfl

omit [F64 F] in
theorem upsertEdge_unknown_iff (g : PriceGraph F) (e : Edge F) (key : Pubkey × Pubkey) :
    (g.upsertEdge e).poolEdgeIndex key = none ↔
      key ≠ (e.poolAddress, e.sourceMint) ∧ g.poolEdgeIndex key = none := by
  cases hkey : g.poolEdgeIndex (e.poolAddress, e.sourceMint) with
  | none =>
      rw [upsertEdge_unknown hkey]
      show Function.update g.poolEdgeIndex (e.poolAddress, e.sourceMint) (some g.edges.length) key
        = none ↔ _
      by_cases h : key = (e.poolAddress, e.sourceMint)
      · rw [h, Function.update_self]
        exact ⟨fun h => (nomatch h), fun h => absurd rfl h.1⟩
      · rw [Function.update_of_ne h]
        exact ⟨fun hnone => ⟨h, hnone⟩, fun hnone => hnone.2⟩
  | some i =>
      rw [upsertEdge_known hkey]
      refine ⟨fun hnone => ⟨?_, hnone⟩, fun hnone => hnone.2⟩
      rintro rfl
      rw [show g.poolEdgeIndex _ = none from hnone] at hkey
      cases hkey

/-- Without removals an edge exists exactly where there is a price. -/
theorem unknown_of_no_price (us : List PoolState) {key : Pubkey × Pubkey}
    (h : pricesOf us key = none) : (graphOf us : PriceGraph F).poolEdgeIndex key = none := by
  induction us using List.reverseRecOn with
  | nil => rfl
  | append_singleton us pool ih =>
      rw [pricesOf_concat] at h
      rw [graphOf_concat]
      by_cases hpool : Funded pool
      · rw [QuoteTable.apply_funded _ hpool] at h
        have hB : key ≠ (pool.address, pool.tokenBMint) := by
          rintro rfl
          rw [Function.update_self] at h
          cases h
        rw [Function.update_of_ne hB] at h
        have hA : key ≠ (pool.address, pool.tokenAMint) := by
          rintro rfl
          rw [Function.update_self] at h
          cases h
        rw [Function.update_of_ne hA] at h
        rw [updatePool_funded _ hpool, upsertEdge_unknown_iff, upsertEdge_unknown_iff]
        exact ⟨hB, hA, ih h⟩
      · rw [QuoteTable.apply, if_neg hpool] at h
        rw [updatePool_unfunded _ hpool]
        exact ih h

/-- **THE GRAPH READS AS THE TABLE.** -/
theorem readingAt_graphOf (us : List PoolState) (key : Pubkey × Pubkey) :
    readingAt (graphOf us : PriceGraph F) key = (pricesOf us key).map readingOf := by
  have hg : GraphInv (graphOf us : PriceGraph F) := GraphInv.build _
  have hrep : Represents (pricesOf us) (graphOf us : PriceGraph F) := build_represents _
  rw [readingAt]
  -- without removals the edge of a price is there, and shows it
  cases hp : pricesOf us key with
  | none =>
      rw [unknown_of_no_price us hp]
      rfl
  | some p =>
      cases hi : (graphOf us : PriceGraph F).poolEdgeIndex key with
      | none =>
          rw [hrep.unknown key hi] at hp
          cases hp
      | some i =>
          obtain ⟨e, he, hpool, hmint⟩ := (hg.index key.1 key.2 i).mp hi
          have hshown := hrep.shown i e he
          rw [hpool, hmint, show (key.1, key.2) = key from rfl, hp] at hshown
          obtain ⟨hw, hr, hl, hs⟩ := hshown
          rw [Option.bind_some, he, Option.map_some, hw, hr, hl, hs]
          rfl

end Reading

/-! ## The last update of a pool -/

/-- The price of a pool from the side of a mint. -/
def sideOf (pool : PoolState) (mint : Pubkey) : Option EdgePrice :=
  if mint = pool.tokenBMint then some (sideB pool)
  else if mint = pool.tokenAMint then some (sideA pool)
  else none

/-- The update of the pool at `p` that arrived last. -/
def lastOf (us : List PoolState) (p : Pubkey) : Option PoolState :=
  us.reverse.find? fun pool => decide (pool.address = p)

/-- Two updates of one pool name the same two mints. -/
def SameMints (a b : PoolState) : Prop :=
  a.tokenAMint = b.tokenAMint ∧ a.tokenBMint = b.tokenBMint ∨
    a.tokenAMint = b.tokenBMint ∧ a.tokenBMint = b.tokenAMint

instance (a b : PoolState) : Decidable (SameMints a b) := inferInstanceAs (Decidable (_ ∨ _))

/-- A sequence of pool updates as the graph expects them: funded, every pool with
    its own two distinct mints and without two updates of one slot. -/
structure Admissible (us : List PoolState) : Prop where
  funded : ∀ pool ∈ us, Funded pool
  distinct : ∀ pool ∈ us, pool.tokenAMint ≠ pool.tokenBMint
  mints : ∀ a ∈ us, ∀ b ∈ us, a.address = b.address → SameMints a b
  slots : us.Pairwise fun a b => a.address = b.address → a.slot ≠ b.slot

theorem Admissible.of_append {us vs : List PoolState} (h : Admissible (us ++ vs)) :
    Admissible us :=
  ⟨fun pool hp => h.funded pool (List.mem_append_left _ hp),
    fun pool hp => h.distinct pool (List.mem_append_left _ hp),
    fun a ha b hb => h.mints a (List.mem_append_left _ ha) b (List.mem_append_left _ hb),
    (List.pairwise_append.mp h.slots).1⟩

theorem Admissible.perm {us vs : List PoolState} (h : Admissible us) (hperm : us.Perm vs) :
    Admissible vs :=
  ⟨fun pool hp => h.funded pool (hperm.mem_iff.mpr hp),
    fun pool hp => h.distinct pool (hperm.mem_iff.mpr hp),
    fun a ha b hb => h.mints a (hperm.mem_iff.mpr ha) b (hperm.mem_iff.mpr hb),
    (hperm.pairwise_iff fun hab heq => (hab heq.symm).symm).mp h.slots⟩

/-- Updates of one pool and one slot are the same update. -/
theorem Admissible.eq_of_slot {us : List PoolState} (h : Admissible us) {a b : PoolState}
    (ha : a ∈ us) (hb : b ∈ us) (haddr : a.address = b.address) (hslot : a.slot = b.slot) :
    a = b := by
  by_contra hne
  have : Std.Symm fun a b : PoolState => a.address = b.address → a.slot ≠ b.slot :=
    ⟨fun _ _ hab heq => (hab heq.symm).symm⟩
  exact h.slots.forall ha hb hne haddr hslot

theorem lastOf_concat (us : List PoolState) (pool : PoolState) (p : Pubkey) :
    lastOf (us ++ [pool]) p = if pool.address = p then some pool else lastOf us p := by
  rw [lastOf, List.reverse_append]
  show List.find? _ (pool :: us.reverse) = _
  rw [List.find?_cons]
  by_cases h : pool.address = p
  · rw [if_pos h, decide_eq_true h]
  · rw [if_neg h, decide_eq_false h]
    rfl

theorem lastOf_mem {us : List PoolState} {p : Pubkey} {l : PoolState} (h : lastOf us p = some l) :
    l ∈ us ∧ l.address = p := by
  have haddr := List.find?_some (p := fun pool : PoolState => decide (pool.address = p)) h
  exact ⟨List.mem_reverse.mp (List.mem_of_find?_eq_some h), of_decide_eq_true haddr⟩

theorem exists_lastOf {us : List PoolState} {pool : PoolState} (h : pool ∈ us) :
    ∃ l, lastOf us pool.address = some l := by
  refine Option.isSome_iff_exists.mp ?_
  rw [lastOf, List.find?_isSome]
  exact ⟨pool, List.mem_reverse.mpr h, decide_eq_true rfl⟩

theorem sideOf_eq_none_iff (pool : PoolState) (mint : Pubkey) :
    sideOf pool mint = none ↔ mint ≠ pool.tokenAMint ∧ mint ≠ pool.tokenBMint := by
  rw [sideOf]
  split
  · rename_i h
    exact ⟨fun h => (nomatch h), fun hne => absurd h hne.2⟩
  · rename_i hB
    split
    · rename_i h
      exact ⟨fun h => (nomatch h), fun hne => absurd h hne.1⟩
    · rename_i hA
      exact ⟨fun _ => ⟨hA, hB⟩, fun _ => rfl⟩

/-- A mint one update of a pool does not price, no update of the pool prices. -/
theorem Admissible.sideOf_none {us : List PoolState} (h : Admissible us) {a b : PoolState}
    (ha : a ∈ us) (hb : b ∈ us) (haddr : a.address = b.address) {mint : Pubkey}
    (hside : sideOf b mint = none) : sideOf a mint = none := by
  obtain ⟨hA, hB⟩ := (sideOf_eq_none_iff b mint).mp hside
  refine (sideOf_eq_none_iff a mint).mpr ?_
  rcases h.mints a ha b hb haddr with ⟨h1, h2⟩ | ⟨h1, h2⟩
  · rw [h1, h2]
    exact ⟨hA, hB⟩
  · rw [h1, h2]
    exact ⟨hB, hA⟩

theorem sideOf_slot {pool : PoolState} {mint : Pubkey} {p : EdgePrice}
    (h : sideOf pool mint = some p) : p.slot = pool.slot := by
  rw [sideOf] at h
  split at h
  · obtain rfl := Option.some.inj h
    rfl
  · split at h
    · obtain rfl := Option.some.inj h
      rfl
    · cases h

/-- A funded update in the words of `sideOf`. -/
theorem apply_eq_sideOf (q : QuoteTable) {pool : PoolState} (hpool : Funded pool)
    (key : Pubkey × Pubkey) :
    q.apply (.updatePool pool) key =
      if pool.address = key.1 then (sideOf pool key.2).or (q key) else q key := by
  obtain ⟨p, m⟩ := key
  rw [q.apply_funded hpool]
  simp only [Function.update_apply, Prod.mk.injEq, sideOf]
  -- the B side is tested first because it was written last
  by_cases hp : pool.address = p
  · simp only [hp, true_and, if_true]
    split
    · rfl
    · split
      · rfl
      · rfl
  · simp [hp, Ne.symm hp]

/-- **THE PRICE IS THE LAST ARRIVAL'S.** -/
theorem pricesOf_eq {us : List PoolState} (h : Admissible us) (key : Pubkey × Pubkey) :
    pricesOf us key = (lastOf us key.1).bind (sideOf · key.2) := by
  induction us using List.reverseRecOn with
  | nil => rfl
  | append_singleton us pool ih =>
      have hpool : pool ∈ us ++ [pool] := List.mem_append_right _ List.mem_cons_self
      rw [pricesOf_concat, apply_eq_sideOf _ (h.funded pool hpool), ih h.of_append, lastOf_concat]
      by_cases haddr : pool.address = key.1
      · rw [if_pos haddr, if_pos haddr, Option.bind_some]
        cases hside : sideOf pool key.2 with
        | some p => rfl
        | none =>
            rw [Option.none_or]
            cases hlast : lastOf us key.1 with
            | none => rfl
            | some l =>
                obtain ⟨hl, hladdr⟩ := lastOf_mem hlast
                -- the pool never traded this mint
                exact h.sideOf_none (List.mem_append_left _ hl) hpool
                  (hladdr.trans haddr.symm) hside
      · rw [if_neg haddr, if_neg haddr]

/-! ## The law -/

/-- The updates of every pool arrive in slot order. -/
def SlotOrdered (us : List PoolState) : Prop :=
  us.Pairwise fun a b => a.address = b.address → a.slot < b.slot

instance (us : List PoolState) : Decidable (SlotOrdered us) :=
  inferInstanceAs (Decidable (us.Pairwise _))

/-- No update of its pool has a higher slot. -/
def Newest (us : List PoolState) (pool : PoolState) : Prop :=
  pool ∈ us ∧ ∀ other ∈ us, other.address = pool.address → other.slot ≤ pool.slot

variable {F : Type} [F64 F]

/-- Every pool reads as its newest update, from either side. -/
def ShowsNewest (us : List PoolState) (g : PriceGraph F) : Prop :=
  ∀ pool, Newest us pool → ∀ mint p, sideOf pool mint = some p →
    readingAt g (pool.address, mint) = some (readingOf p)

variable (F) in
/-- One more update never takes an edge back to an older slot. -/
def NeverDecreases (us : List PoolState) : Prop :=
  ∀ pre pool post, us = pre ++ pool :: post → ∀ key (r r' : Reading F),
    readingAt (graphOf pre) key = some r → readingAt (graphOf (pre ++ [pool])) key = some r' →
    r.lastUpdatedSlot ≤ r'.lastUpdatedSlot

variable (F) in
/-- The law for a sequence of updates and a reordering of it. -/
structure SlotLaw (us vs : List PoolState) : Prop where
  agree : ∀ key, readingAt (graphOf us : PriceGraph F) key = readingAt (graphOf vs) key
  newest : ShowsNewest us (graphOf us : PriceGraph F)
  newest_reordered : ShowsNewest us (graphOf vs : PriceGraph F)
  monotone : NeverDecreases F us
  monotone_reordered : NeverDecreases F vs

/-- In slot order the last update of a pool is its newest. -/
theorem SlotOrdered.last_newest {us : List PoolState} (h : SlotOrdered us) {p : Pubkey}
    {l : PoolState} (hl : lastOf us p = some l) : Newest us l := by
  obtain ⟨hmem, haddr⟩ := lastOf_mem hl
  refine ⟨hmem, ?_⟩
  induction us using List.reverseRecOn with
  | nil => cases hl
  | append_singleton us pool ih =>
      obtain ⟨hus, -, hcross⟩ := List.pairwise_append.mp h
      rw [lastOf_concat] at hl
      intro other hother hoaddr
      by_cases hp : pool.address = p
      · rw [if_pos hp] at hl
        obtain rfl := Option.some.inj hl
        rcases List.mem_append.mp hother with ho | ho
        · exact UInt64.le_of_lt (hcross other ho pool List.mem_cons_self hoaddr)
        · rw [List.mem_singleton.mp ho]
          exact UInt64.le_refl _
      · rw [if_neg hp] at hl
        rcases List.mem_append.mp hother with ho | ho
        · exact ih hus hl (lastOf_mem hl).1 other ho hoaddr
        · rw [List.mem_singleton.mp ho] at hoaddr
          exact absurd (hoaddr.trans haddr) hp

/-- The newest update of a pool is one update. -/
theorem newest_unique {us : List PoolState} (h : Admissible us) {a b : PoolState}
    (ha : Newest us a) (hb : Newest us b) (haddr : a.address = b.address) : a = b :=
  h.eq_of_slot ha.1 hb.1 haddr
    (UInt64.le_antisymm (hb.2 a ha.1 haddr) (ha.2 b hb.1 haddr.symm))

theorem readingAt_eq {us : List PoolState} (h : Admissible us) (key : Pubkey × Pubkey) :
    readingAt (graphOf us : PriceGraph F) key =
      ((lastOf us key.1).bind (sideOf · key.2)).map readingOf := by
  rw [readingAt_graphOf, pricesOf_eq h]

/-- In slot order the graph shows the newest update of every pool. -/
theorem SlotOrdered.shows_newest {us vs : List PoolState} (h : Admissible us)
    (hperm : us.Perm vs) (hord : SlotOrdered vs) : ShowsNewest us (graphOf vs : PriceGraph F) := by
  intro pool hnew mint p hside
  obtain ⟨l, hl⟩ := exists_lastOf (hperm.mem_iff.mp hnew.1)
  have hlnew := hord.last_newest hl
  have hlnew' : Newest us l :=
    ⟨hperm.mem_iff.mpr hlnew.1, fun other ho => hlnew.2 other (hperm.mem_iff.mp ho)⟩
  obtain rfl := newest_unique h hlnew' hnew (lastOf_mem hl).2
  rw [readingAt_eq (h.perm hperm), hl, Option.bind_some, hside]
  rfl

/-- In slot order no edge goes back. -/
theorem SlotOrdered.neverDecreases {us : List PoolState} (h : Admissible us)
    (hord : SlotOrdered us) : NeverDecreases F us := by
  intro pre pool post hsplit key r r' hr hr'
  rw [hsplit] at h hord
  rw [show pre ++ pool :: post = (pre ++ [pool]) ++ post by simp] at h hord
  have hadm := h.of_append
  have hord := (List.pairwise_append.mp hord).1
  rw [readingAt_eq hadm.of_append, Option.map_eq_some_iff] at hr
  rw [readingAt_eq hadm, Option.map_eq_some_iff] at hr'
  obtain ⟨p, hp, rfl⟩ := hr
  obtain ⟨p', hp', rfl⟩ := hr'
  obtain ⟨l, hl, hside⟩ := Option.bind_eq_some_iff.mp hp
  obtain ⟨l', hl', hside'⟩ := Option.bind_eq_some_iff.mp hp'
  show p.slot ≤ p'.slot
  rw [sideOf_slot hside, sideOf_slot hside']
  -- the edge shows the last arrival before and after, and the later one is newest
  refine (SlotOrdered.last_newest hord hl').2 l ?_ ?_
  · exact List.mem_append_left _ (lastOf_mem hl).1
  · exact (lastOf_mem hl).2.trans (lastOf_mem hl').2.symm

/-- A sequence that takes no edge back arrives in slot order. -/
theorem slotOrdered_of_neverDecreases {us : List PoolState} (h : Admissible us)
    (hmono : NeverDecreases F us) : SlotOrdered us := by
  induction us using List.reverseRecOn with
  | nil => exact List.Pairwise.nil
  | append_singleton us pool ih =>
      have hpool : pool ∈ us ++ [pool] := List.mem_append_right _ List.mem_cons_self
      have hord : SlotOrdered us := by
        refine ih h.of_append ?_
        intro pre x post hsplit
        exact hmono pre x (post ++ [pool]) (by rw [hsplit]; simp)
      refine List.pairwise_append.mpr ⟨hord, List.pairwise_singleton _ _, ?_⟩
      intro a ha b hb haddr
      rw [List.mem_singleton.mp hb] at haddr ⊢
      -- the pool's last update before `pool` has a slot between the two
      obtain ⟨l, hl⟩ := exists_lastOf ha
      obtain ⟨hlmem, hladdr⟩ := lastOf_mem hl
      have hal : a.slot ≤ l.slot := (hord.last_newest hl).2 a ha hladdr.symm
      have hlpool : l.slot ≤ pool.slot := by
        have hp' : sideOf pool pool.tokenAMint = some (sideA pool) := by
          rw [sideOf, if_neg (h.distinct pool hpool), if_pos rfl]
        have hside : ∃ p, sideOf l pool.tokenAMint = some p := by
          refine Option.ne_none_iff_exists'.mp ?_
          intro hnone
          have hnone' := h.sideOf_none hpool (List.mem_append_left _ hlmem)
            (hladdr.trans haddr).symm hnone
          rw [hp'] at hnone'
          cases hnone'
        obtain ⟨p, hp⟩ := hside
        have hr : readingAt (graphOf us : PriceGraph F) (pool.address, pool.tokenAMint) =
            some (readingOf p) := by
          rw [readingAt_eq h.of_append, ← haddr, hl, Option.bind_some, hp]
          rfl
        have hr' : readingAt (graphOf (us ++ [pool]) : PriceGraph F)
            (pool.address, pool.tokenAMint) = some (readingOf (sideA pool)) := by
          rw [readingAt_eq h, lastOf_concat, if_pos rfl, Option.bind_some, hp']
          rfl
        have hle := hmono us pool [] rfl _ _ _ hr hr'
        rw [← sideOf_slot hp]
        exact hle
      have hne : a.slot ≠ pool.slot :=
        (List.pairwise_append.mp h.slots).2.2 a ha pool List.mem_cons_self haddr
      exact UInt64.lt_of_le_of_ne (UInt64.le_trans hal hlpool) hne

/-- **THE SLOT LAW HOLDS EXACTLY IN SLOT ORDER**: the two graphs agree on the
    newest prices and never went back exactly when both sequences deliver the
    updates of every pool by increasing slot. -/
theorem slot_law_iff (us vs : List PoolState) (hus : Admissible us) (hperm : us.Perm vs) :
    SlotLaw F us vs ↔ SlotOrdered us ∧ SlotOrdered vs := by
  constructor
  · intro h
    exact ⟨slotOrdered_of_neverDecreases hus h.monotone,
      slotOrdered_of_neverDecreases (hus.perm hperm) h.monotone_reordered⟩
  · rintro ⟨hord, hord'⟩
    have hvs := hus.perm hperm
    have hnew := SlotOrdered.shows_newest (F := F) hus (List.Perm.refl us) hord
    have hnew' := SlotOrdered.shows_newest (F := F) hus hperm hord'
    refine ⟨?_, hnew, hnew', hord.neverDecreases hus, hord'.neverDecreases hvs⟩
    intro key
    rw [readingAt_eq hus, readingAt_eq hvs]
    -- both sequences end on the newest update of the pool, or have none
    cases hl : lastOf us key.1 with
    | none =>
        cases hl' : lastOf vs key.1 with
        | none => rfl
        | some l' =>
            obtain ⟨hmem, haddr⟩ := lastOf_mem hl'
            obtain ⟨l, hl''⟩ := exists_lastOf (hperm.mem_iff.mpr hmem)
            rw [haddr, hl] at hl''
            cases hl''
    | some l =>
        obtain ⟨l', hl'⟩ := exists_lastOf (hperm.mem_iff.mp (lastOf_mem hl).1)
        rw [(lastOf_mem hl).2] at hl'
        have hn := hord.last_newest hl
        have hn' := hord'.last_newest hl'
        have hn'' : Newest us l' :=
          ⟨hperm.mem_iff.mpr hn'.1, fun other ho => hn'.2 other (hperm.mem_iff.mp ho)⟩
        have heq := newest_unique hus hn hn'' ((lastOf_mem hl).2.trans (lastOf_mem hl').2.symm)
        rw [hl', heq]

/-- Two pools, the first updated twice; the reordering keeps each pool's slots in
    order. -/
theorem slot_law_interleaved :
    SlotLaw ExactF64
      [samplePool 101 1 2 1000 2000 1, samplePool 102 1 2 1000 1000 5,
        samplePool 101 1 2 1000 3000 2]
      [samplePool 102 1 2 1000 1000 5, samplePool 101 1 2 1000 2000 1,
        samplePool 101 1 2 1000 3000 2] :=
  (slot_law_iff _ _ ⟨by decide, by decide, by decide, by decide⟩ (List.Perm.swap _ _ _)).mpr
    ⟨by decide, by decide⟩

/-- A replayed update: the pool at slot 2, then the one at slot 1 again. -/
def replayed : List PoolState :=
  [samplePool 101 1 2 1000 3000 2, samplePool 101 1 2 1000 2000 1]

/-- **A REPLAY OVERWRITES THE NEWER PRICE.** -/
theorem replay_breaks_slot_law :
    Admissible replayed ∧
      (readingAt (graphOf replayed : PriceGraph ExactF64) (keyOf 101, keyOf 1)).map
        (·.lastUpdatedSlot) = some 1 ∧
      ¬SlotLaw ExactF64 replayed.reverse replayed := by
  have hadm : Admissible replayed := ⟨by decide, by decide, by decide, by decide⟩
  refine ⟨hadm, by decide, ?_⟩
  intro h
  exact absurd (slotOrdered_of_neverDecreases hadm h.monotone_reordered) (by decide)

end MevSlotOrder
