import MevBot.ExactRates

/-! # The two edges of a pool

    `update_pool` is to leave a pool with one usable edge in each direction.
    The key of an edge holds the pool and the input mint only, and an update of
    a known key writes the price but neither destination nor DEX type: what was
    first decoded at the address decides those.  `poolShown_iff` says from which
    graphs an update shows its pool, `settled_shown` that it does wherever all
    that was decoded at the address is the same pair on the same DEX. -/

namespace MevPoolEdges

open MevMachine MevTypes MevGraph MevGraphInv MevQuotes MevSearch MevExact MevRates

variable {F : Type}

/-! ## One upsert -/

/-- The edges of one key: a pool and an input mint. -/
def HasKey (p m : Pubkey) (e : Edge F) : Prop := e.poolAddress = p ∧ e.sourceMint = m

/-- An edge as an upsert of `c` leaves it: the price of `c` laid over the edge known under
    the key, or `c` itself. -/
inductive LaidOver (g : PriceGraph F) (c : Edge F) : Edge F → Prop where
  | known {k : Nat} {old : Edge F} (hold : g.edges[k]? = some old)
      (hkey : HasKey c.poolAddress c.sourceMint old) :
      LaidOver g c (old.reprice c.weight c.rate c.liquidity c.lastUpdatedSlot)
  | fresh (hnone : ∀ (k : Nat) (old : Edge F), g.edges[k]? = some old →
      ¬HasKey c.poolAddress c.sourceMint old) : LaidOver g c c

/-- The edge under the key after an upsert. -/
theorem upsertEdge_self {g : PriceGraph F} (hg : GraphInv g) (c : Edge F) :
    ∃ (k : Nat) (x : Edge F), (g.upsertEdge c).edges[k]? = some x ∧ LaidOver g c x := by
  cases hkey : g.poolEdgeIndex (c.poolAddress, c.sourceMint) with
  | none =>
      rw [upsertEdge_unknown hkey]
      exact ⟨g.edges.length, c, List.getElem?_concat_length,
        LaidOver.fresh fun k old hold => hg.not_under hkey hold⟩
  | some k =>
      obtain ⟨old, hold, hpool, hmint⟩ := (hg.index _ _ k).mp hkey
      rw [upsertEdge_known hkey]
      refine ⟨k, _, (getElem?_modify_reprice _ _ _ _ _ _ _ _).mpr ⟨old, hold, ?_⟩,
        LaidOver.known hold ⟨hpool, hmint⟩⟩
      rw [if_pos rfl]

/-- The edges under other keys stay as they are. -/
theorem upsertEdge_other {g : PriceGraph F} (hg : GraphInv g) {c x : Edge F} {k : Nat}
    (hne : ¬HasKey c.poolAddress c.sourceMint x) :
    (g.upsertEdge c).edges[k]? = some x ↔ g.edges[k]? = some x := by
  cases hkey : g.poolEdgeIndex (c.poolAddress, c.sourceMint) with
  | none =>
      rw [upsertEdge_unknown hkey]
      refine (getElem?_concat_iff _ _ _ _).trans (or_iff_left ?_)
      rintro ⟨-, rfl⟩
      exact hne ⟨rfl, rfl⟩
  | some i =>
      obtain ⟨known, hknown, hpool, hmint⟩ := (hg.index _ _ i).mp hkey
      rw [upsertEdge_known hkey]
      refine (getElem?_modify_reprice _ _ _ _ _ _ _ _).trans ?_
      constructor
      · rintro ⟨old, hold, rfl⟩
        by_cases hik : i = k
        · subst hik
          rw [hknown] at hold
          obtain rfl := Option.some.inj hold
          rw [if_pos rfl] at hne
          exact absurd ⟨hpool, hmint⟩ hne
        · rw [if_neg hik]
          exact hold
      · intro hx
        have hik : i ≠ k := by
          rintro rfl
          rw [hknown] at hx
          obtain rfl := Option.some.inj hx
          exact hne ⟨hpool, hmint⟩
        refine ⟨x, hx, ?_⟩
        rw [if_neg hik]

theorem LaidOver.key {g : PriceGraph F} {c x : Edge F} (h : LaidOver g c x) :
    HasKey c.poolAddress c.sourceMint x := by
  cases h with
  | known hold hkey => exact hkey
  | fresh hnone => exact ⟨rfl, rfl⟩

/-- What an upsert looks at is the edges under the key. -/
theorem LaidOver.congr {g g' : PriceGraph F} {c x : Edge F}
    (hedges : ∀ (k : Nat) (e : Edge F), HasKey c.poolAddress c.sourceMint e →
      (g.edges[k]? = some e ↔ g'.edges[k]? = some e)) (h : LaidOver g c x) : LaidOver g' c x := by
  cases h with
  | known hold hkey => exact LaidOver.known ((hedges _ _ hkey).mp hold) hkey
  | fresh hnone =>
      exact LaidOver.fresh fun k old hold hkey => hnone k old ((hedges k old hkey).mpr hold) hkey

/-- The price is the candidate's in any case. -/
theorem LaidOver.shows [F64 F] {g : PriceGraph F} {c x : Edge F} {price : EdgePrice}
    (h : LaidOver g c x) (hc : Shows (some price) c) : Shows (some price) x := by
  cases h with
  | known hold hkey => exact hc
  | fresh hnone => exact hc

/-- Destination and DEX type are those of the edge known before. -/
theorem LaidOver.agrees_iff {g : PriceGraph F} (hg : GraphInv g) {c x : Edge F}
    (h : LaidOver g c x) :
    (x.destMint = c.destMint ∧ x.dexType = c.dexType) ↔
      ∀ (k : Nat) (old : Edge F), g.edges[k]? = some old → HasKey c.poolAddress c.sourceMint old →
        old.destMint = c.destMint ∧ old.dexType = c.dexType := by
  cases h with
  | known hold hkey =>
      constructor
      · intro hx k' old' hold' hkey'
        obtain rfl := hg.key_inj hold hold' (hkey.1.trans hkey'.1.symm) (hkey.2.trans hkey'.2.symm)
        rw [hold] at hold'
        obtain rfl := Option.some.inj hold'
        exact hx
      · intro hall
        obtain ⟨hdest, hdex⟩ := hall _ _ hold hkey
        exact ⟨hdest, hdex⟩
  | fresh hnone =>
      exact iff_of_true ⟨rfl, rfl⟩ fun k old hold hkey => absurd hkey (hnone k old hold)

/-! ## An update -/

variable [F64 F]

/-- The two edges an update leaves under the keys of its pool, and that it touches no
    others. -/
structure Updated (g : PriceGraph F) (pool : PoolState) (i j : Nat) (ea eb : Edge F) : Prop where
  forward : (g.updatePool pool).edges[i]? = some ea
  back : (g.updatePool pool).edges[j]? = some eb
  forwardLaid : LaidOver g (edgeAB g pool) ea
  backLaid : LaidOver g (edgeBA g pool) eb
  untouched : ∀ (k : Nat) (e : Edge F), ¬HasKey pool.address pool.tokenAMint e →
    ¬HasKey pool.address pool.tokenBMint e →
      ((g.updatePool pool).edges[k]? = some e ↔ g.edges[k]? = some e)

theorem updatePool_untouched {g : PriceGraph F} (hg : GraphInv g) {pool : PoolState}
    {k : Nat} {e : Edge F} (hA : ¬HasKey pool.address pool.tokenAMint e)
    (hB : ¬HasKey pool.address pool.tokenBMint e) :
    (g.updatePool pool).edges[k]? = some e ↔ g.edges[k]? = some e := by
  by_cases hpool : Funded pool
  · obtain ⟨hreg, ha, hb⟩ := hg.registerMints pool.tokenAMint pool.tokenBMint
    have hAB := hreg.upsertEdge (e := edgeAB g pool) ha hb
    rw [updatePool_funded g hpool, upsertEdge_other hAB hB, upsertEdge_other hreg hA]
    rfl
  · rw [updatePool_unfunded g hpool]

/-- **AN UPDATE OF TWO DISTINCT MINTS** lays its two prices over what was known. -/
theorem updatePool_updated {g : PriceGraph F} (hg : GraphInv g) {pool : PoolState}
    (hpool : Funded pool) (hne : pool.tokenAMint ≠ pool.tokenBMint) :
    ∃ i j ea eb, Updated g pool i j ea eb := by
  obtain ⟨hreg, ha, hb⟩ := hg.registerMints pool.tokenAMint pool.tokenBMint
  have hAB := hreg.upsertEdge (e := edgeAB g pool) ha hb
  obtain ⟨i, ea, hea, hlaidA⟩ := upsertEdge_self hreg (edgeAB g pool)
  obtain ⟨j, eb, heb, hlaidB⟩ := upsertEdge_self hAB (edgeBA g pool)
  have hnotB : ¬HasKey pool.address pool.tokenBMint ea :=
    fun h => hne (hlaidA.key.2.symm.trans h.2)
  refine ⟨i, j, ea, eb, ?_, ?_, ?_, ?_, fun k e hA hB => updatePool_untouched hg hA hB⟩
  · rw [updatePool_funded g hpool]
    exact (upsertEdge_other hAB hnotB).mpr hea
  · rw [updatePool_funded g hpool]
    exact heb
  · -- registering the mints touches no edge
    have hsame : ∀ (k : Nat) (e : Edge F), HasKey pool.address pool.tokenAMint e →
        ((registerMints g pool.tokenAMint pool.tokenBMint).edges[k]? = some e ↔
          g.edges[k]? = some e) := fun _ _ _ => Iff.rfl
    exact hlaidA.congr hsame
  · -- the first upsert did not touch the key of the second
    refine hlaidB.congr fun k e hkey => upsertEdge_other hreg fun hA => hne ?_
    exact hA.2.symm.trans hkey.2

/-! ## When a pool is shown -/

/-- A usable edge from `a` to `b` at a price of the pool. -/
structure ShowsSide (g : PriceGraph F) (pool : PoolState) (a b : Pubkey) (price : EdgePrice)
    (e : Edge F) : Prop where
  address : e.poolAddress = pool.address
  dexType : e.dexType = pool.dexType
  mints : e.sourceMint = a ∧ e.destMint = b
  tokens : g.tokens.getMint e.source = some a ∧ g.tokens.getMint e.dest = some b
  price : Shows (some price) e
  usable : Edge.dfsUsable e = true

/-- After the update the usable edges of the pool are two, one in each direction, and the
    edges of all other pools are as before. -/
structure PoolShown (g : PriceGraph F) (pool : PoolState) : Prop where
  sides : ∃ (i j : Nat) (ea eb : Edge F), i ≠ j ∧
    (g.updatePool pool).edges[i]? = some ea ∧ (g.updatePool pool).edges[j]? = some eb ∧
    ShowsSide (g.updatePool pool) pool pool.tokenAMint pool.tokenBMint (sideA pool) ea ∧
    ShowsSide (g.updatePool pool) pool pool.tokenBMint pool.tokenAMint (sideB pool) eb ∧
    ∀ (k : Nat) (e : Edge F), (g.updatePool pool).edges[k]? = some e →
      e.poolAddress = pool.address → Edge.dfsUsable e = true → k = i ∨ k = j
  others : ∀ (k : Nat) (e : Edge F), e.poolAddress ≠ pool.address →
    ((g.updatePool pool).edges[k]? = some e ↔ g.edges[k]? = some e)

/-- A price that the filter of the search lets through. -/
def Passes (F : Type) [F64 F] (price : EdgePrice) : Prop :=
  F64.isInfinite (price.weight : F) = false ∧ F64.eq (price.rate : F) 0.0 = false

/-- The graph is ready for the pool: its mints differ, its prices pass the filter, what is
    known under its keys has its destination and DEX, and no other edge at its address is
    usable. -/
structure PoolReady (g : PriceGraph F) (pool : PoolState) : Prop where
  distinct : pool.tokenAMint ≠ pool.tokenBMint
  passes : Passes F (sideA pool) ∧ Passes F (sideB pool)
  forward : ∀ (k : Nat) (e : Edge F), g.edges[k]? = some e →
    HasKey pool.address pool.tokenAMint e →
      e.destMint = pool.tokenBMint ∧ e.dexType = pool.dexType
  back : ∀ (k : Nat) (e : Edge F), g.edges[k]? = some e →
    HasKey pool.address pool.tokenBMint e →
      e.destMint = pool.tokenAMint ∧ e.dexType = pool.dexType
  rest : ∀ (k : Nat) (e : Edge F), g.edges[k]? = some e → e.poolAddress = pool.address →
    e.sourceMint ≠ pool.tokenAMint → e.sourceMint ≠ pool.tokenBMint → Edge.dfsUsable e = false

theorem usable_iff_passes {price : EdgePrice} (hliq : price.reserveOut ≠ 0) {e : Edge F}
    (h : Shows (some price) e) : Edge.dfsUsable e = true ↔ Passes F price := by
  obtain ⟨hweight, hrate, hliquidity, -⟩ := h
  have hne : (e.liquidity == 0) = false := by
    rw [hliquidity]
    exact beq_eq_false_iff_ne.mpr hliq
  rw [Edge.dfsUsable, hweight, hrate, hne, Passes]
  simp

/-- An edge under a key of the pool shows its side if destination, DEX and price agree. -/
theorem showsSide_of_key {g : PriceGraph F} {pool : PoolState} (hg : GraphInv (g.updatePool pool))
    {a b : Pubkey} {price : EdgePrice} {k : Nat} {e : Edge F}
    (he : (g.updatePool pool).edges[k]? = some e) (hkey : HasKey pool.address a e)
    (hagrees : e.destMint = b ∧ e.dexType = pool.dexType) (hprice : Shows (some price) e)
    (hliq : price.reserveOut ≠ 0) (hpasses : Passes F price) :
    ShowsSide (g.updatePool pool) pool a b price e := by
  refine ⟨hkey.1, hagrees.2, ⟨hkey.2, hagrees.1⟩, ⟨?_, ?_⟩, hprice, ?_⟩
  · exact (hg.source k e he).trans (congrArg some hkey.2)
  · exact (hg.dest k e he).trans (congrArg some hagrees.1)
  · exact (usable_iff_passes hliq hprice).mpr hpasses

/-- The update shows the pool only if the graph is ready for it. -/
theorem PoolShown.ready {g : PriceGraph F} (hg : GraphInv g) {pool : PoolState}
    (hpool : Funded pool) (h : PoolShown g pool) : PoolReady g pool := by
  have hg' := hg.updatePool pool
  obtain ⟨⟨i, j, ea, eb, hij, hea, heb, hsideA, hsideB, honly⟩, -⟩ := h
  have hne : pool.tokenAMint ≠ pool.tokenBMint := by
    intro heq
    refine hij (hg'.key_inj hea heb (hsideA.address.trans hsideB.address.symm) ?_)
    rw [hsideA.mints.1, hsideB.mints.1, heq]
  obtain ⟨i', j', xa, xb, hup⟩ := updatePool_updated hg hpool hne
  have hkeyA := hup.forwardLaid.key
  have hkeyB := hup.backLaid.key
  -- the edges shown are the ones laid over the keys
  obtain rfl := hg'.key_inj hea hup.forward (hsideA.address.trans hkeyA.1.symm)
    (hsideA.mints.1.trans hkeyA.2.symm)
  obtain rfl := hg'.key_inj heb hup.back (hsideB.address.trans hkeyB.1.symm)
    (hsideB.mints.1.trans hkeyB.2.symm)
  obtain rfl := Option.some.inj (hea.symm.trans hup.forward)
  obtain rfl := Option.some.inj (heb.symm.trans hup.back)
  refine ⟨hne, ⟨?_, ?_⟩, ?_, ?_, ?_⟩
  · exact (usable_iff_passes hpool.2 hsideA.price).mp hsideA.usable
  · exact (usable_iff_passes hpool.1 hsideB.price).mp hsideB.usable
  · exact (hup.forwardLaid.agrees_iff hg).mp ⟨hsideA.mints.2, hsideA.dexType⟩
  · exact (hup.backLaid.agrees_iff hg).mp ⟨hsideB.mints.2, hsideB.dexType⟩
  · intro k e he haddress hA hB
    by_contra husable
    have hstill := (hup.untouched k e (fun h => hA h.2) (fun h => hB h.2)).mpr he
    rcases honly k e hstill haddress (eq_true_of_ne_false husable) with rfl | rfl
    · obtain rfl := Option.some.inj (hstill.symm.trans hea)
      exact hA hsideA.mints.1
    · obtain rfl := Option.some.inj (hstill.symm.trans heb)
      exact hB hsideB.mints.1

/-- On a graph that is ready the update shows the pool. -/
theorem PoolReady.shown {g : PriceGraph F} (hg : GraphInv g) {pool : PoolState}
    (hpool : Funded pool) (h : PoolReady g pool) : PoolShown g pool := by
  have hg' := hg.updatePool pool
  obtain ⟨i, j, ea, eb, hup⟩ := updatePool_updated hg hpool h.distinct
  have hkeyA := hup.forwardLaid.key
  have hkeyB := hup.backLaid.key
  refine ⟨⟨i, j, ea, eb, ?_, hup.forward, hup.back, ?_, ?_, ?_⟩, ?_⟩
  · rintro rfl
    obtain rfl := Option.some.inj (hup.forward.symm.trans hup.back)
    exact h.distinct (hkeyA.2.symm.trans hkeyB.2)
  · exact showsSide_of_key hg' hup.forward hkeyA ((hup.forwardLaid.agrees_iff hg).mpr h.forward)
      (hup.forwardLaid.shows ⟨rfl, rfl, rfl, rfl⟩) hpool.2 h.passes.1
  · exact showsSide_of_key hg' hup.back hkeyB ((hup.backLaid.agrees_iff hg).mpr h.back)
      (hup.backLaid.shows ⟨rfl, rfl, rfl, rfl⟩) hpool.1 h.passes.2
  · intro k e he haddress husable
    by_cases hmintA : e.sourceMint = pool.tokenAMint
    · exact Or.inl (hg'.key_inj he hup.forward (haddress.trans hkeyA.1.symm)
        (hmintA.trans hkeyA.2.symm))
    · by_cases hmintB : e.sourceMint = pool.tokenBMint
      · exact Or.inr (hg'.key_inj he hup.back (haddress.trans hkeyB.1.symm)
          (hmintB.trans hkeyB.2.symm))
      · have hold := (hup.untouched k e (fun h => hmintA h.2) (fun h => hmintB h.2)).mp he
        rw [h.rest k e hold haddress hmintA hmintB] at husable
        cases husable
  · intro k e haddress
    exact hup.untouched k e (fun h => haddress h.1) (fun h => haddress h.1)

/-- **WHEN AN UPDATE SHOWS ITS POOL**, from any well-formed graph. -/
theorem shown_iff_ready {g : PriceGraph F} (hg : GraphInv g) {pool : PoolState}
    (hpool : Funded pool) : PoolShown g pool ↔ PoolReady g pool :=
  ⟨PoolShown.ready hg hpool, PoolReady.shown hg hpool⟩

/-! ## Histories of one pair an address -/

/-- All that was decoded at the pool's address is its pair, on its DEX. -/
def Settled (ops : List GraphOp) (pool : PoolState) : Prop :=
  ∀ q, GraphOp.updatePool q ∈ ops → Funded q → q.address = pool.address →
    q.dexType = pool.dexType ∧
      (q.tokenAMint = pool.tokenAMint ∧ q.tokenBMint = pool.tokenBMint ∨
        q.tokenAMint = pool.tokenBMint ∧ q.tokenBMint = pool.tokenAMint)

/-- Every edge at a settled address is one of the pool's. -/
theorem Settled.edges {ops : List GraphOp} {pool : PoolState} (h : Settled ops pool) :
    ∀ (k : Nat) (e : Edge F), (PriceGraph.build ops : PriceGraph F).edges[k]? = some e →
      e.poolAddress = pool.address → e.dexType = pool.dexType ∧
        (e.sourceMint = pool.tokenAMint ∧ e.destMint = pool.tokenBMint ∨
          e.sourceMint = pool.tokenBMint ∧ e.destMint = pool.tokenAMint) := by
  refine build_edges_forall ops (fun _ _ _ _ _ h => h) (fun _ h => h) ?_
  intro q hmem hfund g
  refine ⟨fun haddress => ?_, fun haddress => ?_⟩
  · exact h q hmem hfund haddress
  · obtain ⟨hdex, hsame | hswapped⟩ := h q hmem hfund haddress
    · exact ⟨hdex, Or.inr hsame.symm⟩
    · exact ⟨hdex, Or.inl hswapped.symm⟩

/-- **A SETTLED ADDRESS** is ready for its pool, whatever was removed in between. -/
theorem Settled.ready {ops : List GraphOp} {pool : PoolState} (h : Settled ops pool)
    (hne : pool.tokenAMint ≠ pool.tokenBMint)
    (hpasses : Passes F (sideA pool) ∧ Passes F (sideB pool)) :
    PoolReady (PriceGraph.build ops : PriceGraph F) pool := by
  refine ⟨hne, hpasses, ?_, ?_, ?_⟩
  · rintro k e he ⟨haddress, hmint⟩
    obtain ⟨hdex, hmints | hmints⟩ := h.edges k e he haddress
    · exact ⟨hmints.2, hdex⟩
    · exact absurd (hmint.symm.trans hmints.1) hne
  · rintro k e he ⟨haddress, hmint⟩
    obtain ⟨hdex, hmints | hmints⟩ := h.edges k e he haddress
    · exact absurd (hmints.1.symm.trans hmint) hne
    · exact ⟨hmints.2, hdex⟩
  · intro k e he haddress hA hB
    obtain ⟨-, hmints | hmints⟩ := h.edges k e he haddress
    · exact absurd hmints.1 hA
    · exact absurd hmints.1 hB

/-- A price with a fee below one passes the filter. -/
theorem passes_of_sound {price : EdgePrice} (h : Sound price) : Passes ExactF64 price := by
  rw [Passes, h.weight_eq, rate_eq h.reserveIn, ExactF64.fin_zero]
  exact ⟨rfl, decide_eq_false (ne_of_gt h.spotRate_pos)⟩

/-- A fee of exactly the whole does not. -/
theorem not_passes_of_whole {price : EdgePrice} (hin : price.reserveIn ≠ 0)
    (hden : price.feeDenominator ≠ 0) (hfee : price.feeNumerator = price.feeDenominator) :
    ¬Passes ExactF64 price := by
  have hne : (price.feeDenominator.toNat : ℝ) ≠ 0 := ne_of_gt (toNat_pos hden)
  have hweight : (price.weight : ExactF64) = .posInf := by
    rw [EdgePrice.weight, rate_eq hin, hfee, ExactF64.ofNat_eq, ExactF64.fin_div _ hne,
      ExactF64.fin_one, ExactF64.fin_sub, ExactF64.fin_mul, div_self hne, sub_self, mul_zero]
    show -(ExactF64.ln (.fin 0)) = ExactF64.posInf
    rw [ExactF64.ln, if_neg (lt_irrefl 0), if_pos rfl]
    rfl
  rintro ⟨hinf, -⟩
  rw [hweight] at hinf
  cases hinf

/-- **WHEN AN UPDATE SHOWS ITS POOL**, on every graph a history of updates and removals
    builds: just when the graph is ready for it, as it is after every history that has had
    this pair alone at the address; and never when its fee is the whole. -/
theorem poolShown_iff (ops : List GraphOp) {pool : PoolState} (hpool : Funded pool) :
    (PoolShown (PriceGraph.build ops : PriceGraph F) pool ↔
      PoolReady (PriceGraph.build ops : PriceGraph F) pool) ∧
    (Settled ops pool → pool.tokenAMint ≠ pool.tokenBMint →
      Passes F (sideA pool) ∧ Passes F (sideB pool) →
        PoolShown (PriceGraph.build ops : PriceGraph F) pool) ∧
    (pool.feeDenominator ≠ 0 → pool.feeNumerator = pool.feeDenominator →
      ¬PoolShown (PriceGraph.build ops : PriceGraph ExactF64) pool) := by
  refine ⟨shown_iff_ready (GraphInv.build ops) hpool, ?_, ?_⟩
  · intro hsettled hne hpasses
    exact (shown_iff_ready (GraphInv.build ops) hpool).mpr (hsettled.ready hne hpasses)
  · intro hden hfee hshown
    have hready := (shown_iff_ready (GraphInv.build ops) hpool).mp hshown
    exact not_passes_of_whole hpool.1 hden hfee hready.passes.1

/-- A pool that was updated before. -/
theorem samplePool_shown :
    PoolShown (PriceGraph.build [.updatePool (samplePool 101 1 2 1000 2000 1)] :
      PriceGraph ExactF64) (samplePool 101 1 2 1500 1400 2) := by
  refine (poolShown_iff [.updatePool (samplePool 101 1 2 1000 2000 1)] (by decide)).2.1
    ?_ (by decide) ⟨passes_of_sound ?_, passes_of_sound ?_⟩
  · intro q hmem hfund haddress
    obtain rfl := GraphOp.updatePool.inj (List.mem_singleton.mp hmem)
    exact ⟨rfl, Or.inl ⟨rfl, rfl⟩⟩
  · exact ⟨by decide, by decide, by decide⟩
  · exact ⟨by decide, by decide, by decide⟩

/-- **A NEW COUNTER-MINT IS NOT SHOWN**: the edge from token 1 still leads to token 2 when
    the address is decoded with token 3. -/
theorem counterMint_kept :
    ((PriceGraph.build [.updatePool (samplePool 101 1 2 1000 2000 1)] :
        PriceGraph ExactF64).updatePool (samplePool 101 1 3 1000 2000 2)).edges.map edgeRow =
      [(0, 1, sampleHop 101 .raydiumAmm 1 2), (1, 0, sampleHop 101 .raydiumAmm 2 1),
        (2, 0, sampleHop 101 .raydiumAmm 3 1)] ∧
    ¬∀ (ops : List GraphOp) (pool : PoolState), Funded pool →
      PoolShown (PriceGraph.build ops : PriceGraph ExactF64) pool := by
  refine ⟨by decide, ?_⟩
  intro hall
  have hfund : Funded (samplePool 101 1 3 1000 2000 2) := by decide
  have hready := (shown_iff_ready
    (GraphInv.build [.updatePool (samplePool 101 1 2 1000 2000 1)]) hfund).mp (hall _ _ hfund)
  have hdest := (hready.forward 0 _ rfl ⟨rfl, rfl⟩).1
  revert hdest
  decide

end MevPoolEdges
