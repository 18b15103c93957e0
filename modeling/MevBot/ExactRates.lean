import Mathlib.Algebra.BigOperators.Group.List.Basic
import MevBot.DfsRefinement
import MevBot.ExactReal
import MevBot.QuoteTable

/-! # Edge weights as exact reals

    Over `ExactF64`, with every fee below one, the weight of an edge on offer is
    `-ln` of its effective rate `(out / in) * (1 - fee)`, and an edge taken off
    offer weighs `∞`.  So the finite weights of a path add up to `-ln` of the
    product of its effective rates. -/

namespace MevRates

open MevMachine MevTypes MevGraph MevGraphInv MevQuotes MevSearch MevDfs MevExact ExactF64

/-! ## Exact prices -/

/-- A history whose pools charge fees below one. -/
def FeesBelowOne (ops : List GraphOp) : Prop :=
  ∀ pool, GraphOp.updatePool pool ∈ ops → pool.feeNumerator < pool.feeDenominator

/-- A price with reserves on both sides and a fee below one. -/
structure Sound (p : EdgePrice) : Prop where
  reserveIn : p.reserveIn ≠ 0
  reserveOut : p.reserveOut ≠ 0
  fee : p.feeNumerator < p.feeDenominator

/-- The spot rate of a price. -/
noncomputable def spotRate (p : EdgePrice) : ℝ := p.reserveOut.toNat / p.reserveIn.toNat

/-- The part of an input the pool swaps. -/
noncomputable def keptShare (p : EdgePrice) : ℝ :=
  1 - p.feeNumerator.toNat / p.feeDenominator.toNat

/-- The effective rate of a price: spot rate after fee. -/
noncomputable def effectiveRate (p : EdgePrice) : ℝ := spotRate p * keptShare p

/-- A word other than zero is positive. -/
theorem toNat_pos {x : UInt64} (hx : x ≠ 0) : (0 : ℝ) < x.toNat := by
  have hne : x.toNat ≠ 0 := fun h => hx (UInt64.toNat_inj.mp h)
  exact_mod_cast Nat.pos_of_ne_zero hne

/-- Both reserves are positive. -/
theorem Sound.spotRate_pos {p : EdgePrice} (h : Sound p) : 0 < spotRate p :=
  div_pos (toNat_pos h.reserveOut) (toNat_pos h.reserveIn)

/-- A fee below one has a denominator. -/
theorem Sound.feeDenominator_pos {p : EdgePrice} (h : Sound p) :
    (0 : ℝ) < p.feeDenominator.toNat := by
  have hlt : p.feeNumerator.toNat < p.feeDenominator.toNat := UInt64.lt_iff_toNat_lt.mp h.fee
  exact_mod_cast Nat.zero_lt_of_lt hlt

/-- A fee below one keeps a share. -/
theorem Sound.keptShare_pos {p : EdgePrice} (h : Sound p) : 0 < keptShare p := by
  have hlt : (p.feeNumerator.toNat : ℝ) < p.feeDenominator.toNat :=
    Nat.cast_lt.mpr (UInt64.lt_iff_toNat_lt.mp h.fee)
  exact sub_pos.mpr ((div_lt_one h.feeDenominator_pos).mpr hlt)

/-- No fee adds to the amount. -/
theorem keptShare_le_one (p : EdgePrice) : keptShare p ≤ 1 :=
  sub_le_self 1 (div_nonneg (Nat.cast_nonneg _) (Nat.cast_nonneg _))

/-- A sound price has a positive rate. -/
theorem Sound.effectiveRate_pos {p : EdgePrice} (h : Sound p) : 0 < effectiveRate p :=
  mul_pos h.spotRate_pos h.keptShare_pos

/-- A price with a reserve has a finite rate. -/
theorem rate_eq {p : EdgePrice} (h : p.reserveIn ≠ 0) : p.rate = fin (spotRate p) := by
  rw [EdgePrice.rate, ofNat_eq, ofNat_eq, fin_div _ (ne_of_gt (toNat_pos h))]
  rfl

/-- **THE WEIGHT IS `-ln` OF THE EFFECTIVE RATE.** -/
theorem Sound.weight_eq {p : EdgePrice} (h : Sound p) :
    p.weight = fin (-Real.log (effectiveRate p)) := by
  rw [EdgePrice.weight, rate_eq h.reserveIn, ofNat_eq, ofNat_eq,
    fin_div _ (ne_of_gt h.feeDenominator_pos), fin_one, fin_sub, fin_mul]
  exact congrArg Neg.neg (ln_pos h.effectiveRate_pos)

/-- Only a sound price weighs a real number. -/
theorem sound_of_weight {p : EdgePrice} (hin : p.reserveIn ≠ 0) (hout : p.reserveOut ≠ 0)
    {w : ℝ} (h : p.weight = fin w) : Sound p := by
  have hspot : 0 < spotRate p := div_pos (toNat_pos hout) (toNat_pos hin)
  -- outside in: the logarithm, the product, the kept share and the fee are all finite
  rw [EdgePrice.weight, rate_eq hin, fin_one, ofNat_eq, ofNat_eq] at h
  obtain ⟨l, hl⟩ := of_neg_fin h
  obtain ⟨r, hr, hpos⟩ := of_ln_fin hl
  obtain ⟨k, hk⟩ := of_mul_fin hr
  obtain ⟨f, hf⟩ := of_sub_fin hk
  obtain ⟨hden, rfl⟩ := of_div_fin hf
  rw [hf, fin_sub, fin_mul] at hr
  rw [← ExactF64.fin.inj hr] at hpos
  have hkept := sub_pos.mp ((mul_pos_iff_of_pos_left hspot).mp hpos)
  have hlt := (div_lt_one (lt_of_le_of_ne (Nat.cast_nonneg _) hden.symm)).mp hkept
  exact ⟨hin, hout, UInt64.lt_iff_toNat_lt.mpr (Nat.cast_lt.mp hlt)⟩

/-! ## The prices of a history -/

/-- Every price on offer is sound. -/
theorem quotesOf_sound {ops : List GraphOp} (hops : FeesBelowOne ops) {key : Pubkey × Pubkey}
    {p : EdgePrice} (hp : quotesOf ops key = some p) : Sound p := by
  induction ops using List.reverseRecOn with
  | nil => cases hp
  | append_singleton ops op ih =>
      have hops' : FeesBelowOne ops := fun pool hpool => hops pool (List.mem_append_left _ hpool)
      rw [quotesOf_concat] at hp
      cases op with
      | updatePool pool =>
          have hfee := hops pool (List.mem_append_right _ List.mem_cons_self)
          -- a price is old, or one side of a funded pool whose fee is below one
          rcases (quotesOf ops).apply_updatePool_cases pool key with
            heq | ⟨hfund, -, ⟨heq, -⟩ | ⟨heq, -⟩⟩
          · exact ih hops' (heq.symm.trans hp)
          · obtain rfl := Option.some.inj (heq.symm.trans hp)
            exact ⟨hfund.1, hfund.2, hfee⟩
          · obtain rfl := Option.some.inj (heq.symm.trans hp)
            exact ⟨hfund.2, hfund.1, hfee⟩
      | removePool addr =>
          change (if key.1 = addr then none else quotesOf ops key) = some p at hp
          split at hp
          · cases hp
          · exact ih hops' hp

/-- The price an edge's key has on offer. -/
def priceOf (ops : List GraphOp) (e : Edge ExactF64) : Option EdgePrice :=
  quotesOf ops (e.poolAddress, e.sourceMint)

/-- The effective rate an edge's key has on offer. -/
noncomputable def edgeRate (ops : List GraphOp) (e : Edge ExactF64) : ℝ :=
  (priceOf ops e).elim 0 effectiveRate

/-- A usable edge: finite weight, nonzero rate and liquidity. -/
structure Usable (e : Edge ExactF64) : Prop where
  weight : ∃ w, e.weight = fin w
  rate : e.rate ≠ fin 0
  liquidity : e.liquidity ≠ 0

/-- The search's filter lets a usable edge pass. -/
theorem Usable.dfsUsable {e : Edge ExactF64} (h : Usable e) : Edge.dfsUsable e = true := by
  obtain ⟨w, hw⟩ := h.weight
  have hinf : F64.isInfinite e.weight = false := by
    rw [hw]
    rfl
  have hrate : F64.eq e.rate (0.0 : ExactF64) = false := by
    rw [fin_zero]
    have hne := h.rate
    cases hr : e.rate with
    | fin r =>
        rw [hr] at hne
        exact decide_eq_false fun h0 => hne (congrArg fin h0)
    | posInf => rfl
    | negInf => rfl
    | nan => rfl
  rw [Edge.dfsUsable, hinf, hrate, beq_eq_false_iff_ne.mpr h.liquidity]
  rfl

/-- An edge of a reachable graph is on offer at a sound price, or carries the
    marks of a removed pool. -/
theorem edge_cases {ops : List GraphOp} (hops : FeesBelowOne ops) {i : Nat} {e : Edge ExactF64}
    (he : (PriceGraph.build ops).edges[i]? = some e) :
    (∃ p, priceOf ops e = some p ∧ Sound p ∧ e.weight = fin (-Real.log (effectiveRate p)) ∧
        e.rate = fin (spotRate p) ∧ e.liquidity = p.reserveOut) ∨
      (priceOf ops e = none ∧ e.weight = posInf ∧ e.rate = fin 0 ∧ e.liquidity = 0) := by
  have hshown := (build_represents ops).shown i e he
  cases hp : priceOf ops e with
  | some p =>
      rw [show quotesOf ops (e.poolAddress, e.sourceMint) = some p from hp] at hshown
      obtain ⟨hw, hr, hl, -⟩ := hshown
      have hsound := quotesOf_sound hops hp
      exact Or.inl
        ⟨p, rfl, hsound, hw.trans hsound.weight_eq, hr.trans (rate_eq hsound.reserveIn), hl⟩
  | none =>
      rw [show quotesOf ops (e.poolAddress, e.sourceMint) = none from hp] at hshown
      obtain ⟨hw, hr, hl⟩ := hshown
      exact Or.inr ⟨rfl, hw, hr.trans fin_zero, hl⟩

/-- On reachable graphs three readings of "usable" agree: the fields, the filter
    of the search, and being on offer. -/
theorem usable_iff {ops : List GraphOp} (hops : FeesBelowOne ops) {i : Nat} {e : Edge ExactF64}
    (he : (PriceGraph.build ops).edges[i]? = some e) :
    (Usable e ↔ ∃ p, priceOf ops e = some p) ∧
      (Edge.dfsUsable e = true ↔ ∃ p, priceOf ops e = some p) ∧
      (Edge.bfUsable e = true ↔ ∃ p, priceOf ops e = some p) := by
  rcases edge_cases hops he with ⟨p, hp, hsound, hw, hr, hl⟩ | ⟨hp, hw, hr, hl⟩
  · have hrate : F64.eq e.rate (0.0 : ExactF64) = false := by
      rw [hr, fin_zero]
      exact decide_eq_false (ne_of_gt hsound.spotRate_pos)
    have hinf : F64.isInfinite e.weight = false := by
      rw [hw]
      rfl
    have hliq : e.liquidity ≠ 0 := by
      rw [hl]
      exact hsound.reserveOut
    refine ⟨⟨fun _ => ⟨p, hp⟩, fun _ => ⟨⟨_, hw⟩, ?_, hliq⟩⟩, ⟨fun _ => ⟨p, hp⟩, fun _ => ?_⟩,
      ⟨fun _ => ⟨p, hp⟩, fun _ => ?_⟩⟩
    · rw [hr]
      intro h
      exact ne_of_gt hsound.spotRate_pos (ExactF64.fin.inj h)
    · rw [Edge.dfsUsable, hinf, hrate, beq_eq_false_iff_ne.mpr hliq]
      rfl
    · rw [Edge.bfUsable, hinf, hrate]
      rfl
  · have hnone : ¬∃ p, priceOf ops e = some p := by
      rintro ⟨p, hp'⟩
      rw [hp] at hp'
      cases hp'
    refine ⟨⟨fun h => absurd hl h.liquidity, fun h => absurd h hnone⟩, ⟨fun h => ?_,
      fun h => absurd h hnone⟩, ⟨fun h => ?_, fun h => absurd h hnone⟩⟩
    · rw [Edge.dfsUsable, hw] at h
      cases h
    · rw [Edge.bfUsable, hw] at h
      cases h

/-- A usable edge weighs `-ln` of its effective rate. -/
theorem weight_of_usable {ops : List GraphOp} (hops : FeesBelowOne ops) {i : Nat}
    {e : Edge ExactF64} (he : (PriceGraph.build ops).edges[i]? = some e)
    (hu : ∃ p, priceOf ops e = some p) :
    e.weight = fin (-Real.log (edgeRate ops e)) ∧ 0 < edgeRate ops e := by
  obtain ⟨p, hp⟩ := hu
  rcases edge_cases hops he with ⟨p', hp', hsound, hw, -⟩ | ⟨hnone, -⟩
  · rw [edgeRate, hp']
    exact ⟨hw, hsound.effectiveRate_pos⟩
  · rw [hnone] at hp
    cases hp

/-! ## Sums of weights -/

/-- The edges of a path are weighed by `-ln` of positive rates, wherever the rates are
    read off. -/
def WeighedBy (rate : Arrow ExactF64 → ℝ) (path : List (Arrow ExactF64)) : Prop :=
  ∀ a ∈ path, a.2.weight = fin (-Real.log (rate a)) ∧ 0 < rate a

section WeighedBy

variable {rate : Arrow ExactF64 → ℝ} {path : List (Arrow ExactF64)}

/-- The product of positive rates. -/
theorem WeighedBy.prod_pos (h : WeighedBy rate path) : 0 < (path.map rate).prod := by
  refine List.prod_pos ?_
  intro x hx
  obtain ⟨a, ha, rfl⟩ := List.mem_map.mp hx
  exact (h a ha).2

/-- The weights of a path add up to `-ln` of the product of its rates. -/
theorem WeighedBy.weightSum_eq (h : WeighedBy rate path) :
    weightSum path = fin (-Real.log (path.map rate).prod) := by
  induction path using List.reverseRecOn with
  | nil =>
      rw [List.map_nil, List.prod_nil, Real.log_one, neg_zero]
      exact fin_zero
  | append_singleton path a ih =>
      have hpath : WeighedBy rate path := fun b hb => h b (List.mem_append_left _ hb)
      obtain ⟨hw, hpos⟩ := h a (List.mem_append_right _ List.mem_cons_self)
      rw [weightSum_concat, ih hpath, hw, fin_add, List.map_append, List.prod_append,
        List.map_singleton, List.prod_singleton,
        Real.log_mul (ne_of_gt hpath.prod_pos) (ne_of_gt hpos), neg_add]

/-- **`exp` OF MINUS THE SUM IS THE PRODUCT OF THE RATES.** -/
theorem WeighedBy.exp_weightSum (h : WeighedBy rate path) :
    F64.exp (-(weightSum path)) = fin (path.map rate).prod := by
  rw [h.weightSum_eq, fin_neg, neg_neg, exp_fin, Real.exp_log h.prod_pos]

/-- The search's threshold test reads off the product. -/
theorem WeighedBy.profitable_iff (h : WeighedBy rate path) (m : ℝ) :
    profitable (fin m) path = true ↔ 1 + m < (path.map rate).prod := by
  rw [profitable, h.exp_weightSum, fin_one, fin_add, lt_fin]

end WeighedBy

/-- The product of the effective rates of a path. -/
noncomputable def pathRate (ops : List GraphOp) (path : List (Arrow ExactF64)) : ℝ :=
  (path.map fun a => edgeRate ops a.2).prod

/-- The edges of a path are weighed by `-ln` of a positive rate. -/
def Weighed (ops : List GraphOp) (path : List (Arrow ExactF64)) : Prop :=
  ∀ a ∈ path, a.2.weight = fin (-Real.log (edgeRate ops a.2)) ∧ 0 < edgeRate ops a.2

/-- The empty product. -/
@[simp] theorem pathRate_nil (ops : List GraphOp) : pathRate ops [] = 1 := rfl

/-- The first rate, and the others. -/
@[simp] theorem pathRate_cons (ops : List GraphOp) (a : Arrow ExactF64)
    (path : List (Arrow ExactF64)) :
    pathRate ops (a :: path) = edgeRate ops a.2 * pathRate ops path := List.prod_cons

/-- The rate does not depend on the order of the edges. -/
theorem pathRate_perm (ops : List GraphOp) {path path' : List (Arrow ExactF64)}
    (h : path.Perm path') : pathRate ops path = pathRate ops path' :=
  (h.map _).prod_eq

/-- A weighed path has a positive rate. -/
theorem pathRate_pos {ops : List GraphOp} {path : List (Arrow ExactF64)}
    (h : Weighed ops path) : 0 < pathRate ops path :=
  WeighedBy.prod_pos h

/-- The weights of a path add up to minus the logarithm of its rate. -/
theorem weightSum_eq {ops : List GraphOp} {path : List (Arrow ExactF64)}
    (h : Weighed ops path) : weightSum path = fin (-Real.log (pathRate ops path)) :=
  WeighedBy.weightSum_eq h

/-- The rate a search computes is the rate of the path. -/
theorem exp_weightSum {ops : List GraphOp} {path : List (Arrow ExactF64)}
    (h : Weighed ops path) : F64.exp (-(weightSum path)) = fin (pathRate ops path) :=
  WeighedBy.exp_weightSum h

/-- The test of the search is a test of the rate. -/
theorem profitable_iff {ops : List GraphOp} {path : List (Arrow ExactF64)}
    (h : Weighed ops path) (m : ℝ) :
    profitable (fin m) path = true ↔ 1 + m < pathRate ops path :=
  WeighedBy.profitable_iff h m

/-! ## Sample histories -/

/-- A key of one repeated byte. -/
def keyOf (n : UInt8) : Pubkey := ⟨Vector.replicate 32 n⟩

/-- A Raydium pool of the mints `keyOf a` and `keyOf b`, fee 25 basis points. -/
def samplePool (address a b : UInt8) (amountA amountB slot : UInt64) : PoolState :=
  { address := keyOf address, dexType := .raydiumAmm, tokenAMint := keyOf a, tokenBMint := keyOf b,
    tokenAVault := Pubkey.default, tokenBVault := Pubkey.default,
    tokenAAmount := amountA, tokenBAmount := amountB,
    feeNumerator := 25, feeDenominator := 10000, slot }

/-- Two pools of one pair that disagree on the price by a factor of two. -/
def twoPools : List GraphOp :=
  [.updatePool (samplePool 101 1 2 1000 2000 1), .updatePool (samplePool 102 1 2 1000 1000 1)]

/-- One more update with a proper fee. -/
theorem feesBelowOne_cons {a : PoolState} (ha : a.feeNumerator < a.feeDenominator)
    {ops : List GraphOp} (hops : FeesBelowOne ops) : FeesBelowOne (.updatePool a :: ops) := by
  intro pool hpool
  rcases List.mem_cons.mp hpool with h | h
  · rwa [GraphOp.updatePool.inj h]
  · exact hops pool h

/-- Two updates with proper fees. -/
theorem feesBelowOne_pair {a b : PoolState} (ha : a.feeNumerator < a.feeDenominator)
    (hb : b.feeNumerator < b.feeDenominator) :
    FeesBelowOne [.updatePool a, .updatePool b] :=
  feesBelowOne_cons ha (feesBelowOne_cons hb fun _ h => absurd h List.not_mem_nil)

theorem twoPools_fees : FeesBelowOne twoPools := feesBelowOne_pair (by decide) (by decide)

/-- What a table of the edges of a graph shows of an edge. -/
def edgeRow (e : Edge ExactF64) : Nat × Nat × ArbHop := (e.source, e.dest, hopOf 0 e)

/-- An edge found by its row and the price on offer under its key. -/
theorem exists_edge {ops : List GraphOp}
    {rows : List (Nat × Nat × ArbHop)} (hrows : (PriceGraph.build ops).edges.map edgeRow = rows)
    {i s t : Nat} {h : ArbHop} (hi : rows[i]? = some (s, t, h)) {x : EdgePrice}
    (hx : quotesOf ops (h.poolAddress, h.inputMint) = some x) :
    ∃ e, (PriceGraph.build ops).edges[i]? = some e ∧ e.source = s ∧ e.dest = t ∧
      hopOf 0 e = h ∧ priceOf ops e = some x ∧ edgeRate ops e = effectiveRate x := by
  rw [← hrows, List.getElem?_map, Option.map_eq_some_iff] at hi
  obtain ⟨e, he, hrow⟩ := hi
  obtain ⟨hs, hrow⟩ := Prod.mk.inj hrow
  obtain ⟨hd, rfl⟩ := Prod.mk.inj hrow
  have hprice : priceOf ops e = some x := hx
  exact ⟨e, he, hs, hd, rfl, hprice, by rw [edgeRate, hprice]; rfl⟩

/-- A hop of a sample pool. -/
def sampleHop (address : UInt8) (dexType : DexType) (a b : UInt8) : ArbHop :=
  { poolAddress := keyOf address, dexType, inputMint := keyOf a, outputMint := keyOf b,
    edgeIndex := 0 }

/-- The graph of `twoPools`: two edges each way. -/
theorem twoPools_edges :
    (PriceGraph.build twoPools).edges.map edgeRow =
      [(0, 1, sampleHop 101 .raydiumAmm 1 2), (1, 0, sampleHop 101 .raydiumAmm 2 1),
        (0, 1, sampleHop 102 .raydiumAmm 1 2), (1, 0, sampleHop 102 .raydiumAmm 2 1)] := by
  decide

end MevRates
