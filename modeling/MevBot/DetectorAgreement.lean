import Mathlib.Data.List.Rotate
import MevBot.ReachableArbitrage

/-! # The two detectors agree on what they report

    Everything Bellman-Ford reports the depth-first search reports too, from any
    token of the cycle (`detectors_agree`).  A cycle of predecessor edges is
    simple; the filters of the two coincide on reachable graphs; and both
    directions of one pool in a cycle would make its rate `(1 - fee)^2`, so a
    profitable cycle never uses a pool twice (`pools_nodup`). -/

namespace MevAgreement

open MevMachine MevTypes MevGraph MevGraphInv MevQuotes MevSearch MevDfs MevRates MevExact ExactF64
open MevBellmanFord MevTracing MevReachable Relaxation Backtracking

/-! ## The two directions of a pool -/

/-- Each pool address is always updated with the same pair of distinct mints. -/
structure FixedMints (ops : List GraphOp) : Prop where
  distinct : ∀ pool, GraphOp.updatePool pool ∈ ops → pool.tokenAMint ≠ pool.tokenBMint
  fixed : ∀ pool pool', GraphOp.updatePool pool ∈ ops → GraphOp.updatePool pool' ∈ ops →
    pool.address = pool'.address →
      pool.tokenAMint = pool'.tokenAMint ∧ pool.tokenBMint = pool'.tokenBMint ∨
        pool.tokenAMint = pool'.tokenBMint ∧ pool.tokenBMint = pool'.tokenAMint

/-- The price of the opposite direction. -/
def opposite (p : EdgePrice) : EdgePrice :=
  { p with reserveIn := p.reserveOut, reserveOut := p.reserveIn }

/-- Under every price, the pool and its other mint are known, and the other mint
    is priced in the opposite direction. -/
def Mirrored (ops : List GraphOp) (q : QuoteTable) : Prop :=
  ∀ addr mint p, q (addr, mint) = some p → ∃ pool, GraphOp.updatePool pool ∈ ops ∧
    pool.address = addr ∧
      (mint = pool.tokenAMint ∧ q (addr, pool.tokenBMint) = some (opposite p) ∨
        mint = pool.tokenBMint ∧ q (addr, pool.tokenAMint) = some (opposite p))

theorem FixedMints.of_append {ops ops' : List GraphOp} (h : FixedMints (ops ++ ops')) :
    FixedMints ops :=
  ⟨fun pool hpool => h.distinct pool (List.mem_append_left _ hpool),
    fun pool pool' hpool hpool' =>
      h.fixed pool pool' (List.mem_append_left _ hpool) (List.mem_append_left _ hpool')⟩

theorem Mirrored.of_append {ops : List GraphOp} {q : QuoteTable} (h : Mirrored ops q)
    (ops' : List GraphOp) : Mirrored (ops ++ ops') q := by
  intro addr mint p hp
  obtain ⟨pool, hpool, hmint⟩ := h addr mint p hp
  exact ⟨pool, List.mem_append_left _ hpool, hmint⟩

/-- A funded update replaces both directions of its pool at once. -/
theorem Mirrored.updatePool {ops : List GraphOp} {q : QuoteTable} (h : Mirrored ops q)
    {pool : PoolState} (hmints : FixedMints (ops ++ [.updatePool pool])) (hfund : Funded pool) :
    Mirrored (ops ++ [.updatePool pool]) (q.apply (.updatePool pool)) := by
  have hpool : GraphOp.updatePool pool ∈ ops ++ [GraphOp.updatePool pool] :=
    List.mem_append_right ops List.mem_cons_self
  have hne := hmints.distinct pool hpool
  intro addr mint p hp
  -- a key of the pool was just written on both sides; any other is as before
  by_cases hkey : addr = pool.address ∧ (mint = pool.tokenAMint ∨ mint = pool.tokenBMint)
  · obtain ⟨rfl, rfl | rfl⟩ := hkey
    · rw [q.apply_sideA hfund hne] at hp
      obtain rfl := Option.some.inj hp
      exact ⟨pool, hpool, rfl, Or.inl ⟨rfl, q.apply_sideB hfund⟩⟩
    · rw [q.apply_sideB hfund] at hp
      obtain rfl := Option.some.inj hp
      exact ⟨pool, hpool, rfl, Or.inr ⟨rfl, q.apply_sideA hfund hne⟩⟩
  · rw [q.apply_other hfund hkey] at hp
    obtain ⟨old, hold, rfl, hmint⟩ := h addr mint p hp
    have hold' : GraphOp.updatePool old ∈ ops ++ [GraphOp.updatePool pool] :=
      List.mem_append_left _ hold
    -- an older update of this pool has the same two mints
    have haddr : old.address ≠ pool.address := by
      intro haddr
      refine hkey ⟨haddr, ?_⟩
      rcases hmints.fixed old pool hold' hpool haddr with ⟨ha, hb⟩ | ⟨ha, hb⟩
      · rcases hmint with ⟨rfl, -⟩ | ⟨rfl, -⟩
        · exact Or.inl ha
        · exact Or.inr hb
      · rcases hmint with ⟨rfl, -⟩ | ⟨rfl, -⟩
        · exact Or.inr ha
        · exact Or.inl hb
    refine ⟨old, hold', rfl, ?_⟩
    rwa [q.apply_other hfund fun hk => haddr hk.1, q.apply_other hfund fun hk => haddr hk.1]

/-- **EVERY PRICE HAS ITS OPPOSITE.** -/
theorem quotesOf_mirrored {ops : List GraphOp} (hmints : FixedMints ops) :
    Mirrored ops (quotesOf ops) := by
  induction ops using List.reverseRecOn with
  | nil =>
      intro addr mint p hp
      cases hp
  | append_singleton ops op ih =>
      have ih := ih hmints.of_append
      rw [quotesOf_concat]
      cases op with
      | updatePool pool =>
          by_cases hfund : Funded pool
          · exact ih.updatePool hmints hfund
          · rw [show (quotesOf ops).apply (.updatePool pool) = quotesOf ops from if_neg hfund]
            exact ih.of_append _
      | removePool removed =>
          intro addr mint p hp
          change (if addr = removed then none else quotesOf ops (addr, mint)) = some p at hp
          by_cases haddr : addr = removed
          · rw [if_pos haddr] at hp
            cases hp
          · rw [if_neg haddr] at hp
            obtain ⟨pool, hpool, rfl, hmint⟩ := ih addr mint p hp
            refine ⟨pool, List.mem_append_left _ hpool, rfl, ?_⟩
            change _ ∧ (if pool.address = removed then _ else _) = _ ∨
              _ ∧ (if pool.address = removed then _ else _) = _
            rwa [if_neg haddr, if_neg haddr]

/-- There and back through one pool costs the fee twice. -/
theorem rate_mul_opposite {p : EdgePrice} (h : Sound p) :
    effectiveRate p * effectiveRate (opposite p) ≤ 1 := by
  have hspot : spotRate p * spotRate (opposite p) = 1 := by
    show (p.reserveOut.toNat / p.reserveIn.toNat : ℝ) * (p.reserveIn.toNat / p.reserveOut.toNat) = 1
    rw [div_mul_div_cancel₀' (ne_of_gt (toNat_pos h.reserveOut)),
      div_self (ne_of_gt (toNat_pos h.reserveIn))]
  have hkept : keptShare p * keptShare p ≤ 1 :=
    mul_le_one₀ (keptShare_le_one p) (le_of_lt h.keptShare_pos) (keptShare_le_one p)
  calc effectiveRate p * effectiveRate (opposite p)
      = (spotRate p * spotRate (opposite p)) * (keptShare p * keptShare p) :=
        mul_mul_mul_comm _ _ _ _
    _ ≤ 1 := by rwa [hspot, one_mul]

/-! ## No pool twice -/

section Cycle

variable {ops : List GraphOp}

/-- Two usable edges of one pool are one edge or each other's opposites. -/
theorem same_pool_cases (hmints : FixedMints ops) {a b : Arrow ExactF64}
    (ha : (PriceGraph.build ops).edges[a.1]? = some a.2)
    (hb : (PriceGraph.build ops).edges[b.1]? = some b.2)
    (hpool : a.2.poolAddress = b.2.poolAddress) :
    a = b ∨ a.2.destMint = b.2.sourceMint ∧ b.2.destMint = a.2.sourceMint := by
  have hg : GraphInv (PriceGraph.build ops : PriceGraph ExactF64) := GraphInv.build ops
  have hsame : a.2.sourceMint = b.2.sourceMint → a = b := by
    intro hmint
    have hidx : a.1 = b.1 := hg.key_inj ha hb hpool hmint
    rw [hidx, hb] at ha
    exact Prod.ext hidx (Option.some.inj ha).symm
  obtain ⟨pool, hmem, -, hroute⟩ := build_edge_origin ops ha
  obtain ⟨pool', hmem', -, hroute'⟩ := build_edge_origin ops hb
  have haddr : pool.address = pool'.address := by
    rw [hroute.address, hroute'.address, hpool]
  -- both edges trade the same two mints, in one order or the other
  have hfixed := hmints.fixed pool pool' hmem hmem' haddr
  have hmints := hroute.mints
  have hmints' := hroute'.mints
  grind

/-- Where an edge is on offer, its destination mint is on offer at the opposite
    price. -/
theorem opposite_on_offer (hmints : FixedMints ops) {a : Arrow ExactF64}
    (ha : (PriceGraph.build ops).edges[a.1]? = some a.2) {p : EdgePrice}
    (hp : priceOf ops a.2 = some p) :
    quotesOf ops (a.2.poolAddress, a.2.destMint) = some (opposite p) := by
  obtain ⟨pool, hmem, haddr, hmint⟩ := quotesOf_mirrored hmints _ _ p hp
  obtain ⟨pool', hmem', -, hroute⟩ := build_edge_origin ops ha
  have hdistinct := hmints.distinct pool hmem
  have hfixed := hmints.fixed pool pool' hmem hmem' (haddr.trans hroute.address.symm)
  have hends := hroute.mints
  grind

/-- The two directions of a pool have rates of product at most one. -/
theorem rate_mul_le_one (hops : FeesBelowOne ops) (hmints : FixedMints ops)
    {a b : Arrow ExactF64} (ha : a ∈ usableEdges ops) (hpool : a.2.poolAddress = b.2.poolAddress)
    (hab : a.2.destMint = b.2.sourceMint) : edgeRate ops a.2 * edgeRate ops b.2 ≤ 1 := by
  obtain ⟨he, hu⟩ := mem_usableEdges.mp ha
  obtain ⟨p, hp⟩ := (usable_iff hops he).2.2.mp hu
  have hopposite : priceOf ops b.2 = some (opposite p) := by
    rw [priceOf, ← hpool, ← hab]
    exact opposite_on_offer hmints he hp
  rw [edgeRate, edgeRate, hp, hopposite]
  exact rate_mul_opposite (quotesOf_sound hops hp)

/-- The ends of a usable edge are the nodes of its mints. -/
theorem dest_eq_source (ops : List GraphOp) {a b : Arrow ExactF64}
    (ha : (PriceGraph.build ops).edges[a.1]? = some a.2)
    (hb : (PriceGraph.build ops).edges[b.1]? = some b.2) (h : a.2.destMint = b.2.sourceMint) :
    a.2.dest = b.2.source := by
  have hg : GraphInv (PriceGraph.build ops : PriceGraph ExactF64) := GraphInv.build ops
  exact (hg.registry.eq_iff_mint (hg.dest _ _ ha) (hg.source _ _ hb)).mpr h

/-- **A PROFITABLE SIMPLE CYCLE USES NO POOL TWICE.** -/
theorem pools_nodup (hops : FeesBelowOne ops) (hmints : FixedMints ops)
    {c : List (Arrow ExactF64)} (hc : SimpleCycle ops c) (hrate : 1 < pathRate ops c) :
    (c.map (·.2.poolAddress)).Nodup := by
  obtain ⟨v, hv⟩ := hc.closed
  refine (List.nodup_map_iff_inj_on (List.Nodup.of_map _ hc.simple)).mpr ?_
  intro a ha b hb hpool
  rcases same_pool_cases hmints (hc.edges a ha) (hc.edges b hb) hpool with heq | ⟨hab, hba⟩
  · exact heq
  -- there and back through one pool is the whole cycle, and loses
  · by_contra hne
    have hperm := (rated ops).perm_of_there_and_back hv hc.simple ha hb hne
      (dest_eq_source ops (hc.edges a ha) (hc.edges b hb) hab)
      (dest_eq_source ops (hc.edges b hb) (hc.edges a ha) hba)
    have hprod : pathRate ops c = edgeRate ops a.2 * edgeRate ops b.2 := by
      rw [pathRate_perm ops hperm, pathRate_cons, pathRate_cons, pathRate_nil, mul_one]
    rw [hprod] at hrate
    exact absurd (rate_mul_le_one hops hmints (hc.usable a ha) hpool hab) (not_le_of_gt hrate)

/-! ## Rotations -/

/-- A walk over listed edges is a trail of the search. -/
theorem trail_of_walk {u v : Nat} {c : List (Arrow ExactF64)} (hwalk : (rated ops).Walk u c v)
    (hout : ∀ b ∈ c, b ∈ (arrows (PriceGraph.build ops)).out b.2.source) :
    (arrows (PriceGraph.build ops)).Trail u c ∧ (arrows (PriceGraph.build ops)).endOf u c = v := by
  induction c generalizing u with
  | nil => exact ⟨trivial, hwalk⟩
  | cons b c ih =>
      obtain ⟨rfl, hwalk⟩ := hwalk
      obtain ⟨htrail, hend⟩ := ih hwalk fun d hd => hout d (List.mem_cons_of_mem b hd)
      exact ⟨⟨hout b List.mem_cons_self, htrail⟩, (Network.endOf_cons _ _ b c).trans hend⟩

/-- A simple profitable cycle is a cycle of the search from any of its tokens. -/
theorem rotation_cycle (hops : FeesBelowOne ops) (hmints : FixedMints ops)
    {p q : List (Arrow ExactF64)} {a : Arrow ExactF64} (hc : SimpleCycle ops (p ++ a :: q))
    (htwo : 2 ≤ (p ++ a :: q).length) (hrate : 1 < pathRate ops (p ++ a :: q)) :
    (arrows (PriceGraph.build ops)).Cycle a.2.source (a :: q ++ p) := by
  have hg : GraphInv (PriceGraph.build ops : PriceGraph ExactF64) := GraphInv.build ops
  obtain ⟨v, hv⟩ := hc.closed
  have hwalk := (rated ops).walk_rotate hv
  have hperm : (p ++ a :: q).Perm (a :: q ++ p) := List.perm_append_comm
  have hpools := (hperm.map _).nodup_iff.mp (pools_nodup hops hmints hc hrate)
  have hsimple := (hperm.map _).nodup_iff.mp hc.simple
  have hout : ∀ b ∈ a :: q ++ p, b ∈ (arrows (PriceGraph.build ops)).out b.2.source := by
    intro b hb
    obtain ⟨he, hu⟩ := mem_usableEdges.mp (hc.usable b (hperm.mem_iff.mpr hb))
    exact (mem_arrows_out hg _ b).mpr
      ⟨he, rfl, (usable_iff hops he).2.1.mpr ((usable_iff hops he).2.2.mp hu)⟩
  obtain ⟨ht, hend⟩ := trail_of_walk hwalk hout
  refine ⟨?_, ht, hend, hpools, ?_⟩
  · rw [← hperm.length_eq]
    exact htwo
  · -- the token comes up again only at the last edge
    intro b hb hdest
    obtain ⟨r, e, hr⟩ := (List.eq_nil_or_concat' (a :: q ++ p)).resolve_left
      (List.cons_ne_nil a (q ++ p))
    rw [hr] at hb hsimple hwalk
    have hlast : e.2.dest = a.2.source := ((rated ops).walk_concat _ r e _).mp hwalk |>.2
    have hbr : b ∈ r := by
      cases r with
      | nil => exact absurd hb List.not_mem_nil
      | cons f r =>
          rw [List.cons_append, List.tail_cons, List.dropLast_concat] at hb
          exact List.mem_cons_of_mem f hb
    rw [List.map_append, List.nodup_append] at hsimple
    exact hsimple.2.2 _ (List.mem_map_of_mem hbr) _ (List.mem_singleton.mpr rfl)
      (hdest.trans hlast.symm)

end Cycle

/-! ## The theorem -/

/-- The token a list of hops starts at. -/
def startOf (g : PriceGraph ExactF64) (hops : List ArbHop) : Option Nat :=
  hops.head?.bind fun hop => g.tokens.getIndex hop.inputMint

/-- A token on a path. -/
def OnPath (g : PriceGraph ExactF64) (P : ArbPath ExactF64) (x : Nat) : Prop :=
  ∃ hop ∈ P.hops, g.tokens.getIndex hop.inputMint = some x ∨
    g.tokens.getIndex hop.outputMint = some x

/-- **WHAT BELLMAN-FORD REPORTS THE SEARCH REPORTS**: from every token of the
    path, rotated to start there, with the same ratio. -/
theorem detectors_agree (ops : List GraphOp) (hops : FeesBelowOne ops)
    (hmints : FixedMints ops) (s : Nat) (state : BellmanFordState ExactF64) (m : ℝ) (hm : 0 ≤ m)
    (P : ArbPath ExactF64)
    (hP : P ∈ (findArbitrageFrom (PriceGraph.build ops) s state (fin m)).2) (x : Nat)
    (hx : OnPath (PriceGraph.build ops) P x) :
    ∃ k < P.hops.length, startOf (PriceGraph.build ops) (P.hops.rotate k) = some x ∧
      { P with hops := P.hops.rotate k } ∈
        findCyclesDfs (PriceGraph.build ops) x 4 (fin m) := by
  have hg : GraphInv (PriceGraph.build ops : PriceGraph ExactF64) := GraphInv.build ops
  obtain ⟨c, hc, htwo, hfour, hprofit, rfl⟩ := result_is_report hops hP
  have hweighed := weighed_of_usable hops hc.usable
  have hrate : 1 + m < pathRate ops c := (profitable_iff hweighed m).mp hprofit
  -- the edge that leaves `x`
  obtain ⟨a, ha, hsource⟩ : ∃ a ∈ c, a.2.source = x := by
    obtain ⟨hop, hhop, hmint⟩ := hx
    obtain ⟨b, hb, rfl⟩ := List.mem_map.mp hhop
    have he := hc.edges b hb
    rcases hmint with hmint | hmint
    · refine ⟨b, hb, hg.registry.getMint_inj (hg.source _ _ he) ?_⟩
      exact (hg.registry _ _).mp hmint
    · obtain ⟨v, hv⟩ := hc.closed
      obtain ⟨a, ha, hsource⟩ := (rated ops).exists_after hv hb
      refine ⟨a, ha, hsource.trans (hg.registry.getMint_inj (hg.dest _ _ he) ?_)⟩
      exact (hg.registry _ _).mp hmint
  obtain ⟨p, q, rfl⟩ := List.append_of_mem ha
  have hcycle := rotation_cycle hops hmints hc.toSimpleCycle htwo (by linarith)
  have hperm : (p ++ a :: q).Perm (a :: q ++ p) := List.perm_append_comm
  have hweighed' : Weighed ops (a :: q ++ p) := fun b hb => hweighed b (hperm.mem_iff.mpr hb)
  -- rotating changes neither the sum of the weights nor the test on it
  have hsum : weightSum (a :: q ++ p) = weightSum (p ++ a :: q) := by
    rw [weightSum_eq hweighed, weightSum_eq hweighed', pathRate_perm ops hperm]
  have hrotate : (report (p ++ a :: q)).hops.rotate p.length = (report (a :: q ++ p)).hops := by
    show ((p ++ a :: q).map fun a => hopOf a.1 a.2).rotate p.length = _
    rw [← List.map_rotate, List.rotate_append_length_eq]
    rfl
  refine ⟨p.length, ?_, ?_, ?_⟩
  · show p.length < ((p ++ a :: q).map fun a => hopOf a.1 a.2).length
    rw [List.length_map, List.length_append, List.length_cons]
    omega
  · rw [hrotate]
    show (PriceGraph.build ops).tokens.getIndex a.2.sourceMint = some x
    rw [← hsource]
    exact (hg.registry _ _).mpr (hg.source _ _ (hc.edges a ha))
  · refine (mem_findCyclesDfs _ x 4 (fin m) _).mpr ⟨a :: q ++ p, ?_, ?_, ?_, ?_⟩
    · rw [← hsource]
      exact hcycle
    · rw [← hperm.length_eq]
      exact hfour
    · rw [profitable, hsum]
      exact hprofit
    · rw [hrotate, report, report, hsum]

/-- On the two sample pools Bellman-Ford reports a path, and the search reports it
    from each of its tokens. -/
theorem twoPools_agree :
    ∃ P ∈ (findArbitrageFrom (PriceGraph.build twoPools) 0 (BellmanFordState.new 2)
        (fin 0.001)).2, ∀ x, OnPath (PriceGraph.build twoPools) P x →
      ∃ k < P.hops.length, startOf (PriceGraph.build twoPools) (P.hops.rotate k) = some x ∧
        { P with hops := P.hops.rotate k } ∈
          findCyclesDfs (PriceGraph.build twoPools) x 4 (fin 0.001) := by
  have hmints : FixedMints twoPools := by
    have hpools : ∀ pool, GraphOp.updatePool pool ∈ twoPools →
        pool = samplePool 101 1 2 1000 2000 1 ∨ pool = samplePool 102 1 2 1000 1000 1 := by
      intro pool hpool
      simpa [twoPools] using hpool
    refine ⟨?_, ?_⟩
    · intro pool hpool
      rcases hpools pool hpool with rfl | rfl
      · decide
      · decide
    · intro pool pool' hpool hpool' haddr
      rcases hpools pool hpool with rfl | rfl
      · rcases hpools pool' hpool' with rfl | rfl
        · exact Or.inl ⟨rfl, rfl⟩
        · exact Or.inl ⟨rfl, rfl⟩
      · rcases hpools pool' hpool' with rfl | rfl
        · exact Or.inl ⟨rfl, rfl⟩
        · exact Or.inl ⟨rfl, rfl⟩
  obtain ⟨hall, c, hc⟩ := twoPools_closes
  have hne := reported_of_cycle (BellmanFordState.new 2) twoPools_fees (by decide)
    (le_refl (0.001 : ℝ)) hall hc
  obtain ⟨P, hP⟩ := List.exists_mem_of_ne_nil _ hne
  exact ⟨P, hP, detectors_agree twoPools twoPools_fees hmints 0 _ 0.001 (by norm_num) P hP⟩

end MevAgreement
