import MevBot.CycleTracing

/-! # Which reachable arbitrage Bellman-Ford reports

    After the `n - 1` passes an edge that can still be relaxed shows that there is
    a negative cycle, but `find_arbitrage_from` does not record that relaxation
    before it walks back, and the predecessors may not hold a cycle yet.  It
    reports something exactly when they do (`reported_iff_passes_close`), which
    depends on the order of the edges: the same two pools are reported in one
    order and not in the other (`reported_in_order`, `missed_in_order`). -/

namespace MevReachable

open MevMachine MevTypes MevGraph MevGraphInv MevQuotes MevSearch MevDfs MevRates MevExact ExactF64
open MevBellmanFord MevTracing Relaxation ParentChain

/-! ## The property -/

/-- A negative cycle can be reached from `s` over usable edges. -/
def NegativeReachable (ops : List GraphOp) (s : Nat) : Prop :=
  ∃ v p c, (∀ a ∈ p, a ∈ usableEdges ops) ∧ (∀ a ∈ c, a ∈ usableEdges ops) ∧
    (rated ops).Walk s p v ∧ (rated ops).Walk v c v ∧ c ≠ [] ∧ (rated ops).weightOf c < 0

/-- Every simple negative cycle has two to four edges and passes the threshold. -/
def ShortAndProfitable (ops : List GraphOp) (m : ℝ) : Prop :=
  ∀ c, SimpleCycle ops c → (rated ops).weightOf c < 0 →
    2 ≤ c.length ∧ c.length ≤ 4 ∧ 1 + m < pathRate ops c

/-- The passes close a cycle: each of its edges is the last one by which a walk
    from `s` that fits the passes got lighter at that edge's end. -/
def PassesClose (ops : List GraphOp) (s : Nat) : Prop :=
  ∃ c, SimpleCycle ops c ∧
    ∀ a ∈ c, LastImprovement (rated ops) s (schedule ops) a.2.dest a

variable {ops : List GraphOp} {s : Nat}

theorem passesClose_iff : PassesClose ops s ↔ ∃ c, PredecessorCycle ops s c := by
  constructor
  · rintro ⟨c, hc, hlast⟩
    exact ⟨c, hc, fun a ha => (pred_eq_some_iff (rated ops) s _ _ a).mpr (hlast a ha)⟩
  · rintro ⟨c, hc⟩
    exact ⟨c, hc.toSimpleCycle, fun a ha =>
      (pred_eq_some_iff (rated ops) s _ _ a).mp (hc.followed a ha)⟩

/-! ## A cycle of predecessors is reported -/

/-- On a cycle one can walk back forever. -/
theorem exists_climb_of_cycle {c : List (Arrow ExactF64)} (hc : PredecessorCycle ops s c)
    (k : Nat) {a : Arrow ExactF64} (ha : a ∈ c) :
    ∃ x, climb (parent ops s) k a.2.dest = some x := by
  refine exists_climb (p := fun v => ∃ a ∈ c, a.2.dest = v) _ ?_ k ⟨a, ha, rfl⟩
  rintro v ⟨b, hb, rfl⟩
  obtain ⟨v, hv⟩ := hc.closed
  obtain ⟨f, hf, heq⟩ := (rated ops).exists_before hv hb
  refine ⟨b.2.source, ?_, f, hf, heq⟩
  rw [parent, show (labels ops s).pred b.2.dest = some b from hc.followed b hb]
  rfl

/-- A profitable cycle of at most four edges weighs less than its slack. -/
theorem weight_add_slack_neg (hops : FeesBelowOne ops) {m : ℝ} (hm : 0.001 ≤ m)
    {c : List (Arrow ExactF64)} (hc : ∀ a ∈ c, a ∈ usableEdges ops) (hfour : c.length ≤ 4)
    (hrate : 1 + m < pathRate ops c) :
    (rated ops).weightOf c + c.length • (1e-9 : ℝ) < 0 := by
  have hlarge : (1.001 : ℝ) < pathRate ops c := by linarith
  -- four times the slack of 1e-9 is below ln 1.001
  have hlog : 1 - (1.001 : ℝ)⁻¹ ≤ Real.log (pathRate ops c) :=
    (Real.one_sub_inv_le_log_of_pos (by norm_num)).trans
      (Real.log_le_log (by norm_num) (le_of_lt hlarge))
  have hlen : (c.length : ℝ) ≤ 4 := by exact_mod_cast hfour
  rw [weightOf_eq hops hc, nsmul_eq_mul]
  norm_num at hlog ⊢
  linarith

/-- An edge with slack triggers a trace. -/
theorem triggers_of_slack (hops : FeesBelowOne ops) {st : BellmanFordState ExactF64}
    (h : Holds (size ops) st (labels ops s)) {a : Arrow ExactF64} (ha : a ∈ usableEdges ops)
    (hfinite : (labels ops s).dist a.2.dest ≠ ⊤)
    (hslack : (labels ops s).dist a.2.source + ((rated ops).weight a + 1e-9 : ℝ) <
      (labels ops s).dist a.2.dest) : Triggers st a.2 := by
  have hr := relaxable_of_mem hops ha
  refine ⟨hr.usable, ?_⟩
  rw [newDist_eq rfl hr h, h.dist _ hr.dest_lt]
  -- both distances are finite, so the comparison is one of reals
  cases hdst : (labels ops s).dist a.2.dest with
  | top => exact absurd hdst hfinite
  | coe d =>
      rw [hdst] at hslack
      cases hsrc : (labels ops s).dist a.2.source with
      | top =>
          rw [hsrc, WithTop.top_add] at hslack
          exact absurd hslack not_top_lt
      | coe x =>
          rw [hsrc, ← WithTop.coe_add, WithTop.coe_lt_coe] at hslack
          rw [← WithTop.coe_add, ofDist_coe, ofDist_coe, fin_scientific, fin_sub, lt_fin]
          linarith

section Reported

variable {m : ℝ}

/-- While nothing has been reported, a trigger that can walk back far enough is
    reported, and any other edge changes nothing. -/
theorem detectEdge_fresh (hops : FeesBelowOne ops) {st : BellmanFordState ExactF64}
    (h : Holds (size ops) st (labels ops s)) (hall : ShortAndProfitable ops m)
    {e : Edge ExactF64} (he : e.dest < size ops) :
    detectEdge (PriceGraph.build ops) st (fin m) (List.replicate (size ops) false, []) e =
        (List.replicate (size ops) false, []) ∧
        ¬(Triggers st e ∧ ∃ x, climb (parent ops s) (size ops) e.dest = some x) ∨
      (detectEdge (PriceGraph.build ops) st (fin m) (List.replicate (size ops) false, []) e).2 ≠
        [] := by
  have hshort : ∀ c, PredecessorCycle ops s c →
      2 ≤ c.length ∧ c.length ≤ 4 ∧ 1 + m < pathRate ops c :=
    fun c hc => hall c hc.toSimpleCycle hc.weight_neg
  by_cases htrigger : Triggers st e
  · rw [detectEdge_traced _ st (fin m) htrigger]
    cases hwalk : climb (parent ops s) (size ops) e.dest with
    | none =>
        left
        rw [traceCycle, walkBack_eq hops h _ he, hwalk]
        refine ⟨rfl, ?_⟩
        rintro ⟨-, x, hx⟩
        cases hx
    | some cycleStart =>
        right
        -- nothing was traced before, so no token is marked
        have hunseen : (List.replicate (size ops) false).getD cycleStart false = false := by
          rw [List.getD_eq_getElem?_getD, List.getElem?_replicate]
          split
          · rfl
          · rfl
        obtain ⟨visited', path, htrace⟩ := traceCycle_succeeds hops h
          (fun c hc => ⟨(hshort c hc).1, (hshort c hc).2.1⟩) he hwalk hunseen
        obtain ⟨c, hc, rfl, -, -⟩ := traceCycle_some hops h he htrace
        have hprofit : F64.lt (1.0 + fin m)
            (cycleProfitRatio (PriceGraph.build ops) (c.map (·.1))) = true := by
          rw [cycleProfitRatio_eq _ hc.edges]
          exact (profitable_iff (weighed_of_usable hops hc.usable) m).mpr (hshort c hc).2.2
        rw [htrace]
        dsimp only
        rw [if_pos hprofit]
        exact List.append_ne_nil_of_right_ne_nil _ (List.cons_ne_nil _ _)
  · left
    exact ⟨detectEdge_idle _ st (fin m) htrigger _, fun hboth => htrigger hboth.1⟩

/-- The pass reports something when one of its edges triggers and can walk back. -/
theorem detect_reports (hops : FeesBelowOne ops) {st : BellmanFordState ExactF64}
    (h : Holds (size ops) st (labels ops s)) (hall : ShortAndProfitable ops m)
    {es : List (Edge ExactF64)} (hes : ∀ e ∈ es, e.dest < size ops)
    (hexists : ∃ e ∈ es, Triggers st e ∧ ∃ x, climb (parent ops s) (size ops) e.dest = some x) :
    (es.foldl (detectEdge (PriceGraph.build ops) st (fin m))
      (List.replicate (size ops) false, [])).2 ≠ [] := by
  induction es with
  | nil =>
      obtain ⟨e, he, -⟩ := hexists
      exact absurd he List.not_mem_nil
  | cons e es ih =>
      rw [List.foldl_cons]
      rcases detectEdge_fresh hops h hall (hes e List.mem_cons_self) with ⟨hsame, hnot⟩ | hne
      · rw [hsame]
        refine ih (fun e' he' => hes e' (List.mem_cons_of_mem e he')) ?_
        obtain ⟨e', he', htrigger⟩ := hexists
        rcases List.mem_cons.mp he' with rfl | he'
        · exact absurd htrigger hnot
        · exact ⟨e', he', htrigger⟩
      · exact detect_ne_nil _ st (fin m) hne

/-- **A CYCLE OF PREDECESSORS IS REPORTED.** -/
theorem reported_of_cycle (state : BellmanFordState ExactF64) (hops : FeesBelowOne ops)
    (hs : s < size ops) (hm : 0.001 ≤ m) (hall : ShortAndProfitable ops m)
    {c : List (Arrow ExactF64)} (hc : PredecessorCycle ops s c) :
    (findArbitrageFrom (PriceGraph.build ops) s state (fin m)).2 ≠ [] := by
  have hholds := relaxFrom_holds hops hs state
  have hkept := Kept.run (rated ops) s (schedule ops)
  obtain ⟨htwo, hfour, hrate⟩ := hall c hc.toSimpleCycle hc.weight_neg
  have hfinite : ∀ a ∈ c, (labels ops s).dist a.2.dest ≠ ⊤ :=
    fun a ha => hkept.finite _ a (hc.followed a ha)
  obtain ⟨v, hv⟩ := hc.closed
  obtain ⟨last, hlast, rfl⟩ := (rated ops).exists_dst hv hc.nonempty
  -- a negative cycle keeps an edge that can be relaxed, and the walk back is on it
  obtain ⟨a, ha, hslack⟩ := exists_slack (rated ops) hv (hfinite last hlast)
    (weight_add_slack_neg hops hm hc.usable hfour hrate)
  have hmem : a.2 ∈ (PriceGraph.build ops).edges :=
    List.mem_of_getElem? (mem_usableEdges.mp (hc.usable a ha)).1
  rw [findArbitrageFrom]
  dsimp only
  rw [if_neg (by rw [not_or]; exact ⟨Nat.ne_of_gt (Nat.zero_lt_of_lt hs), Nat.not_le_of_lt hs⟩)]
  exact detect_reports hops hholds hall (fun e he => (GraphInv.build ops).dest_lt_of_mem he)
    ⟨a.2, hmem, triggers_of_slack hops hholds (hc.usable a ha) (hfinite a ha) hslack,
      exists_climb_of_cycle hc (size ops) ha⟩

end Reported

/-! ## Two pools of one pair -/

/-- A graph of two pools between nodes `0` and `1`, with the rates of its edges. -/
structure TwoPoolGraph (ops : List GraphOp) (e₀ e₁ e₂ e₃ : Edge ExactF64)
    (r₀ r₁ r₂ r₃ : ℝ) : Prop where
  fees : FeesBelowOne ops
  tokens : size ops = 2
  edges : (PriceGraph.build ops).edges = [e₀, e₁, e₂, e₃]
  usable : ∀ e ∈ [e₀, e₁, e₂, e₃], Edge.bfUsable e = true
  there : (e₀.source = 0 ∧ e₀.dest = 1) ∧ e₂.source = 0 ∧ e₂.dest = 1
  back : (e₁.source = 1 ∧ e₁.dest = 0) ∧ e₃.source = 1 ∧ e₃.dest = 0
  rates : edgeRate ops e₀ = r₀ ∧ edgeRate ops e₁ = r₁ ∧ edgeRate ops e₂ = r₂ ∧ edgeRate ops e₃ = r₃

/-- Read off the rows of the graph and the prices on offer. -/
theorem exists_twoPoolGraph (hops : FeesBelowOne ops) (htokens : size ops = 2)
    {h₀ h₁ h₂ h₃ : ArbHop}
    (hrows : (PriceGraph.build ops).edges.map edgeRow =
      [(0, 1, h₀), (1, 0, h₁), (0, 1, h₂), (1, 0, h₃)]) (x₀ x₁ x₂ x₃ : EdgePrice)
    (hx₀ : quotesOf ops (h₀.poolAddress, h₀.inputMint) = some x₀)
    (hx₁ : quotesOf ops (h₁.poolAddress, h₁.inputMint) = some x₁)
    (hx₂ : quotesOf ops (h₂.poolAddress, h₂.inputMint) = some x₂)
    (hx₃ : quotesOf ops (h₃.poolAddress, h₃.inputMint) = some x₃) :
    ∃ e₀ e₁ e₂ e₃, TwoPoolGraph ops e₀ e₁ e₂ e₃ (effectiveRate x₀) (effectiveRate x₁)
      (effectiveRate x₂) (effectiveRate x₃) := by
  obtain ⟨e₀, he₀, hs₀, hd₀, -, hp₀, hr₀⟩ := exists_edge hrows (i := 0) rfl hx₀
  obtain ⟨e₁, he₁, hs₁, hd₁, -, hp₁, hr₁⟩ := exists_edge hrows (i := 1) rfl hx₁
  obtain ⟨e₂, he₂, hs₂, hd₂, -, hp₂, hr₂⟩ := exists_edge hrows (i := 2) rfl hx₂
  obtain ⟨e₃, he₃, hs₃, hd₃, -, hp₃, hr₃⟩ := exists_edge hrows (i := 3) rfl hx₃
  have hlength : (PriceGraph.build ops : PriceGraph ExactF64).edges.length = 4 := by
    rw [← List.length_map (f := edgeRow), hrows]
    rfl
  have hedges : (PriceGraph.build ops).edges = [e₀, e₁, e₂, e₃] := by
    refine List.ext_getElem? fun i => ?_
    match i with
    | 0 => exact he₀
    | 1 => exact he₁
    | 2 => exact he₂
    | 3 => exact he₃
    | i + 4 => rw [List.getElem?_eq_none (by omega), List.getElem?_eq_none (by simp)]
  refine ⟨e₀, e₁, e₂, e₃, hops, htokens, hedges, ?_, ⟨⟨hs₀, hd₀⟩, hs₂, hd₂⟩,
    ⟨⟨hs₁, hd₁⟩, hs₃, hd₃⟩, hr₀, hr₁, hr₂, hr₃⟩
  intro e he
  simp only [List.mem_cons, List.not_mem_nil, or_false] at he
  rcases he with rfl | rfl | rfl | rfl
  · exact (usable_iff hops he₀).2.2.mpr ⟨x₀, hp₀⟩
  · exact (usable_iff hops he₁).2.2.mpr ⟨x₁, hp₁⟩
  · exact (usable_iff hops he₂).2.2.mpr ⟨x₂, hp₂⟩
  · exact (usable_iff hops he₃).2.2.mpr ⟨x₃, hp₃⟩

namespace TwoPoolGraph

variable {e₀ e₁ e₂ e₃ : Edge ExactF64} {r₀ r₁ r₂ r₃ : ℝ}

theorem usableEdges_eq (h : TwoPoolGraph ops e₀ e₁ e₂ e₃ r₀ r₁ r₂ r₃) :
    usableEdges ops = [(0, e₀), (1, e₁), (2, e₂), (3, e₃)] := by
  have hu := h.usable
  rw [usableEdges, h.edges, passFrom, if_pos (hu e₀ (by simp)), passFrom,
    if_pos (hu e₁ (by simp)), passFrom, if_pos (hu e₂ (by simp)), passFrom,
    if_pos (hu e₃ (by simp)), passFrom]

theorem schedule_eq (h : TwoPoolGraph ops e₀ e₁ e₂ e₃ r₀ r₁ r₂ r₃) :
    schedule ops = [(0, e₀), (1, e₁), (2, e₂), (3, e₃)] := by
  have htokens : (PriceGraph.build ops : PriceGraph ExactF64).numTokens = 2 := h.tokens
  rw [schedule, htokens, h.usableEdges_eq]
  rfl

/-- A usable edge leads there or back. -/
theorem mem_cases (h : TwoPoolGraph ops e₀ e₁ e₂ e₃ r₀ r₁ r₂ r₃) {a : Arrow ExactF64}
    (ha : a ∈ usableEdges ops) :
    (a.2.source = 0 ∧ a.2.dest = 1 ∧ (edgeRate ops a.2 = r₀ ∨ edgeRate ops a.2 = r₂)) ∨
      (a.2.source = 1 ∧ a.2.dest = 0 ∧ (edgeRate ops a.2 = r₁ ∨ edgeRate ops a.2 = r₃)) := by
  rw [h.usableEdges_eq] at ha
  simp only [List.mem_cons, List.not_mem_nil, or_false] at ha
  rcases ha with rfl | rfl | rfl | rfl
  · exact Or.inl ⟨h.there.1.1, h.there.1.2, Or.inl h.rates.1⟩
  · exact Or.inr ⟨h.back.1.1, h.back.1.2, Or.inl h.rates.2.1⟩
  · exact Or.inl ⟨h.there.2.1, h.there.2.2, Or.inr h.rates.2.2.1⟩
  · exact Or.inr ⟨h.back.2.1, h.back.2.2, Or.inr h.rates.2.2.2⟩

/-- A simple cycle goes there by one edge and back by another. -/
theorem cycle_cases (h : TwoPoolGraph ops e₀ e₁ e₂ e₃ r₀ r₁ r₂ r₃) {c : List (Arrow ExactF64)}
    (hc : SimpleCycle ops c) :
    ∃ a b, c.Perm [a, b] ∧ a ∈ usableEdges ops ∧ b ∈ usableEdges ops ∧ a.2.source = 0 ∧
      b.2.source = 1 := by
  obtain ⟨v, hv⟩ := hc.closed
  obtain ⟨a, ha⟩ := List.exists_mem_of_ne_nil c hc.nonempty
  obtain ⟨b, hb, hab⟩ := (rated ops).exists_after hv ha
  have hab : b.2.source = a.2.dest := hab
  have hac := h.mem_cases (hc.usable a ha)
  have hbc := h.mem_cases (hc.usable b hb)
  -- with two nodes the next edge leads back
  have hba : b.2.dest = a.2.source := by omega
  have hne : a ≠ b := by
    rintro rfl
    omega
  have hperm := (rated ops).perm_of_there_and_back hv hc.simple ha hb hne hab.symm hba
  rcases hac with ⟨hs, hd, -⟩ | ⟨hs, hd, -⟩
  · exact ⟨a, b, hperm, hc.usable a ha, hc.usable b hb, hs, hab.trans hd⟩
  · exact ⟨b, a, hperm.trans (List.Perm.swap b a []), hc.usable b hb, hc.usable a ha,
      hab.trans hd, hs⟩

/-- The negative cycles are short, and profitable if each way there and back is
    profitable or loses. -/
theorem shortAndProfitable (h : TwoPoolGraph ops e₀ e₁ e₂ e₃ r₀ r₁ r₂ r₃) {m : ℝ}
    (hrates : ∀ x ∈ [r₀, r₂], ∀ y ∈ [r₁, r₃], x * y ≤ 1 ∨ 1 + m < x * y) :
    ShortAndProfitable ops m := by
  intro c hc hneg
  obtain ⟨a, b, hperm, ha, hb, hs, hs'⟩ := h.cycle_cases hc
  have hrate : pathRate ops c = edgeRate ops a.2 * edgeRate ops b.2 := by
    rw [pathRate_perm ops hperm, pathRate_cons, pathRate_cons, pathRate_nil, mul_one]
  have hx : edgeRate ops a.2 ∈ [r₀, r₂] := by
    rcases h.mem_cases ha with ⟨-, -, hr⟩ | ⟨hs1, -⟩
    · simpa using hr
    · omega
  have hy : edgeRate ops b.2 ∈ [r₁, r₃] := by
    rcases h.mem_cases hb with ⟨hs0, -⟩ | ⟨-, -, hr⟩
    · omega
    · simpa using hr
  have hpos := pathRate_pos (weighed_of_usable h.fees hc.usable)
  have hone : 1 < pathRate ops c := by
    rw [weightOf_eq h.fees hc.usable, neg_lt_zero, Real.log_pos_iff (le_of_lt hpos)] at hneg
    exact hneg
  have htwo : c.length = 2 := hperm.length_eq
  refine ⟨by omega, by omega, ?_⟩
  rw [hrate] at hone ⊢
  exact (hrates _ hx _ hy).resolve_left (not_le_of_gt hone)

/-- The distances and predecessors of the nodes `u` and `v`. -/
structure At (L : Labels Nat (Arrow ExactF64) ℝ) (u v : Nat) (du dv : ℝ)
    (pu pv : Option (Arrow ExactF64)) : Prop where
  dist : L.dist u = du ∧ L.dist v = dv
  pred : L.pred u = pu ∧ L.pred v = pv

section Steps

variable {L : Labels Nat (Arrow ExactF64) ℝ} {u v : Nat} {du dv : ℝ}
  {pu pv : Option (Arrow ExactF64)} {a : Arrow ExactF64}

theorem At.symm (h : At L u v du dv pu pv) : At L v u dv du pv pu :=
  ⟨h.dist.symm, h.pred.symm⟩

/-- The first edge from node `0`. -/
theorem at_first (hsrc : a.2.source = 0) (hdst : a.2.dest = 1) :
    At (relax (rated ops) (Labels.source 0) a) 0 1 0 ((rated ops).weight a) none (some a) := by
  have hs : (rated ops).src a = 0 := hsrc
  have hd : (rated ops).dst a = 1 := hdst
  have hcond : (Labels.source 0 : Labels Nat (Arrow ExactF64) ℝ).dist ((rated ops).src a) +
      (rated ops).weight a < (Labels.source 0 : Labels Nat (Arrow ExactF64) ℝ).dist
        ((rated ops).dst a) := by
    rw [hs, hd]
    show (0 : WithTop ℝ) + (rated ops).weight a < ⊤
    rw [zero_add]
    exact WithTop.coe_lt_top _
  have hdist := relax_dist_dst (rated ops) hcond
  have hpred := relax_pred_dst (rated ops) hcond
  have hother := relax_of_ne (rated ops) (Labels.source 0) a (v := 0) (by rw [hd]; decide)
  rw [hd] at hdist hpred
  rw [hs] at hdist
  exact ⟨⟨hother.1, hdist.trans (zero_add _)⟩, hother.2, hpred⟩

/-- An edge from `u` that improves `v`. -/
theorem At.improve (h : At L u v du dv pu pv) (huv : u ≠ v) (hsrc : a.2.source = u)
    (hdst : a.2.dest = v) (hlt : du + (rated ops).weight a < dv) :
    At (relax (rated ops) L a) u v du (du + (rated ops).weight a) pu (some a) := by
  have hs : (rated ops).src a = u := hsrc
  have hd : (rated ops).dst a = v := hdst
  have hcond : L.dist ((rated ops).src a) + (rated ops).weight a < L.dist ((rated ops).dst a) := by
    rw [hs, hd, h.dist.1, h.dist.2]
    exact_mod_cast hlt
  have hdist := relax_dist_dst (rated ops) hcond
  have hpred := relax_pred_dst (rated ops) hcond
  have hother := relax_of_ne (rated ops) L a (v := u) (by rw [hd]; exact huv)
  rw [hd] at hdist hpred
  rw [hs, h.dist.1] at hdist
  exact ⟨⟨hother.1.trans h.dist.1, hdist⟩, hother.2.trans h.pred.1, hpred⟩

/-- An edge from `u` that improves nothing at `v`. -/
theorem At.idle (h : At L u v du dv pu pv) (hsrc : a.2.source = u) (hdst : a.2.dest = v)
    (hle : dv ≤ du + (rated ops).weight a) : At (relax (rated ops) L a) u v du dv pu pv := by
  have hs : (rated ops).src a = u := hsrc
  have hd : (rated ops).dst a = v := hdst
  rw [relax_of_not_lt (rated ops)]
  · exact h
  · rw [hs, hd, h.dist.1, h.dist.2, not_lt]
    exact_mod_cast hle

end Steps

theorem labels_eq (h : TwoPoolGraph ops e₀ e₁ e₂ e₃ r₀ r₁ r₂ r₃) :
    labels ops 0 = relax (rated ops) (relax (rated ops) (relax (rated ops)
      (relax (rated ops) (Labels.source 0) (0, e₀)) (1, e₁)) (2, e₂)) (3, e₃) := by
  rw [labels, run, h.schedule_eq]
  rfl

/-- The weights of the four edges, and that their rates are positive. -/
theorem weights (h : TwoPoolGraph ops e₀ e₁ e₂ e₃ r₀ r₁ r₂ r₃) :
    ((rated ops).weight (0, e₀) = -Real.log r₀ ∧ (rated ops).weight (1, e₁) = -Real.log r₁ ∧
      (rated ops).weight (2, e₂) = -Real.log r₂ ∧ (rated ops).weight (3, e₃) = -Real.log r₃) ∧
      0 < r₀ ∧ 0 < r₁ ∧ 0 < r₂ ∧ 0 < r₃ := by
  have hpos : ∀ a ∈ usableEdges ops, 0 < edgeRate ops a.2 :=
    fun a ha => (weighed_of_usable h.fees (fun _ hb => hb) a ha).2
  rw [h.usableEdges_eq] at hpos
  obtain ⟨h₀, h₁, h₂, h₃⟩ := h.rates
  refine ⟨⟨?_, ?_, ?_, ?_⟩, ?_, ?_, ?_, ?_⟩
  · rw [← h₀]; rfl
  · rw [← h₁]; rfl
  · rw [← h₂]; rfl
  · rw [← h₃]; rfl
  · rw [← h₀]; exact hpos (0, e₀) (by simp)
  · rw [← h₁]; exact hpos (1, e₁) (by simp)
  · rw [← h₂]; exact hpos (2, e₂) (by simp)
  · rw [← h₃]; exact hpos (3, e₃) (by simp)

/-- Rates that do not gain. -/
theorem log_add_nonpos {x y : ℝ} (hx : 0 < x) (hy : 0 < y) (h : x * y ≤ 1) :
    Real.log x + Real.log y ≤ 0 := by
  rw [← Real.log_mul (ne_of_gt hx) (ne_of_gt hy)]
  exact Real.log_nonpos (le_of_lt (mul_pos hx hy)) h

/-- When the first pool has the better price there and the second the better price
    back, the one pass closes their cycle. -/
theorem predecessorCycle (h : TwoPoolGraph ops e₀ e₁ e₂ e₃ r₀ r₁ r₂ r₃) (hpool : r₀ * r₁ ≤ 1)
    (hthere : r₂ ≤ r₀) (hback : 1 < r₀ * r₃) : PredecessorCycle ops 0 [(0, e₀), (3, e₃)] := by
  obtain ⟨⟨w₀, w₁, w₂, w₃⟩, p₀, p₁, p₂, p₃⟩ := h.weights
  have l₀₁ : Real.log r₀ + Real.log r₁ ≤ 0 := log_add_nonpos p₀ p₁ hpool
  have l₀₂ : Real.log r₂ ≤ Real.log r₀ := Real.log_le_log p₂ hthere
  have l₀₃ : 0 < Real.log r₀ + Real.log r₃ := by
    rw [← Real.log_mul (ne_of_gt p₀) (ne_of_gt p₃)]
    exact Real.log_pos hback
  -- the first edge there stays the best, and the last edge back gains on it
  have h1 : At (relax (rated ops) (Labels.source 0) (0, e₀)) _ _ _ _ _ _ :=
    at_first h.there.1.1 h.there.1.2
  have h2 := h1.symm.idle (a := (1, e₁)) h.back.1.1 h.back.1.2 (by rw [w₀, w₁]; linarith)
  have h3 := h2.symm.idle (a := (2, e₂)) h.there.2.1 h.there.2.2 (by rw [w₀, w₂]; linarith)
  have hat := h3.symm.improve (a := (3, e₃)) (by decide) h.back.2.1 h.back.2.2
    (by rw [w₀, w₃]; linarith)
  rw [← h.labels_eq] at hat
  refine ⟨⟨by simp, ⟨0, h.there.1.1, ?_, h.back.2.2⟩, ?_, ?_⟩, ?_⟩
  · exact h.back.2.1.trans h.there.1.2.symm
  · simp [h.there.1.2, h.back.2.2]
  · rw [h.usableEdges_eq]
    simp
  · intro a ha
    simp only [List.mem_cons, List.not_mem_nil, or_false] at ha
    rcases ha with rfl | rfl
    · exact (congrArg _ h.there.1.2).trans hat.pred.1
    · exact (congrArg _ h.back.2.2).trans hat.pred.2

/-- When the second pool has the better price there, and no pool gains on its
    own, the one pass records nothing at node `0`. -/
theorem no_predecessorCycle (h : TwoPoolGraph ops e₀ e₁ e₂ e₃ r₀ r₁ r₂ r₃) (hpool : r₀ * r₁ ≤ 1)
    (hthere : r₀ < r₂) (hpool' : r₂ * r₃ ≤ 1) (c : List (Arrow ExactF64)) :
    ¬PredecessorCycle ops 0 c := by
  obtain ⟨⟨w₀, w₁, w₂, w₃⟩, p₀, p₁, p₂, p₃⟩ := h.weights
  have l₀₁ : Real.log r₀ + Real.log r₁ ≤ 0 := log_add_nonpos p₀ p₁ hpool
  have l₀₂ : Real.log r₀ < Real.log r₂ := Real.log_lt_log p₀ hthere
  have l₂₃ : Real.log r₂ + Real.log r₃ ≤ 0 := log_add_nonpos p₂ p₃ hpool'
  -- the third edge improves node 1, but its own way back gains nothing
  have h1 : At (relax (rated ops) (Labels.source 0) (0, e₀)) _ _ _ _ _ _ :=
    at_first h.there.1.1 h.there.1.2
  have h2 := h1.symm.idle (a := (1, e₁)) h.back.1.1 h.back.1.2 (by rw [w₀, w₁]; linarith)
  have h3 := h2.symm.improve (a := (2, e₂)) (by decide) h.there.2.1 h.there.2.2
    (by rw [w₀, w₂]; linarith)
  have hat := h3.symm.idle (a := (3, e₃)) h.back.2.1 h.back.2.2 (by rw [w₂, w₃]; linarith)
  rw [← h.labels_eq] at hat
  intro hc
  obtain ⟨a, b, hperm, ha, hb, -, hs⟩ := h.cycle_cases hc.toSimpleCycle
  have hdest : b.2.dest = 0 := by
    rcases h.mem_cases hb with ⟨hs', -⟩ | ⟨-, hd, -⟩
    · omega
    · exact hd
  have hpred := hc.followed b (hperm.mem_iff.mpr (by simp))
  rw [show (rated ops).dst b = 0 from hdest, hat.pred.2] at hpred
  cases hpred

end TwoPoolGraph

/-- The rates of the sample pools: `2 : 1` and even, less the fee. -/
theorem sample_rates :
    effectiveRate ⟨1000, 2000, 25, 10000, 1⟩ = 1.995 ∧
      effectiveRate ⟨2000, 1000, 25, 10000, 1⟩ = 0.49875 ∧
      effectiveRate ⟨1000, 1000, 25, 10000, 1⟩ = 0.9975 := by
  simp only [effectiveRate, spotRate, keptShare, UInt64.reduceToNat]
  norm_num

/-- The graph of `twoPools`, the pool with the better price there first. -/
theorem twoPools_graph : ∃ e₀ e₁ e₂ e₃,
    TwoPoolGraph twoPools e₀ e₁ e₂ e₃ 1.995 0.49875 0.9975 0.9975 := by
  have h := exists_twoPoolGraph twoPools_fees (by decide) twoPools_edges
    ⟨1000, 2000, 25, 10000, 1⟩ ⟨2000, 1000, 25, 10000, 1⟩
    ⟨1000, 1000, 25, 10000, 1⟩ ⟨1000, 1000, 25, 10000, 1⟩
    (by decide) (by decide) (by decide) (by decide)
  rwa [sample_rates.1, sample_rates.2.1, sample_rates.2.2] at h

/-- The same two pools, first seen in the other order. -/
def swappedPools : List GraphOp :=
  [.updatePool (samplePool 102 1 2 1000 1000 1), .updatePool (samplePool 101 1 2 1000 2000 1)]

theorem swappedPools_fees : FeesBelowOne swappedPools :=
  feesBelowOne_pair (by decide) (by decide)

theorem swappedPools_graph : ∃ e₀ e₁ e₂ e₃,
    TwoPoolGraph swappedPools e₀ e₁ e₂ e₃ 0.9975 0.9975 1.995 0.49875 := by
  have hrows : (PriceGraph.build swappedPools).edges.map edgeRow =
      [(0, 1, sampleHop 102 .raydiumAmm 1 2), (1, 0, sampleHop 102 .raydiumAmm 2 1),
        (0, 1, sampleHop 101 .raydiumAmm 1 2), (1, 0, sampleHop 101 .raydiumAmm 2 1)] := by
    decide
  have h := exists_twoPoolGraph swappedPools_fees (by decide) hrows
    ⟨1000, 1000, 25, 10000, 1⟩ ⟨1000, 1000, 25, 10000, 1⟩
    ⟨1000, 2000, 25, 10000, 1⟩ ⟨2000, 1000, 25, 10000, 1⟩
    (by decide) (by decide) (by decide) (by decide)
  rwa [sample_rates.1, sample_rates.2.1, sample_rates.2.2] at h

/-- In both orders the only gain is `1.99`, there through one pool and back through
    the other. -/
theorem sample_shortAndProfitable {e₀ e₁ e₂ e₃ : Edge ExactF64} {r₀ r₁ r₂ r₃ : ℝ}
    (h : TwoPoolGraph ops e₀ e₁ e₂ e₃ r₀ r₁ r₂ r₃)
    (hr : ∀ x ∈ [r₀, r₂], x = 1.995 ∨ x = 0.9975)
    (hr' : ∀ x ∈ [r₁, r₃], x = 0.49875 ∨ x = 0.9975) : ShortAndProfitable ops 0.001 := by
  refine h.shortAndProfitable ?_
  intro x hx y hy
  rcases hr x hx with rfl | rfl
  · rcases hr' y hy with rfl | rfl
    · exact Or.inl (by norm_num)
    · exact Or.inr (by norm_num)
  · rcases hr' y hy with rfl | rfl
    · exact Or.inl (by norm_num)
    · exact Or.inl (by norm_num)

/-- With the better price there seen first, the one pass closes the cycle. -/
theorem twoPools_closes :
    ShortAndProfitable twoPools 0.001 ∧ ∃ c, PredecessorCycle twoPools 0 c := by
  obtain ⟨e₀, e₁, e₂, e₃, h⟩ := twoPools_graph
  exact ⟨sample_shortAndProfitable h (by simp) (by simp), _,
    h.predecessorCycle (by norm_num) (by norm_num) (by norm_num)⟩

/-! ## The theorem -/

/-- **WHEN A REACHABLE ARBITRAGE IS REPORTED**: exactly when the passes close a
    cycle.  That a negative cycle is reachable is not needed. -/
theorem reported_iff_passes_close (ops : List GraphOp) (hops : FeesBelowOne ops) (s : Nat)
    (hs : s < (PriceGraph.build ops : PriceGraph ExactF64).numTokens)
    (state : BellmanFordState ExactF64) (m : ℝ) (hm : 0.001 ≤ m)
    (hall : ShortAndProfitable ops m) :
    (findArbitrageFrom (PriceGraph.build ops) s state (fin m)).2 ≠ [] ↔ PassesClose ops s := by
  rw [passesClose_iff]
  constructor
  · intro hne
    obtain ⟨P, hP⟩ := List.exists_mem_of_ne_nil _ hne
    obtain ⟨c, hc, -⟩ := result_is_report hops hP
    exact ⟨c, hc⟩
  · rintro ⟨c, hc⟩
    exact reported_of_cycle state hops hs hm hall hc

/-- With the better price there seen first, the arbitrage is reported. -/
theorem reported_in_order :
    (findArbitrageFrom (PriceGraph.build twoPools) 0 (BellmanFordState.new 2) (fin 0.001)).2 ≠
      [] := by
  obtain ⟨hall, hcycle⟩ := twoPools_closes
  exact (reported_iff_passes_close twoPools twoPools_fees 0 (by decide)
    (BellmanFordState.new 2) 0.001 (le_refl _) hall).mpr (passesClose_iff.mpr hcycle)

/-- **THE SAME ARBITRAGE IN THE OTHER ORDER IS NOT REPORTED**: it is reachable and
    nearly doubles the input, the only gain in the graph. -/
theorem missed_in_order :
    FeesBelowOne swappedPools ∧ NegativeReachable swappedPools 0 ∧
      ShortAndProfitable swappedPools 0.001 ∧
      (findArbitrageFrom (PriceGraph.build swappedPools) 0 (BellmanFordState.new 2)
        (fin 0.001)).2 = [] := by
  obtain ⟨e₀, e₁, e₂, e₃, h⟩ := swappedPools_graph
  refine ⟨swappedPools_fees, ?_, sample_shortAndProfitable h (by simp) (by simp), ?_⟩
  · have hmem : ∀ a ∈ [((2, e₂) : Arrow ExactF64), (1, e₁)], a ∈ usableEdges swappedPools := by
      rw [h.usableEdges_eq]
      simp
    refine ⟨0, [], [(2, e₂), (1, e₁)], by simp, hmem, rfl, ?_, by simp, ?_⟩
    · exact ⟨h.there.2.1, h.back.1.1.trans h.there.2.2.symm, h.back.1.2⟩
    · rw [weightOf_eq swappedPools_fees hmem, neg_lt_zero]
      refine Real.log_pos ?_
      simp only [pathRate_cons, pathRate_nil, h.rates]
      norm_num
  · by_contra hne
    obtain ⟨P, hP⟩ := List.exists_mem_of_ne_nil _ hne
    obtain ⟨c, hc, -⟩ := result_is_report swappedPools_fees hP
    exact h.no_predecessorCycle (by norm_num) (by norm_num) (by norm_num) c hc

end MevReachable
