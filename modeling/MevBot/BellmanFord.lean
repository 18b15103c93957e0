import MevBot.ExactRates
import MevBot.Library.ParentChain
import MevBot.Library.Relaxation

/-! # Bellman-Ford over exact weights

    The relaxation loop of `find_arbitrage_from` is edge relaxation along the
    schedule of its `n - 1` passes over the usable edges (`relaxFrom_holds`), the
    early exit included.  `trace_cycle` follows the predecessors back, and what it
    returns is a simple cycle of predecessor edges (`traceCycle_some`). -/

namespace MevBellmanFord

open MevMachine MevTypes MevGraph MevGraphInv MevSearch MevDfs MevRates MevExact ExactF64
open Relaxation ParentChain

/-! ## The schedule -/

/-- The graph as a weighted digraph over its nodes. -/
noncomputable def rated (ops : List GraphOp) : Weighted Nat (Arrow ExactF64) ℝ where
  src := fun a => a.2.source
  dst := fun a => a.2.dest
  weight := fun a => -Real.log (edgeRate ops a.2)

/-- The edges a pass relaxes, from index `i` on. -/
noncomputable def passFrom : Nat → List (Edge ExactF64) → List (Arrow ExactF64)
  | _, [] => []
  | i, e :: es => if Edge.bfUsable e then (i, e) :: passFrom (i + 1) es else passFrom (i + 1) es

/-- The usable edges of the graph a history builds, in index order. -/
noncomputable def usableEdges (ops : List GraphOp) : List (Arrow ExactF64) :=
  passFrom 0 (PriceGraph.build ops).edges

/-- The edges the `n - 1` passes relax, in order. -/
noncomputable def schedule (ops : List GraphOp) : List (Arrow ExactF64) :=
  (List.replicate ((PriceGraph.build ops : PriceGraph ExactF64).numTokens - 1)
    (usableEdges ops)).flatten

theorem mem_passFrom {i : Nat} {es : List (Edge ExactF64)} {a : Arrow ExactF64} :
    a ∈ passFrom i es ↔
      ∃ j, a.1 = i + j ∧ es[j]? = some a.2 ∧ Edge.bfUsable a.2 = true := by
  induction es generalizing i with
  | nil => simp [passFrom]
  | cons e es ih =>
      have hrest : a ∈ passFrom (i + 1) es ↔
          ∃ j, a.1 = i + (j + 1) ∧ (e :: es)[j + 1]? = some a.2 ∧ Edge.bfUsable a.2 = true := by
        rw [ih]
        refine exists_congr fun j => ?_
        rw [List.getElem?_cons_succ, Nat.add_assoc, Nat.add_comm 1 j]
      have hhead : a = (i, e) ∧ Edge.bfUsable e = true ↔
          a.1 = i + 0 ∧ (e :: es)[0]? = some a.2 ∧ Edge.bfUsable a.2 = true := by
        obtain ⟨k, f⟩ := a
        simp only [Prod.mk.injEq, List.getElem?_cons_zero, Option.some.injEq, Nat.add_zero]
        constructor
        · rintro ⟨⟨rfl, rfl⟩, hu⟩
          exact ⟨rfl, rfl, hu⟩
        · rintro ⟨rfl, rfl, hu⟩
          exact ⟨⟨rfl, rfl⟩, hu⟩
      have hsplit : a ∈ passFrom i (e :: es) ↔
          (a = (i, e) ∧ Edge.bfUsable e = true) ∨ a ∈ passFrom (i + 1) es := by
        rw [passFrom]
        by_cases hu : Edge.bfUsable e = true
        · rw [if_pos hu, List.mem_cons]
          simp only [hu, and_true]
        · rw [if_neg hu]
          simp only [hu, and_false, false_or, Bool.false_eq_true]
      rw [hsplit, hrest, hhead]
      constructor
      · rintro (h | ⟨j, h⟩)
        · exact ⟨0, h⟩
        · exact ⟨j + 1, h⟩
      · rintro ⟨j, h⟩
        cases j with
        | zero => exact Or.inl h
        | succ j => exact Or.inr ⟨j, h⟩

variable {ops : List GraphOp}

/-- The usable edges of the graph, at their places. -/
theorem mem_usableEdges {a : Arrow ExactF64} :
    a ∈ usableEdges ops ↔
      (PriceGraph.build ops).edges[a.1]? = some a.2 ∧ Edge.bfUsable a.2 = true := by
  rw [usableEdges, mem_passFrom]
  constructor
  · rintro ⟨j, hj, h⟩
    rwa [hj, Nat.zero_add]
  · intro h
    exact ⟨a.1, (Nat.zero_add _).symm, h⟩

/-- Every pass goes over the usable edges. -/
theorem mem_schedule {a : Arrow ExactF64} (h : a ∈ schedule ops) : a ∈ usableEdges ops := by
  obtain ⟨pass, hpass, ha⟩ := List.mem_flatten.mp h
  rwa [List.eq_of_mem_replicate hpass] at ha

/-- A usable edge joins two tokens of the graph and weighs `-ln` of its rate. -/
structure Relaxable (ops : List GraphOp) (a : Arrow ExactF64) : Prop where
  usable : Edge.bfUsable a.2 = true
  source_lt : a.2.source < (PriceGraph.build ops : PriceGraph ExactF64).numTokens
  dest_lt : a.2.dest < (PriceGraph.build ops : PriceGraph ExactF64).numTokens
  weight : a.2.weight = fin ((rated ops).weight a)

/-- A usable edge can be relaxed. -/
theorem relaxable_of_mem (hops : FeesBelowOne ops) {a : Arrow ExactF64}
    (ha : a ∈ usableEdges ops) : Relaxable ops a := by
  obtain ⟨he, hu⟩ := mem_usableEdges.mp ha
  have hg : GraphInv (PriceGraph.build ops : PriceGraph ExactF64) := GraphInv.build ops
  exact ⟨hu, hg.source_lt he, hg.dest_lt he,
    (weight_of_usable hops he ((usable_iff hops he).2.2.mp hu)).1⟩

/-- A path of usable edges has a rate. -/
theorem weighed_of_usable (hops : FeesBelowOne ops) {path : List (Arrow ExactF64)}
    (h : ∀ a ∈ path, a ∈ usableEdges ops) : Weighed ops path := by
  intro a ha
  obtain ⟨he, hu⟩ := mem_usableEdges.mp (h a ha)
  exact weight_of_usable hops he ((usable_iff hops he).2.2.mp hu)

/-- The weight of a path is `-ln` of its rate. -/
theorem weightOf_eq (hops : FeesBelowOne ops) {path : List (Arrow ExactF64)}
    (h : ∀ a ∈ path, a ∈ usableEdges ops) :
    (rated ops).weightOf path = -Real.log (pathRate ops path) := by
  induction path with
  | nil => rw [Weighted.weightOf_nil, pathRate_nil, Real.log_one, neg_zero]
  | cons a path ih =>
      have htail : ∀ b ∈ path, b ∈ usableEdges ops := fun b hb => h b (List.mem_cons_of_mem a hb)
      have hpos := (weighed_of_usable hops h a List.mem_cons_self).2
      have hrest := pathRate_pos (weighed_of_usable hops htail)
      rw [Weighted.weightOf_cons, ih htail, pathRate_cons,
        Real.log_mul (ne_of_gt hpos) (ne_of_gt hrest), neg_add]
      rfl

/-! ## The buffers hold the labels -/

/-- A distance as the code stores it. -/
def ofDist (d : WithTop ℝ) : ExactF64 := WithTop.recTopCoe posInf fin d

/-- A finite distance. -/
theorem ofDist_coe (x : ℝ) : ofDist x = fin x := rfl

/-- Distances add up as weights do. -/
theorem ofDist_add (d : WithTop ℝ) (w : ℝ) : ofDist d + fin w = ofDist (d + w) := by
  cases d with
  | top => rfl
  | coe x => rfl

/-- Distances are compared as weights are. -/
theorem lt_ofDist (d d' : WithTop ℝ) : F64.lt (ofDist d) (ofDist d') = true ↔ d < d' := by
  -- IEEE: infinity is below nothing, and every finite number below it
  cases d with
  | top =>
      rw [show ofDist ⊤ = posInf from rfl, posInf_lt]
      simp
  | coe x =>
      cases d' with
      | top => exact ⟨fun _ => WithTop.coe_lt_top x, fun _ => rfl⟩
      | coe y =>
          rw [ofDist_coe, ofDist_coe, lt_fin]
          exact WithTop.coe_lt_coe.symm

/-- The first `n` entries of the buffers hold the labels. -/
structure Holds (n : Nat) (st : BellmanFordState ExactF64)
    (L : Labels Nat (Arrow ExactF64) ℝ) : Prop where
  dist_length : n ≤ st.dist.length
  pred_length : n ≤ st.predecessor.length
  dist : ∀ v < n, st.distAt v = ofDist (L.dist v)
  pred : ∀ v < n, st.predAt v = (L.pred v).map (·.1)

/-- The buffers of a fresh run. -/
theorem holds_source {n s : Nat} (hs : s < n) (state : BellmanFordState ExactF64) :
    Holds n (state.startFrom n s) (Labels.source s) := by
  refine ⟨startFrom_dist_length state n s, startFrom_pred_length state n s, ?_, ?_⟩
  · intro v hv
    show _ = ofDist (Function.update (fun _ => (⊤ : WithTop ℝ)) s 0 v)
    rw [startFrom_distAt state hs hv]
    by_cases hsv : s = v
    · subst hsv
      rw [if_pos rfl, Function.update_self]
      exact fin_zero
    · rw [if_neg hsv, Function.update_of_ne (Ne.symm hsv)]
      rfl
  · intro v hv
    exact startFrom_predAt state s hv

section Loop

variable {n : Nat}

/-- The candidate distance of one relaxation. -/
theorem newDist_eq {st : BellmanFordState ExactF64} {L : Labels Nat (Arrow ExactF64) ℝ}
    {a : Arrow ExactF64} (hn : n = (PriceGraph.build ops : PriceGraph ExactF64).numTokens)
    (ha : Relaxable ops a) (h : Holds n st L) :
    st.distAt a.2.source + a.2.weight = ofDist (L.dist a.2.source + (rated ops).weight a) := by
  subst hn
  rw [h.dist _ ha.source_lt, ha.weight, ofDist_add]

/-- **ONE RELAXATION**; the flag tells whether anything was written. -/
theorem relaxEdge_holds {st : BellmanFordState ExactF64} {L : Labels Nat (Arrow ExactF64) ℝ}
    {a : Arrow ExactF64} (hn : n = (PriceGraph.build ops : PriceGraph ExactF64).numTokens)
    (ha : Relaxable ops a) (h : Holds n st L) :
    Holds n (relaxEdge st a.1 a.2).1 (relax (rated ops) L a) ∧
      ((relaxEdge st a.1 a.2).2 = false → (relaxEdge st a.1 a.2).1 = st) := by
  have hnew := newDist_eq hn ha h
  subst hn
  have hlt : F64.lt (st.distAt a.2.source + a.2.weight) (st.distAt a.2.dest) = true ↔
      L.dist a.2.source + (rated ops).weight a < L.dist a.2.dest := by
    rw [hnew, h.dist _ ha.dest_lt, lt_ofDist]
  rw [relaxEdge]
  rw [if_neg (by rw [ha.usable]; decide)]
  dsimp only
  -- an edge that shortens writes both buffers at its end, any other writes none
  by_cases hc : L.dist a.2.source + (rated ops).weight a < L.dist a.2.dest
  · rw [if_pos (hlt.mpr hc), relax_of_lt (rated ops) hc]
    refine ⟨⟨?_, ?_, ?_, ?_⟩, fun hfalse => nomatch hfalse⟩
    · rw [List.length_set]
      exact h.dist_length
    · rw [List.length_set]
      exact h.pred_length
    · intro v hv
      rw [distAt_set (Nat.lt_of_lt_of_le ha.dest_lt h.dist_length)]
      show _ = ofDist (Function.update L.dist a.2.dest _ v)
      by_cases hv' : a.2.dest = v
      · subst hv'
        rw [if_pos rfl, Function.update_self]
        exact hnew
      · rw [if_neg hv', Function.update_of_ne (Ne.symm hv')]
        exact h.dist v hv
    · intro v hv
      rw [predAt_set (Nat.lt_of_lt_of_le ha.dest_lt h.pred_length)]
      show _ = (Function.update L.pred a.2.dest (some a) v).map (·.1)
      by_cases hv' : a.2.dest = v
      · subst hv'
        rw [if_pos rfl, Function.update_self]
        rfl
      · rw [if_neg hv', Function.update_of_ne (Ne.symm hv')]
        exact h.pred v hv
  · rw [if_neg fun hlt' => hc (hlt.mp hlt'), relax_of_not_lt (rated ops) hc]
    exact ⟨h, fun _ => rfl⟩

/-- **ONE PASS** relaxes its usable edges in order. -/
theorem relaxPass_holds (hn : n = (PriceGraph.build ops : PriceGraph ExactF64).numTokens)
    {i : Nat} {es : List (Edge ExactF64)} (hes : ∀ a ∈ passFrom i es, Relaxable ops a)
    {st : BellmanFordState ExactF64} {L : Labels Nat (Arrow ExactF64) ℝ} (h : Holds n st L) :
    Holds n (relaxPass i es st).1 ((passFrom i es).foldl (relax (rated ops)) L) ∧
      ((relaxPass i es st).2 = false → (relaxPass i es st).1 = st) := by
  induction es generalizing i st L with
  | nil => exact ⟨h, fun _ => rfl⟩
  | cons e es ih =>
      rw [passFrom] at hes ⊢
      by_cases hu : Edge.bfUsable e = true
      · rw [if_pos hu] at hes ⊢
        obtain ⟨hhead, hsame⟩ := relaxEdge_holds hn (hes (i, e) List.mem_cons_self) h
        obtain ⟨htail, hrest⟩ := ih (fun a ha => hes a (List.mem_cons_of_mem _ ha)) hhead
        refine ⟨htail, ?_⟩
        intro hflag
        obtain ⟨hflag, hflag'⟩ := Bool.or_eq_false_iff.mp hflag
        exact (hrest hflag').trans (hsame hflag)
      · rw [if_neg hu] at hes ⊢
        have hskip : relaxEdge st i e = (st, false) := by
          rw [relaxEdge, if_pos (by rw [Bool.eq_false_iff.mpr hu]; rfl)]
        obtain ⟨htail, hrest⟩ := ih hes h
        have hpass : relaxPass i (e :: es) st = relaxPass (i + 1) es st := by
          rw [relaxPass, hskip]
          rfl
        rw [hpass]
        exact ⟨htail, hrest⟩

/-- **THE PASSES**: after one that changed nothing the rest would change nothing. -/
theorem relaxPasses_holds (hn : n = (PriceGraph.build ops : PriceGraph ExactF64).numTokens)
    {es : List (Edge ExactF64)} (hes : ∀ a ∈ passFrom 0 es, Relaxable ops a) (k : Nat)
    {st : BellmanFordState ExactF64} {L : Labels Nat (Arrow ExactF64) ℝ} (h : Holds n st L) :
    Holds n (relaxPasses es k st)
      ((List.replicate k (passFrom 0 es)).flatten.foldl (relax (rated ops)) L) := by
  -- a pass that changed nothing can be repeated for free
  have hidle : ∀ k st L, (relaxPass 0 es st).2 = false → Holds n st L →
      Holds n st ((List.replicate k (passFrom 0 es)).flatten.foldl (relax (rated ops)) L) := by
    intro k st L hflag h
    induction k generalizing L with
    | zero => exact h
    | succ k ih =>
        rw [List.replicate_succ, List.flatten_cons, List.foldl_append]
        obtain ⟨hpass, hsame⟩ := relaxPass_holds hn hes h
        rw [hsame hflag] at hpass
        exact ih _ hpass
  induction k generalizing st L with
  | zero => exact h
  | succ k ih =>
      obtain ⟨hpass, hsame⟩ := relaxPass_holds hn hes h
      rw [relaxPasses]
      dsimp only
      -- the source breaks out of the loop when a pass changed nothing
      by_cases hflag : (relaxPass 0 es st).2 = true
      · rw [if_pos hflag, List.replicate_succ, List.flatten_cons, List.foldl_append]
        exact ih hpass
      · rw [if_neg hflag]
        have hflag' := Bool.eq_false_iff.mpr hflag
        rw [hsame hflag']
        exact hidle (k + 1) st L hflag' h

end Loop

/-- The labels the relaxation loop computes. -/
noncomputable def labels (ops : List GraphOp) (s : Nat) : Labels Nat (Arrow ExactF64) ℝ :=
  run (rated ops) s (schedule ops)

/-- **THE RELAXATION LOOP** leaves the labels of its schedule in the buffers. -/
theorem relaxFrom_holds (hops : FeesBelowOne ops) {s : Nat}
    (hs : s < (PriceGraph.build ops : PriceGraph ExactF64).numTokens)
    (state : BellmanFordState ExactF64) :
    Holds (PriceGraph.build ops : PriceGraph ExactF64).numTokens
      (relaxFrom (PriceGraph.build ops) s state) (labels ops s) :=
  relaxPasses_holds rfl (fun _ ha => relaxable_of_mem hops ha) _ (holds_source hs state)

/-- Predecessors are usable edges. -/
theorem mem_of_pred {s v : Nat} {a : Arrow ExactF64} (h : (labels ops s).pred v = some a) :
    a ∈ usableEdges ops := by
  obtain ⟨before, after, heq, -⟩ := (pred_eq_some_iff (rated ops) s (schedule ops) v a).mp h
  refine mem_schedule ?_
  rw [heq]
  exact List.mem_append_right before List.mem_cons_self

end MevBellmanFord
