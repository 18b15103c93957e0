import MevBot.CycleTracing

/-! # The predecessor graph after the relaxation loop

    The predecessor entries form a graph with at most one edge into each token.
    When the relaxation loop is done its edges account for the distances, its
    closed walks are negative, and a walk back of `n` steps that completes stands
    on a cycle of at most `n` edges.  So `trace_cycle` gets back to where it
    stands, and the guard on the length of its path never fires
    (`relaxFrom_sound`). -/

namespace MevPredecessors

open MevMachine MevTypes MevGraph MevGraphInv MevSearch MevDfs MevRates MevExact ExactF64
open MevBellmanFord MevTracing Relaxation ParentChain

/-- The entry of the token an edge ends in names the edge. -/
structure IsPredecessor (ops : List GraphOp) (st : BellmanFordState ExactF64)
    (a : Arrow ExactF64) : Prop where
  edge : (PriceGraph.build ops).edges[a.1]? = some a.2
  stored : st.predAt a.2.dest = some a.1

/-- A nonempty closed walk of the predecessor graph. -/
structure ClosedWalk (ops : List GraphOp) (st : BellmanFordState ExactF64) (v : Nat)
    (c : List (Arrow ExactF64)) : Prop where
  nonempty : c ≠ []
  walk : (rated ops).Walk v c v
  predecessor : ∀ a ∈ c, IsPredecessor ops st a

/-- The second loop of `trace_cycle` from `cycleStart` returns there after at most
    as many edges as there are tokens, whatever bound its guard puts on the path. -/
def Returns (ops : List GraphOp) (st : BellmanFordState ExactF64) (cycleStart : Nat) : Prop :=
  ∀ visited, ∃ visited' c, ClosedWalk ops st cycleStart c ∧ c.length ≤ size ops ∧
    ∀ guard fuel, size ops ≤ guard → size ops ≤ fuel →
      traceLoop (PriceGraph.build ops) st guard cycleStart fuel cycleStart [] visited =
        (visited', some (c.map (·.1)).reverse)

/-- What the relaxation loop leaves in the buffers. -/
structure SoundPredecessors (ops : List GraphOp) (st : BellmanFordState ExactF64) : Prop where
  tight : ∀ v < size ops, ∀ i, st.predAt v = some i →
    ∃ e, (PriceGraph.build ops).edges[i]? = some e ∧ e.dest = v ∧ ∃ d d' w : ℝ,
      st.distAt v = fin d ∧ st.distAt e.source = fin d' ∧ e.weight = fin w ∧ d' + w ≤ d
  negative : ∀ v c, ClosedWalk ops st v c → ∃ w < 0, weightSum c = fin w
  traced : ∀ start < size ops, ∀ cycleStart,
    walkBack (PriceGraph.build ops) st (size ops) start = some cycleStart →
      Returns ops st cycleStart

variable {ops : List GraphOp} {s : Nat} {st : BellmanFordState ExactF64}

/-! ## The entries and the labels -/

/-- An entry of the buffers is a predecessor of the labels. -/
theorem pred_of_isPredecessor (h : Holds (size ops) st (labels ops s)) {a : Arrow ExactF64}
    (ha : IsPredecessor ops st a) : (labels ops s).pred a.2.dest = some a := by
  have hlt : a.2.dest < size ops := (GraphInv.build ops).dest_lt ha.edge
  rcases predAt_cases h hlt with ⟨-, hst⟩ | ⟨b, hp, hst, he⟩
  · have hstored := ha.stored
    rw [hst] at hstored
    cases hstored
  · have hi : b.1 = a.1 := Option.some.inj (hst.symm.trans ha.stored)
    rw [hi, ha.edge] at he
    rw [hp, ← Prod.ext hi.symm (Option.some.inj he)]

theorem isPredecessor_of_pred (hops : FeesBelowOne ops) (h : Holds (size ops) st (labels ops s))
    {a : Arrow ExactF64} (hp : (labels ops s).pred a.2.dest = some a) :
    IsPredecessor ops st a := by
  have ha := mem_of_pred hp
  refine ⟨(mem_usableEdges.mp ha).1, ?_⟩
  rw [h.pred _ (relaxable_of_mem hops ha).dest_lt, hp]
  rfl

/-! ## The theorem -/

/-- A predecessor edge accounts for the distance of its token. -/
theorem tight_of_holds (hops : FeesBelowOne ops) (h : Holds (size ops) st (labels ops s)) {v : Nat}
    (hv : v < size ops) {i : Nat} (hi : st.predAt v = some i) :
    ∃ e, (PriceGraph.build ops).edges[i]? = some e ∧ e.dest = v ∧ ∃ d d' w : ℝ,
      st.distAt v = fin d ∧ st.distAt e.source = fin d' ∧ e.weight = fin w ∧ d' + w ≤ d := by
  have hkept : Kept (rated ops) (labels ops s) := Kept.run (rated ops) s (schedule ops)
  rcases predAt_cases h hv with ⟨-, hst⟩ | ⟨a, hp, hst, he⟩
  · rw [hst] at hi
    cases hi
  · obtain rfl : a.1 = i := Option.some.inj (hst.symm.trans hi)
    have ha := relaxable_of_mem hops (mem_of_pred hp)
    have htight := hkept.tight v a hp
    refine ⟨a.2, he, hkept.ends v a hp, ?_⟩
    rw [h.dist v hv, h.dist _ ha.source_lt, ha.weight]
    -- a token with a predecessor has a finite distance, and so has the one before it
    obtain ⟨d, hd⟩ := WithTop.ne_top_iff_exists.mp (hkept.finite v a hp)
    rw [← hd] at htight
    obtain ⟨d', hd'⟩ : ∃ d' : ℝ, d' = (labels ops s).dist a.2.source := by
      refine WithTop.ne_top_iff_exists.mp fun htop => ?_
      rw [show (rated ops).src a = a.2.source from rfl, htop, WithTop.top_add] at htight
      exact WithTop.coe_ne_top (top_le_iff.mp htight)
    rw [show (rated ops).src a = a.2.source from rfl, ← hd', ← WithTop.coe_add,
      WithTop.coe_le_coe] at htight
    rw [← hd, ← hd']
    exact ⟨d, d', _, rfl, rfl, rfl, htight⟩

/-- A closed walk of predecessor edges is negative. -/
theorem negative_of_holds (hops : FeesBelowOne ops) (h : Holds (size ops) st (labels ops s))
    {v : Nat} {c : List (Arrow ExactF64)} (hc : ClosedWalk ops st v c) :
    ∃ w < 0, weightSum c = fin w := by
  have hkept : Kept (rated ops) (labels ops s) := Kept.run (rated ops) s (schedule ops)
  have hfollowed : Followed (rated ops) (labels ops s) c :=
    fun a ha => pred_of_isPredecessor h (hc.predecessor a ha)
  have husable : ∀ a ∈ c, a ∈ usableEdges ops := fun a ha => mem_of_pred (hfollowed a ha)
  refine ⟨(rated ops).weightOf c, hkept.closed_neg (rated ops) hc.nonempty hc.walk hfollowed, ?_⟩
  rw [weightSum_eq (weighed_of_usable hops husable), weightOf_eq hops husable]

/-- A walk back that completes is followed by a trace that does. -/
theorem returns_of_holds (hops : FeesBelowOne ops) (h : Holds (size ops) st (labels ops s))
    {start : Nat} (hstart : start < size ops) {cycleStart : Nat}
    (hwalk : walkBack (PriceGraph.build ops) st (size ops) start = some cycleStart) :
    Returns ops st cycleStart := by
  intro visited
  rw [walkBack_eq hops h _ hstart] at hwalk
  obtain ⟨visited', c, hcycle, hcw, hlen, hloop⟩ :=
    traceLoop_of_walkBack hops h hstart hwalk visited
  refine ⟨visited', c, ⟨hcycle.nonempty, hcw, ?_⟩, hlen, hloop⟩
  intro a ha
  exact isPredecessor_of_pred hops h (hcycle.followed a ha)

/-- **AFTER THE RELAXATION LOOP** the predecessors account for the distances, go
    round negative cycles only, and are traced back within `n` edges. -/
theorem relaxFrom_sound (hops : FeesBelowOne ops) (hs : s < size ops)
    (state : BellmanFordState ExactF64) :
    SoundPredecessors ops (relaxFrom (PriceGraph.build ops) s state) := by
  have h : Holds (size ops) (relaxFrom (PriceGraph.build ops) s state) (labels ops s) :=
    relaxFrom_holds hops hs state
  exact
    { tight := fun _ hv _ hi => tight_of_holds hops h hv hi
      negative := fun _ _ hc => negative_of_holds hops h hc
      traced := fun _ hstart _ hwalk => returns_of_holds hops h hstart hwalk }

/-- The two sample pools, from the first token. -/
theorem twoPools_sound :
    SoundPredecessors twoPools
      (relaxFrom (PriceGraph.build twoPools) 0 (BellmanFordState.new 2)) :=
  relaxFrom_sound twoPools_fees (by decide) (BellmanFordState.new 2)

end MevPredecessors
