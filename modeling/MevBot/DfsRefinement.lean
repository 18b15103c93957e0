import MevBot.CycleSearch
import MevBot.GraphInvariant
import MevBot.Library.Backtracking

/-! # The depth-first search is the backtracking search

    `dfs_recurse` threads two stacks and a result vector through its loop.
    **`findCyclesDfs_eq`** replaces it by `Backtracking.closures` over the usable
    edges of the graph: the results are the profitable closures, reported in the
    order found.  The two stacks are restored by every branch, so the loop only
    ever appends to the results.  Nothing here depends on the arithmetic. -/

namespace MevDfs

open MevMachine MevTypes MevGraph MevGraphInv MevSearch Backtracking

variable {F : Type} [F64 F]

/-! ## The network of usable edges -/

/-- An edge with its index. -/
abbrev Arrow (F : Type) := Nat × Edge F

/-- The usable edge at an index. -/
def usableArrow (g : PriceGraph F) (i : Nat) : Option (Arrow F) :=
  (g.edges[i]?).bind fun e => if Edge.dfsUsable e then some (i, e) else none

/-- The graph as the search sees it: usable edges, labelled by their pools. -/
def arrows (g : PriceGraph F) : Network Nat (Arrow F) Pubkey where
  out := fun v => (g.edgesFrom v).filterMap (usableArrow g)
  dest := fun a => a.2.dest
  label := fun a => a.2.poolAddress

theorem usableArrow_eq_some (g : PriceGraph F) (i : Nat) (a : Arrow F) :
    usableArrow g i = some a ↔
      a.1 = i ∧ g.edges[i]? = some a.2 ∧ Edge.dfsUsable a.2 = true := by
  obtain ⟨j, e⟩ := a
  rw [usableArrow, Option.bind_eq_some_iff]
  constructor
  · rintro ⟨e', he', h⟩
    by_cases hu : Edge.dfsUsable e' = true
    · rw [if_pos hu] at h
      obtain ⟨rfl, rfl⟩ := Prod.mk.inj (Option.some.inj h)
      exact ⟨rfl, he', hu⟩
    · rw [if_neg hu] at h
      cases h
  · rintro ⟨rfl, he, hu⟩
    exact ⟨e, he, by rw [if_pos hu]⟩

/-- The arrows out of `v` are the usable edges of source `v`. -/
theorem mem_arrows_out {g : PriceGraph F} (hg : GraphInv g) (v : Nat) (a : Arrow F) :
    a ∈ (arrows g).out v ↔
      g.edges[a.1]? = some a.2 ∧ a.2.source = v ∧ Edge.dfsUsable a.2 = true := by
  show a ∈ (g.edgesFrom v).filterMap (usableArrow g) ↔ _
  rw [List.mem_filterMap]
  constructor
  · rintro ⟨i, hi, ha⟩
    obtain ⟨rfl, he, hu⟩ := (usableArrow_eq_some g i a).mp ha
    obtain ⟨e, he', hv⟩ := (hg.mem_edgesFrom v a.1).mp hi
    rw [he] at he'
    obtain rfl := Option.some.inj he'
    exact ⟨he, hv, hu⟩
  · rintro ⟨he, hv, hu⟩
    exact ⟨a.1, (hg.mem_edgesFrom v a.1).mpr ⟨a.2, he, hv⟩,
      (usableArrow_eq_some g a.1 a).mpr ⟨rfl, he, hu⟩⟩

theorem arrows_out_nodup {g : PriceGraph F} (hg : GraphInv g) (v : Nat) :
    ((arrows g).out v).Nodup := by
  refine (hg.edgesFrom_nodup v).filterMap ?_
  intro i j a hi hj
  obtain ⟨hi, -⟩ := (usableArrow_eq_some g i a).mp hi
  obtain ⟨hj, -⟩ := (usableArrow_eq_some g j a).mp hj
  exact hi.symm.trans hj

/-! ## Reports -/

/-- The weights of a path, summed in path order from `0.0`. -/
def weightSum (path : List (Arrow F)) : F := path.foldl (fun w a => w + a.2.weight) 0.0

/-- The result the search records for a cycle. -/
def report (cycle : List (Arrow F)) : ArbPath F :=
  { hops := cycle.map fun a => hopOf a.1 a.2
    profitRatio := F64.exp (-(weightSum cycle))
    estimatedProfitLamports := 0 }

/-- The profit test of the search. -/
def profitable (minProfitRatio : F) (cycle : List (Arrow F)) : Bool :=
  F64.lt (1.0 + minProfitRatio) (F64.exp (-(weightSum cycle)))

/-- The results recorded for the closures `cycles`. -/
def reports (minProfitRatio : F) (cycles : List (List (Arrow F))) : List (ArbPath F) :=
  (cycles.filter (profitable minProfitRatio)).map report

theorem weightSum_concat (path : List (Arrow F)) (a : Arrow F) :
    weightSum (path ++ [a]) = weightSum path + a.2.weight := by
  rw [weightSum, List.foldl_append]
  rfl

theorem reports_append (m : F) (xs ys : List (List (Arrow F))) :
    reports m (xs ++ ys) = reports m xs ++ reports m ys := by
  rw [reports, List.filter_append, List.map_append]
  rfl

/-- A path of edges of the graph is rebuilt from its indices. -/
theorem buildArbPath_report (g : PriceGraph F) (path : List (Arrow F))
    (hpath : ∀ a ∈ path, g.edges[a.1]? = some a.2) :
    buildArbPathFromEdges g (path.map (·.1)) (F64.exp (-(weightSum path))) = report path := by
  have hhops : (path.map (·.1)).filterMap (fun idx => (g.edges[idx]?).map (hopOf idx)) =
      path.map fun a => hopOf a.1 a.2 := by
    rw [List.filterMap_map, ← List.filterMap_eq_map]
    refine List.filterMap_congr ?_
    intro a ha
    show (g.edges[a.1]?).map (hopOf a.1) = some (hopOf a.1 a.2)
    rw [hpath a ha]
    rfl
  rw [buildArbPathFromEdges, hhops]
  rfl

/-! ## The loop -/

/-- The state with more results. -/
def withResults (st : DfsState F) (rs : List (ArbPath F)) : DfsState F :=
  { st with results := st.results ++ rs }

omit [F64 F] in
theorem withResults_nil (st : DfsState F) : withResults st [] = st := by
  rw [withResults, List.append_nil]

omit [F64 F] in
theorem withResults_append (st : DfsState F) (rs rs' : List (ArbPath F)) :
    withResults (withResults st rs) rs' = withResults st (rs ++ rs') := by
  rw [withResults, withResults, withResults, List.append_assoc]

/-- The stacks of the search hold `path`. -/
structure Stacked (g : PriceGraph F) (path : List (Arrow F)) (st : DfsState F) : Prop where
  edges : ∀ a ∈ path, g.edges[a.1]? = some a.2
  stack : st.path = path.map (·.1)
  pools : st.visitedPools = path.map (·.2.poolAddress)

omit [F64 F] in
theorem Stacked.withResults {g : PriceGraph F} {path : List (Arrow F)} {st : DfsState F}
    (h : Stacked g path st) (rs : List (ArbPath F)) : Stacked g path (withResults st rs) :=
  ⟨h.edges, h.stack, h.pools⟩

omit [F64 F] in
theorem Stacked.push {g : PriceGraph F} {path : List (Arrow F)} {st : DfsState F}
    (h : Stacked g path st) {a : Arrow F} (ha : g.edges[a.1]? = some a.2) :
    Stacked g (path ++ [a]) (st.push a.1 a.2.poolAddress) := by
  refine ⟨?_, ?_, ?_⟩
  · intro b hb
    rcases List.mem_append.mp hb with hb | hb
    · exact h.edges b hb
    · rw [List.mem_singleton.mp hb]
      exact ha
  · rw [DfsState.push, h.stack, List.map_append]
    rfl
  · rw [DfsState.push, h.pools, List.map_append]
    rfl

omit [F64 F] in
/-- A branch pops exactly what it pushed. -/
theorem pop_push (st : DfsState F) (i : Nat) (p : Pubkey) (rs : List (ArbPath F)) :
    (MevDfs.withResults (st.push i p) rs).pop = MevDfs.withResults st rs := by
  simp [MevDfs.withResults, DfsState.push, DfsState.pop]

/-- The closing branch records its cycle if it is profitable. -/
theorem close_eq {g : PriceGraph F} {path : List (Arrow F)} {st : DfsState F}
    (h : Stacked g path st) (m : F) {a : Arrow F} (ha : g.edges[a.1]? = some a.2) :
    st.close g m (weightSum path + a.2.weight) a.1 = withResults st (reports m [path ++ [a]]) := by
  have hpush := h.push ha
  have hpath : st.path ++ [a.1] = (path ++ [a]).map (·.1) := hpush.stack
  have hbuild := buildArbPath_report g (path ++ [a]) hpush.edges
  rw [← weightSum_concat]
  simp only [DfsState.close, List.dropLast_concat]
  rw [hpath, hbuild]
  -- the path is pushed for the report only, and popped either way
  by_cases hp : profitable m (path ++ [a]) = true
  · rw [reports, List.filter_cons_of_pos hp, if_pos (show F64.lt _ _ = true from hp)]
    rfl
  · rw [reports, List.filter_cons_of_neg hp, if_neg (show ¬F64.lt _ _ = true from hp)]
    exact (withResults_nil st).symm

/-- What the search lists for one edge of the loop. -/
def branch (g : PriceGraph F) (target k : Nat) (path : List (Arrow F)) (a : Arrow F) :
    List (List (Arrow F)) :=
  if (arrows g).label a ∈ path.map (arrows g).label then []
  else if (arrows g).dest a = target ∧ path ≠ [] then [path ++ [a]]
  else closures (arrows g) target k ((arrows g).dest a) (path ++ [a])

/-- A usable edge continues the search along its branch. -/
theorem dfsEdge_usable {g : PriceGraph F} {path : List (Arrow F)} {st : DfsState F}
    (h : Stacked g path st) (target k : Nat) (m : F) (recurse : Nat → F → DfsState F → DfsState F)
    (hrecurse : ∀ current path' st', Stacked g path' st' →
      recurse current (weightSum path') st' =
        withResults st' (reports m (closures (arrows g) target k current path')))
    {i : Nat} {e : Edge F} (he : g.edges[i]? = some e) (hu : Edge.dfsUsable e = true) :
    dfsEdge g target m (k + 1) (weightSum path) recurse st i =
      withResults st (reports m (branch g target k path (i, e))) := by
  rw [dfsEdge, he]
  show (if (!Edge.dfsUsable e) = true then st else _) = _
  rw [if_neg (by rw [hu]; decide), branch]
  -- `visited_pools` holds the pools of the path, so it is the label test
  by_cases hpool : e.poolAddress ∈ st.visitedPools
  · have hlabel : (arrows g).label (i, e) ∈ path.map (arrows g).label := by
      rw [h.pools] at hpool
      exact hpool
    rw [if_pos hpool, if_pos hlabel]
    exact (withResults_nil st).symm
  · have hlabel : (arrows g).label (i, e) ∉ path.map (arrows g).label := by
      rw [h.pools] at hpool
      exact hpool
    rw [if_neg hpool, if_neg hlabel]
    have hclose : (e.dest = target ∧ st.path ≠ []) ↔
        ((arrows g).dest (i, e) = target ∧ path ≠ []) := by
      rw [h.stack, ne_eq, List.map_eq_nil_iff]
      exact Iff.rfl
    by_cases hc : e.dest = target ∧ st.path ≠ []
    · rw [if_pos (hclose.mp hc)]
      show (if e.dest = target ∧ st.path ≠ [] then _ else _) = _
      rw [if_pos hc]
      exact close_eq h m (a := (i, e)) he
    · rw [if_neg fun hc' => hc (hclose.mpr hc')]
      show (if e.dest = target ∧ st.path ≠ [] then _ else _) = _
      rw [if_neg hc]
      have hrec := hrecurse e.dest (path ++ [(i, e)]) _ (h.push (a := (i, e)) he)
      rw [weightSum_concat] at hrec
      -- the guard `remaining_hops > 1` stops where the search has no depth left
      cases k with
      | zero => exact (withResults_nil st).symm
      | succ k =>
          rw [if_pos (Nat.succ_lt_succ (Nat.succ_pos k)), hrec]
          exact pop_push st i e.poolAddress _

/-- **ONE EDGE OF THE LOOP** appends the reports of its branch. -/
theorem dfsEdge_eq {g : PriceGraph F} {path : List (Arrow F)} {st : DfsState F}
    (h : Stacked g path st) (target k : Nat) (m : F) (recurse : Nat → F → DfsState F → DfsState F)
    (hrecurse : ∀ current path' st', Stacked g path' st' →
      recurse current (weightSum path') st' =
        withResults st' (reports m (closures (arrows g) target k current path')))
    (i : Nat) :
    dfsEdge g target m (k + 1) (weightSum path) recurse st i =
      withResults st (reports m ((usableArrow g i).elim [] (branch g target k path))) := by
  cases he : g.edges[i]? with
  | none =>
      rw [dfsEdge, usableArrow, he]
      exact (withResults_nil st).symm
  | some e =>
      by_cases hu : Edge.dfsUsable e = true
      · have harrow : usableArrow g i = some (i, e) :=
          (usableArrow_eq_some g i (i, e)).mpr ⟨rfl, he, hu⟩
        rw [harrow]
        exact dfsEdge_usable h target k m recurse hrecurse he hu
      · have harrow : usableArrow g i = none := by
          rw [usableArrow, he]
          exact if_neg hu
        rw [harrow, dfsEdge, he]
        show (if (!Edge.dfsUsable e) = true then st else _) = _
        rw [if_pos (by rw [Bool.eq_false_iff.mpr hu]; rfl)]
        exact (withResults_nil st).symm

/-- The loop over a list of edges, given what each edge of it does. -/
theorem foldl_dfsEdge {g : PriceGraph F} {path : List (Arrow F)} (m : F)
    (step : DfsState F → Nat → DfsState F) (branches : Arrow F → List (List (Arrow F)))
    (hstep : ∀ st i, Stacked g path st →
      step st i = withResults st (reports m ((usableArrow g i).elim [] branches)))
    (idxs : List Nat) (st : DfsState F) (h : Stacked g path st) :
    idxs.foldl step st =
      withResults st (reports m ((idxs.filterMap (usableArrow g)).flatMap branches)) := by
  induction idxs generalizing st with
  | nil => exact (withResults_nil st).symm
  | cons i idxs ih =>
      rw [List.foldl_cons, hstep st i h, ih _ (h.withResults _), withResults_append,
        ← reports_append]
      cases hi : usableArrow g i with
      | none =>
          rw [List.filterMap_cons_none hi]
          rfl
      | some a =>
          rw [List.filterMap_cons_some hi, List.flatMap_cons]
          rfl

/-- **THE RECURSION** appends the reports of the closures of its path. -/
theorem dfsRecurse_eq (g : PriceGraph F) (target : Nat) (m : F) (k current : Nat)
    (path : List (Arrow F)) (st : DfsState F) (h : Stacked g path st) :
    dfsRecurse g target m k current (weightSum path) st =
      withResults st (reports m (closures (arrows g) target k current path)) := by
  induction k generalizing current path st with
  | zero => exact (withResults_nil st).symm
  | succ k ih =>
      refine foldl_dfsEdge m _ (branch g target k path) ?_ (g.edgesFrom current) st h
      intro st' i h'
      exact dfsEdge_eq h' target k m _ (fun current path' st' h => ih current path' st' h) i

/-- **THE SEARCH** reports the profitable closures of its source. -/
theorem findCyclesDfs_eq (g : PriceGraph F) (source maxHops : Nat) (m : F) :
    findCyclesDfs g source maxHops m =
      reports m (closures (arrows g) source maxHops source []) := by
  have h := dfsRecurse_eq g source m maxHops source [] ⟨[], [], []⟩
    ⟨fun a ha => absurd ha List.not_mem_nil, rfl, rfl⟩
  rw [findCyclesDfs]
  exact congrArg DfsState.results h

/-! ## What a result is -/

/-- A result is the report of a profitable cycle of usable edges. -/
theorem mem_findCyclesDfs (g : PriceGraph F) (source maxHops : Nat) (m : F) (p : ArbPath F) :
    p ∈ findCyclesDfs g source maxHops m ↔
      ∃ cycle, (arrows g).Cycle source cycle ∧ cycle.length ≤ maxHops ∧
        profitable m cycle = true ∧ report cycle = p := by
  rw [findCyclesDfs_eq, reports, List.mem_map]
  constructor
  · rintro ⟨cycle, hmem, hp⟩
    obtain ⟨hc, hprofit⟩ := List.mem_filter.mp hmem
    obtain ⟨hcycle, hlen⟩ := (mem_closures_iff_cycle _ _ _ _).mp hc
    exact ⟨cycle, hcycle, hlen, hprofit, hp⟩
  · rintro ⟨cycle, hcycle, hlen, hprofit, hp⟩
    exact ⟨cycle, List.mem_filter.mpr
      ⟨(mem_closures_iff_cycle _ _ _ _).mpr ⟨hcycle, hlen⟩, hprofit⟩, hp⟩

/-- A nonempty trail from `v` is a joined sequence of usable edges starting there. -/
theorem trail_cons_iff {g : PriceGraph F} (hg : GraphInv g) (v : Nat) (a : Arrow F)
    (path : List (Arrow F)) :
    (arrows g).Trail v (a :: path) ↔
      a.2.source = v ∧
        (∀ b ∈ a :: path, g.edges[b.1]? = some b.2 ∧ Edge.dfsUsable b.2 = true) ∧
        (a :: path).IsChain fun a b => a.2.dest = b.2.source := by
  -- the walk is joined where each edge starts at the end of the one before
  induction path generalizing v a with
  | nil =>
      rw [Network.Trail, mem_arrows_out hg]
      constructor
      · rintro ⟨⟨he, hv, hu⟩, -⟩
        refine ⟨hv, ?_, List.IsChain.singleton a⟩
        intro b hb
        rw [List.mem_singleton.mp hb]
        exact ⟨he, hu⟩
      · rintro ⟨hv, hall, -⟩
        obtain ⟨he, hu⟩ := hall a List.mem_cons_self
        exact ⟨⟨he, hv, hu⟩, trivial⟩
  | cons b path ih =>
      rw [List.isChain_cons_cons]
      constructor
      · rintro ⟨ha, htrail⟩
        obtain ⟨he, hv, hu⟩ := (mem_arrows_out hg v a).mp ha
        obtain ⟨hb, hall, hchain⟩ := (ih _ b).mp htrail
        refine ⟨hv, ?_, hb.symm, hchain⟩
        intro c hc
        rcases List.mem_cons.mp hc with rfl | hc
        · exact ⟨he, hu⟩
        · exact hall c hc
      · rintro ⟨hv, hall, hb, hchain⟩
        obtain ⟨he, hu⟩ := hall a List.mem_cons_self
        exact ⟨(mem_arrows_out hg v a).mpr ⟨he, hv, hu⟩, (ih _ b).mpr
          ⟨hb.symm, fun c hc => hall c (List.mem_cons_of_mem a hc), hchain⟩⟩

/-- A trail runs over usable edges of the graph. -/
theorem trail_edges {g : PriceGraph F} (hg : GraphInv g) {v : Nat} {path : List (Arrow F)}
    (h : (arrows g).Trail v path) {a : Arrow F} (ha : a ∈ path) :
    g.edges[a.1]? = some a.2 ∧ Edge.dfsUsable a.2 = true := by
  cases path with
  | nil => exact absurd ha List.not_mem_nil
  | cons b path => exact ((trail_cons_iff hg v b path).mp h).2.1 a ha

end MevDfs
