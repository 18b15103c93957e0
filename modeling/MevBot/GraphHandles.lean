import MevBot.BackrunTrades
import MevBot.GraphStructure
import MevBot.Library.FirstSeen

/-! # The handles of the graph

    Edges name their tokens by index, and a found cycle names its edges by
    index.  The graph never forgets: its registry holds the mints and its edge
    vector the pool directions that funded pools have shown, in order of first
    sight, each once.  So an index read off any graph of a strategy, the
    published snapshot too, stands for the same token or pool direction in every
    later one (`handles_kept`); and neither vector ever shrinks, `remove_pool`
    included. -/

namespace MevHandles

open MevMachine MevTypes MevGraph MevGraphInv MevGraphStructure MevStrategy MevBackrunTrades
open FirstSeen
open MevHistory hiding run_concat

/-! ## What the graph has learned -/

section Learned

variable {F : Type}

/-- The registry learns the mint. -/
theorem getOrInsert_learns {t : TokenRegistry} (h : RegistryInv t) (mint : Pubkey) :
    (t.getOrInsert mint).1.indexToMint = learn t.indexToMint mint := by
  rw [TokenRegistry.getOrInsert]
  cases hmint : t.mintToIndex mint with
  | some idx =>
      rw [learn_known (List.mem_of_getElem? ((h mint idx).mp hmint))]
  | none =>
      rw [learn_new]
      intro hmem
      obtain ⟨i, hi⟩ := List.mem_iff_getElem?.mp hmem
      exact h.not_at hmint i hi

/-- A repricing changes no key. -/
theorem modify_keys (edges : List (Edge F)) (i : Nat) (w r : F) (l s : UInt64) :
    (edges.modify i fun old => old.reprice w r l s).map edgeKey = edges.map edgeKey := by
  refine List.ext_getElem? fun j => ?_
  rw [List.getElem?_map, List.getElem?_map, List.getElem?_modify]
  cases edges[j]? with
  | none => rfl
  | some old =>
      show some (edgeKey (if i = j then old.reprice w r l s else old)) = some (edgeKey old)
      split
      · rfl
      · rfl

/-- The edge vector learns the key of the edge. -/
theorem upsertEdge_learns {g : PriceGraph F} (h : GraphInv g) (e : Edge F) :
    (g.upsertEdge e).edges.map edgeKey = learn (g.edges.map edgeKey) (edgeKey e) := by
  cases hkey : g.poolEdgeIndex (e.poolAddress, e.sourceMint) with
  | some i =>
      obtain ⟨old, hold, hpool, hmint⟩ := (h.index _ _ i).mp hkey
      rw [upsertEdge_known hkey, learn_known]
      · exact modify_keys _ _ _ _ _ _
      · refine List.mem_map.mpr ⟨old, List.mem_of_getElem? hold, ?_⟩
        rw [edgeKey, edgeKey, hpool, hmint]
  | none =>
      rw [upsertEdge_unknown hkey, learn_new]
      · exact List.map_append
      · intro hmem
        obtain ⟨old, hold, hsame⟩ := List.mem_map.mp hmem
        obtain ⟨i, hi⟩ := List.mem_iff_getElem?.mp hold
        obtain ⟨hpool, hmint⟩ := Prod.mk.inj hsame
        rw [(h.index _ _ i).mpr ⟨old, hi, hpool, hmint⟩] at hkey
        cases hkey

/-- The mints an operation shows. -/
def mintsOf : GraphOp → List Pubkey
  | .updatePool pool => if Funded pool then [pool.tokenAMint, pool.tokenBMint] else []
  | .removePool _ => []

/-- The pool directions an operation shows. -/
def directionsOf : GraphOp → List (Pubkey × Pubkey)
  | .updatePool pool =>
      if Funded pool then [(pool.address, pool.tokenAMint), (pool.address, pool.tokenBMint)]
      else []
  | .removePool _ => []

/-- One operation: the graph learns what it shows. -/
theorem apply_learns [F64 F] {g : PriceGraph F} (h : GraphInv g) (op : GraphOp) :
    (g.apply op).tokens.indexToMint = (mintsOf op).foldl learn g.tokens.indexToMint ∧
      (g.apply op).edges.map edgeKey = (directionsOf op).foldl learn (g.edges.map edgeKey) := by
  cases op with
  | updatePool pool =>
      rw [PriceGraph.apply, mintsOf, directionsOf]
      by_cases hpool : Funded pool
      · have hfirst := getOrInsert_inserted h.registry pool.tokenAMint
        obtain ⟨hreg, ha, hb⟩ := h.registerMints pool.tokenAMint pool.tokenBMint
        have hAB := hreg.upsertEdge (e := edgeAB g pool) ha hb
        rw [updatePool_funded g hpool, if_pos hpool, if_pos hpool]
        constructor
        · rw [tokens_upsertEdge, tokens_upsertEdge]
          show ((g.tokens.getOrInsert _).1.getOrInsert _).1.indexToMint = _
          rw [getOrInsert_learns hfirst.inv, getOrInsert_learns h.registry]
          rfl
        · rw [upsertEdge_learns hAB, upsertEdge_learns hreg]
          rfl
      · rw [updatePool_unfunded g hpool, if_neg hpool, if_neg hpool]
        exact ⟨rfl, rfl⟩
  | removePool p =>
      refine ⟨rfl, ?_⟩
      show (g.edges.map _).map edgeKey = g.edges.map edgeKey
      rw [List.map_map]
      refine List.map_congr_left fun e _ => ?_
      show edgeKey (if e.poolAddress = p then e.invalidate else e) = edgeKey e
      split
      · rfl
      · rfl

/-- **IN ORDER OF FIRST SIGHT**, after any updates and removals. -/
theorem build_learns [F64 F] (ops : List GraphOp) :
    (PriceGraph.build ops : PriceGraph F).tokens.indexToMint =
        (ops.flatMap mintsOf).eraseDups ∧
      (PriceGraph.build ops : PriceGraph F).edges.map edgeKey =
        (ops.flatMap directionsOf).eraseDups := by
  induction ops using List.reverseRecOn with
  | nil => exact ⟨rfl, rfl⟩
  | append_singleton ops op ih =>
      obtain ⟨hmints, hdirections⟩ := apply_learns (GraphInv.build (F := F) ops) op
      rw [build_concat, hmints, hdirections, ih.1, ih.2, foldl_learn, foldl_learn,
        List.flatMap_append, List.flatMap_append, List.flatMap_singleton,
        List.flatMap_singleton]
      exact ⟨rfl, rfl⟩

end Learned

/-! ## What later graphs keep -/

section Kept

variable {F : Type}

/-- The same edge at another price. -/
def Repriced (e e' : Edge F) : Prop :=
  ∃ weight rate liquidity slot, e' = e.reprice weight rate liquidity slot

/-- At its own price. -/
theorem Repriced.refl (e : Edge F) : Repriced e e :=
  ⟨e.weight, e.rate, e.liquidity, e.lastUpdatedSlot, rfl⟩

/-- Repriced twice is repriced once. -/
theorem Repriced.trans {e e' e'' : Edge F} (h : Repriced e e') (h' : Repriced e' e'') :
    Repriced e e'' := by
  obtain ⟨_, _, _, _, rfl⟩ := h
  obtain ⟨weight, rate, liquidity, slot, rfl⟩ := h'
  exact ⟨weight, rate, liquidity, slot, rfl⟩

/-- What an index stands for in one graph it stands for in the other. -/
structure Kept (g g' : PriceGraph F) : Prop where
  tokens : ∀ i mint, g.tokens.getMint i = some mint → g'.tokens.getMint i = some mint
  edges : ∀ (i : Nat) (e : Edge F), g.edges[i]? = some e →
    ∃ e', g'.edges[i]? = some e' ∧ Repriced e e'

/-- A graph keeps itself. -/
theorem Kept.refl (g : PriceGraph F) : Kept g g :=
  ⟨fun _ _ h => h, fun _ e h => ⟨e, h, Repriced.refl e⟩⟩

/-- What is kept twice is kept throughout. -/
theorem Kept.trans {g g' g'' : PriceGraph F} (h : Kept g g') (h' : Kept g' g'') : Kept g g'' := by
  refine ⟨fun i mint hi => h'.tokens i mint (h.tokens i mint hi), ?_⟩
  intro i e he
  obtain ⟨e', he', hpriced⟩ := h.edges i e he
  obtain ⟨e'', he'', hpriced'⟩ := h'.edges i e' he'
  exact ⟨e'', he'', hpriced.trans hpriced'⟩

/-- An upsert reprices an edge in place, or adds one behind all others. -/
theorem kept_upsertEdge (g : PriceGraph F) (e : Edge F) : Kept g (g.upsertEdge e) := by
  refine ⟨?_, ?_⟩
  · intro i mint hi
    rw [tokens_upsertEdge]
    exact hi
  · intro i old hold
    cases hkey : g.poolEdgeIndex (e.poolAddress, e.sourceMint) with
    | none =>
        rw [upsertEdge_unknown hkey]
        exact ⟨old, (getElem?_concat_iff _ _ _ _).mpr (Or.inl hold), Repriced.refl old⟩
    | some k =>
        rw [upsertEdge_known hkey]
        refine ⟨_, (getElem?_modify_reprice _ _ _ _ _ _ _ _).mpr ⟨old, hold, rfl⟩, ?_⟩
        split
        · exact ⟨_, _, _, _, rfl⟩
        · exact Repriced.refl old

/-- One operation keeps every index. -/
theorem kept_apply [F64 F] {g : PriceGraph F} (h : GraphInv g) (op : GraphOp) :
    Kept g (g.apply op) := by
  cases op with
  | updatePool pool =>
      rw [PriceGraph.apply]
      by_cases hpool : Funded pool
      · rw [updatePool_funded g hpool]
        have ha := getOrInsert_inserted h.registry pool.tokenAMint
        have hb := getOrInsert_inserted ha.inv pool.tokenBMint
        have hregistered : Kept g (registerMints g pool.tokenAMint pool.tokenBMint) :=
          ⟨fun i mint hi => hb.kept i mint (ha.kept i mint hi),
            fun _ e he => ⟨e, he, Repriced.refl e⟩⟩
        exact (hregistered.trans (kept_upsertEdge _ _)).trans (kept_upsertEdge _ _)
      · rw [updatePool_unfunded g hpool]
        exact Kept.refl g
  | removePool p =>
      refine ⟨fun _ _ hi => hi, ?_⟩
      intro i e he
      refine ⟨if e.poolAddress = p then e.invalidate else e, ?_, ?_⟩
      · show (g.edges.map _)[i]? = _
        rw [List.getElem?_map, he]
        rfl
      · -- an invalidated edge keeps its slot
        split
        · exact ⟨F64.infinity, 0.0, 0, e.lastUpdatedSlot, rfl⟩
        · exact Repriced.refl e

/-- So does any number of them, after any history. -/
theorem kept_build [F64 F] (ops more : List GraphOp) :
    Kept (PriceGraph.build ops : PriceGraph F) (PriceGraph.build (ops ++ more)) := by
  induction more using List.reverseRecOn with
  | nil =>
      rw [List.append_nil]
      exact Kept.refl _
  | append_singleton more op ih =>
      rw [← List.append_assoc, build_concat]
      exact ih.trans (kept_apply (GraphInv.build _) op)

end Kept

/-! ## The strategy -/

section Strategy

variable {F : Type} [F64 F]

/-- What was published after a first part of the operations is kept in what is
    published later. -/
theorem kept_published (ops more : List GraphOp) :
    Kept (PriceGraph.build (ops.take (ops.length - ops.length % 100)) : PriceGraph F)
      (PriceGraph.build ((ops ++ more).take
        ((ops ++ more).length - (ops ++ more).length % 100))) := by
  have hle : ops.length - ops.length % 100 ≤
      (ops ++ more).length - (ops ++ more).length % 100 := by
    rw [List.length_append]
    omega
  obtain ⟨rest, hrest⟩ : ops.take (ops.length - ops.length % 100) <+:
      (ops ++ more).take ((ops ++ more).length - (ops ++ more).length % 100) := by
    have htake : (ops ++ more).take (ops.length - ops.length % 100) =
        ops.take (ops.length - ops.length % 100) :=
      List.take_append_of_le_length (Nat.sub_le _ _)
    rw [← htake]
    exact List.take_prefix_take_left hle
  rw [← hrest]
  exact kept_build _ rest

/-- **AN INDEX GIVEN OUT KEEPS ITS MEANING**: in every history of updates the registry and
    the edge vector are the mints and pool directions of the funded pools, in order of
    first sight, each once; so an index into a graph of the strategy, or into a snapshot,
    stands for the same token and the same edge, but for its price, ever after. -/
theorem handles_kept (minProfit : Int64) (maxHops : Nat) (anchors : List Pubkey)
    (us more : List CachedUpdate) :
    let s := (DexArbStrategy.new minProfit maxHops anchors : DexArbStrategy F).run us
    let later := (DexArbStrategy.new minProfit maxHops anchors : DexArbStrategy F).run
      (us ++ more)
    (s.mutableGraph.tokens.indexToMint = ((historyOf F us).flatMap mintsOf).eraseDups ∧
      s.mutableGraph.edges.map edgeKey = ((historyOf F us).flatMap directionsOf).eraseDups) ∧
    Kept s.graph s.mutableGraph ∧ Kept s.mutableGraph later.mutableGraph ∧
    Kept s.graph later.graph := by
  intro s later
  have hs := published_run (F := F) minProfit maxHops anchors us
  have hlater := published_run (F := F) minProfit maxHops anchors (us ++ more)
  have hops : historyOf F (us ++ more) = historyOf F us ++ historyOf F more :=
    List.filterMap_append
  rw [hops] at hlater
  refine ⟨?_, ?_, ?_, ?_⟩
  · rw [hs.mutableGraph]
    exact build_learns (historyOf F us)
  · rw [hs.graph, hs.mutableGraph]
    have hkept := kept_build (F := F)
      ((historyOf F us).take ((historyOf F us).length - (historyOf F us).length % 100))
      ((historyOf F us).drop ((historyOf F us).length - (historyOf F us).length % 100))
    rw [List.take_append_drop] at hkept
    exact hkept
  · rw [hs.mutableGraph, hlater.mutableGraph]
    exact kept_build _ _
  · rw [hs.graph, hlater.graph]
    exact kept_published _ _

end Strategy

end MevHandles
