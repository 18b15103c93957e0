import Mathlib.Logic.Equiv.Defs
import Mathlib.Data.Fin.Basic
import MevBot.GraphInvariant

/-! # The four structures of a price graph agree

    A price graph is kept in four redundant structures: the token registry, the
    edge vector, the adjacency lists and the edge index map.  In every graph that
    `update_pool` and `remove_pool` build they agree (`graph_consistent`): the
    two maps are bijections onto index ranges, and every index a search follows
    is in range. -/

namespace MevGraphStructure

open MevMachine MevTypes MevGraph MevGraphInv

/-! ## Maps onto an index range -/

/-- The map is a bijection from the keys it knows to the indices below `n`. -/
def IndexBijection {α : Type} (f : α → Option Nat) (n : Nat) : Prop :=
  ∃ e : {a // (f a).isSome = true} ≃ Fin n, ∀ a, f a.1 = some (e a).val

/-- A map with an inverse that knows exactly the indices below `n`. -/
theorem indexBijection_of_inverse {α : Type} {f : α → Option Nat} {n : Nat} {g : Nat → Option α}
    (hinv : ∀ a i, f a = some i ↔ g i = some a) (hrange : ∀ i, (g i).isSome = true ↔ i < n) :
    IndexBijection f n := by
  have hlt : ∀ {a i}, f a = some i → i < n := by
    intro a i h
    refine (hrange i).mp ?_
    rw [(hinv a i).mp h]
    rfl
  -- the index of a known key, and the key of an index in range
  let toFun : {a // (f a).isSome = true} → Fin n :=
    fun a => ⟨(f a.1).get a.2, hlt (Option.some_get a.2).symm⟩
  have hkey : ∀ i : Fin n, f ((g i.1).get ((hrange i.1).mpr i.2)) = some i.1 :=
    fun i => (hinv _ _).mpr (Option.some_get _).symm
  let invFun : Fin n → {a // (f a).isSome = true} :=
    fun i => ⟨(g i.1).get ((hrange i.1).mpr i.2), by rw [hkey]; rfl⟩
  refine ⟨⟨toFun, invFun, ?_, ?_⟩, ?_⟩
  · intro a
    have ha : f a.1 = some (toFun a).1 := (Option.some_get a.2).symm
    have hg := (hinv _ _).mp ha
    refine Subtype.ext (Option.some.inj ?_)
    rw [← hg]
    exact Option.some_get _
  · intro i
    refine Fin.ext (Option.some.inj ?_)
    rw [← hkey i]
    exact Option.some_get _
  · intro a
    exact (Option.some_get a.2).symm

variable {F : Type}

/-! ## The registry -/

/-- The registry gives the registered mints the indices below its length. -/
theorem registry_bijection {t : TokenRegistry} (h : RegistryInv t) :
    IndexBijection t.getIndex t.len := by
  refine indexBijection_of_inverse (g := t.getMint) h ?_
  intro i
  simp [TokenRegistry.getMint, TokenRegistry.len]

/-! ## Edges, adjacency and the edge index -/

/-- The key of an edge: its pool and its source mint. -/
def edgeKey (e : Edge F) : Pubkey × Pubkey := (e.poolAddress, e.sourceMint)

theorem edgeIndex_bijection {g : PriceGraph F} (h : GraphInv g) :
    IndexBijection g.poolEdgeIndex g.numEdges := by
  refine indexBijection_of_inverse (g := fun i => (g.edges[i]?).map edgeKey) ?_ ?_
  · rintro ⟨p, m⟩ i
    rw [h.index, Option.map_eq_some_iff]
    constructor
    · rintro ⟨e, he, rfl, rfl⟩
      exact ⟨e, he, rfl⟩
    · rintro ⟨e, he, hkey⟩
      obtain ⟨hp, hm⟩ := Prod.mk.inj hkey
      exact ⟨e, he, hp, hm⟩
  · intro i
    simp [PriceGraph.numEdges]

/-- An edge is in the list of its source once, and in no other list. -/
theorem count_edgesFrom {g : PriceGraph F} (h : GraphInv g) {i : Nat} {e : Edge F}
    (he : g.edges[i]? = some e) (v : Nat) :
    (g.edgesFrom v).count i = if v = e.source then 1 else 0 := by
  rw [List.Nodup.count (h.edgesFrom_nodup v)]
  congr 1
  rw [h.mem_edgesFrom]
  refine propext ⟨?_, ?_⟩
  · rintro ⟨e', he', rfl⟩
    rw [he] at he'
    rw [Option.some.inj he']
  · rintro rfl
    exact ⟨e, he, rfl⟩

/-- The four structures agree. -/
structure Consistent (g : PriceGraph F) : Prop where
  registry : IndexBijection g.tokens.getIndex g.tokens.len
  /-- The two directions of the registry are inverse. -/
  inverse : ∀ mint index, g.tokens.getIndex mint = some index ↔ g.tokens.getMint index = some mint
  inRange : ∀ (i : Nat) (e : Edge F), g.edges[i]? = some e →
    e.source < g.numTokens ∧ e.dest < g.numTokens ∧
      e.source < g.adjacency.length ∧ e.dest < g.adjacency.length
  mints : ∀ (i : Nat) (e : Edge F), g.edges[i]? = some e →
    g.tokens.getMint e.source = some e.sourceMint ∧ g.tokens.getMint e.dest = some e.destMint
  listed : ∀ (i : Nat) (e : Edge F), g.edges[i]? = some e →
    ∀ (v : Nat) (list : List Nat), g.adjacency[v]? = some list →
      list.count i = if v = e.source then 1 else 0
  /-- Every listed index is the index of an edge. -/
  noneDangling : ∀ (v : Nat) (list : List Nat), g.adjacency[v]? = some list →
    ∀ i ∈ list, i < g.numEdges
  edgeIndex : IndexBijection g.poolEdgeIndex g.numEdges
  keys : ∀ (i : Nat) (e : Edge F), g.edges[i]? = some e →
    g.poolEdgeIndex (e.poolAddress, e.sourceMint) = some i
  /-- No direction of a pool has two edges. -/
  unique : ∀ (i j : Nat) (e e' : Edge F), g.edges[i]? = some e → g.edges[j]? = some e' →
    e.poolAddress = e'.poolAddress → e.sourceMint = e'.sourceMint → i = j

theorem edgesFrom_eq {g : PriceGraph F} {v : Nat} {list : List Nat}
    (h : g.adjacency[v]? = some list) : g.edgesFrom v = list := by
  rw [PriceGraph.edgesFrom, List.getD_eq_getElem?_getD, h]
  rfl

/-- **A WELL-FORMED GRAPH IS CONSISTENT.** -/
theorem consistent_of_inv {g : PriceGraph F} (h : GraphInv g) : Consistent g where
  registry := registry_bijection h.registry
  inverse := h.registry
  inRange := by
    intro i e he
    have hs := h.source_lt he
    have hd := h.dest_lt he
    exact ⟨hs, hd, Nat.lt_of_lt_of_le hs h.lists, Nat.lt_of_lt_of_le hd h.lists⟩
  mints := fun i e he => ⟨h.source i e he, h.dest i e he⟩
  listed := by
    intro i e he v list hv
    rw [← edgesFrom_eq hv]
    exact count_edgesFrom h he v
  noneDangling := by
    intro v list hv i hi
    rw [← edgesFrom_eq hv, h.mem_edgesFrom] at hi
    obtain ⟨e, he, -⟩ := hi
    exact (List.getElem?_eq_some_iff.mp he).1
  edgeIndex := edgeIndex_bijection h
  keys := fun i e he => (h.index _ _ i).mpr ⟨e, he, rfl, rfl⟩
  unique := fun _ _ _ _ hi hj hp hm => h.key_inj hi hj hp hm

/-- **EVERY REACHABLE GRAPH IS CONSISTENT**, after any sequence of pool updates and
    removals. -/
theorem graph_consistent [F64 F] (ops : List GraphOp) :
    Consistent (PriceGraph.build ops : PriceGraph F) :=
  consistent_of_inv (GraphInv.build ops)

end MevGraphStructure
