import Mathlib.Data.List.Induction
import Mathlib.Data.List.Basic
import MevBot.PriceGraph

/-! # Well-formed price graphs

    **`GraphInv`** holds of every graph `updatePool` and `removePool` build:
    mints and indices are in bijection, an edge's indices are the indices of
    its mints, `edgesFrom` lists exactly the edges of its source, each once and
    in index order, and the key index finds exactly the edge that carries the
    key. -/

namespace MevGraphInv

open MevMachine MevTypes MevGraph

variable {F : Type}

/-- The entries of a list with one more. -/
theorem getElem?_concat_iff {α : Type} (xs : List α) (x y : α) (i : Nat) :
    (xs ++ [x])[i]? = some y ↔ xs[i]? = some y ∨ i = xs.length ∧ y = x := by
  rcases Nat.lt_trichotomy i xs.length with hi | rfl | hi
  · rw [List.getElem?_append_left hi]
    exact ⟨Or.inl, fun h => h.resolve_right fun h' => Nat.ne_of_lt hi h'.1⟩
  · simp [eq_comm]
  · have hnone : xs[i]? = none := List.getElem?_eq_none (Nat.le_of_lt hi)
    have hnone' : (xs ++ [x])[i]? = none := by
      rw [List.getElem?_eq_none_iff, List.length_append, List.length_singleton]
      exact hi
    rw [hnone, hnone']
    exact ⟨fun h => (nomatch h), fun h => h.elim (fun h => (nomatch h))
      fun h => absurd h.1 (Nat.ne_of_gt hi)⟩

/-! ## The token registry -/

/-- Mints and indices are in bijection. -/
def RegistryInv (t : TokenRegistry) : Prop :=
  ∀ mint index, t.getIndex mint = some index ↔ t.getMint index = some mint

/-- An empty registry knows nothing. -/
theorem RegistryInv.new : RegistryInv TokenRegistry.new := by
  intro mint index
  simp [TokenRegistry.new, TokenRegistry.getIndex, TokenRegistry.getMint]

/-- A mint has one index. -/
theorem RegistryInv.getMint_inj {t : TokenRegistry} (h : RegistryInv t) {i j : Nat}
    {mint : Pubkey} (hi : t.getMint i = some mint) (hj : t.getMint j = some mint) : i = j := by
  have hi' := (h mint i).mpr hi
  rw [(h mint j).mpr hj] at hi'
  exact (Option.some.inj hi').symm

/-- Indices differ exactly when their mints do. -/
theorem RegistryInv.eq_iff_mint {t : TokenRegistry} (h : RegistryInv t) {i j : Nat}
    {mint mint' : Pubkey} (hi : t.getMint i = some mint) (hj : t.getMint j = some mint') :
    i = j ↔ mint = mint' := by
  constructor
  · rintro rfl
    exact Option.some.inj (hi.symm.trans hj)
  · rintro rfl
    exact h.getMint_inj hi hj

/-- What one `get_or_insert` does to the registry. -/
structure Inserted (t : TokenRegistry) (mint : Pubkey) (t' : TokenRegistry) (index : Nat) :
    Prop where
  inv : RegistryInv t'
  found : t'.getMint index = some mint
  kept : ∀ i m, t.getMint i = some m → t'.getMint i = some m
  len_le : t'.len ≤ max t.len (index + 1)

/-- A mint the registry does not have is on no index. -/
theorem RegistryInv.not_at {t : TokenRegistry} (h : RegistryInv t) {mint : Pubkey}
    (hmint : t.mintToIndex mint = none) (i : Nat) : t.indexToMint[i]? ≠ some mint := by
  intro hi
  have hfound := (h mint i).mpr hi
  rw [TokenRegistry.getIndex, hmint] at hfound
  cases hfound

/-- It gets the index past the end; every other mint keeps its own. -/
theorem RegistryInv.append {t : TokenRegistry} (h : RegistryInv t) {mint : Pubkey}
    (hmint : t.mintToIndex mint = none) :
    RegistryInv ⟨Function.update t.mintToIndex mint (some t.indexToMint.length),
      t.indexToMint ++ [mint]⟩ := by
  intro m i
  show Function.update t.mintToIndex mint (some t.indexToMint.length) m = some i ↔
    (t.indexToMint ++ [mint])[i]? = some m
  by_cases hm : m = mint
  · rw [hm, Function.update_self, Option.some.injEq]
    constructor
    · rintro rfl
      exact List.getElem?_concat_length
    · intro hi
      rcases (getElem?_concat_iff _ _ _ _).mp hi with hi | ⟨hi, -⟩
      · exact absurd hi (h.not_at hmint i)
      · exact hi.symm
  · rw [Function.update_of_ne hm]
    refine (h m i).trans ((getElem?_concat_iff _ _ _ _).trans (or_iff_left ?_)).symm
    rintro ⟨-, rfl⟩
    exact hm rfl

/-- Whether the mint is known or not. -/
theorem getOrInsert_inserted {t : TokenRegistry} (h : RegistryInv t) (mint : Pubkey) :
    Inserted t mint (t.getOrInsert mint).1 (t.getOrInsert mint).2 := by
  rw [TokenRegistry.getOrInsert]
  cases hmint : t.mintToIndex mint with
  | some idx =>
      exact ⟨h, (h mint idx).mp hmint, fun _ _ hm => hm, Nat.le_max_left _ _⟩
  | none =>
      refine ⟨h.append hmint, List.getElem?_concat_length, ?_, ?_⟩
      · intro i m hi
        exact (getElem?_concat_iff _ _ _ _).mpr (Or.inl hi)
      · show (t.indexToMint ++ [mint]).length ≤ _
        rw [List.length_append, List.length_singleton]
        exact Nat.le_max_right _ _

/-! ## Well-formedness -/

/-- The well-formedness of a reachable graph. -/
structure GraphInv (g : PriceGraph F) : Prop where
  registry : RegistryInv g.tokens
  lists : g.tokens.len ≤ g.adjacency.length
  source : ∀ (i : Nat) (e : Edge F), g.edges[i]? = some e →
    g.tokens.getMint e.source = some e.sourceMint
  dest : ∀ (i : Nat) (e : Edge F), g.edges[i]? = some e →
    g.tokens.getMint e.dest = some e.destMint
  adjacent : ∀ v, g.edgesFrom v =
    (List.range g.numEdges).filter fun i => (g.edges[i]?).any fun e => decide (e.source = v)
  index : ∀ p m i, g.poolEdgeIndex (p, m) = some i ↔
    ∃ e, g.edges[i]? = some e ∧ e.poolAddress = p ∧ e.sourceMint = m

/-- An empty graph satisfies the invariant. -/
theorem GraphInv.new : GraphInv (PriceGraph.new : PriceGraph F) where
  registry := RegistryInv.new
  lists := Nat.le_refl _
  source := fun i e he => (nomatch he)
  dest := fun i e he => (nomatch he)
  adjacent := fun v => rfl
  index := by
    intro p m i
    simp [PriceGraph.new]

/-- Edges leave registered tokens. -/
theorem GraphInv.source_lt {g : PriceGraph F} (h : GraphInv g) {i : Nat} {e : Edge F}
    (he : g.edges[i]? = some e) : e.source < g.numTokens :=
  (List.getElem?_eq_some_iff.mp (h.source i e he)).1

/-- Edges lead to registered tokens. -/
theorem GraphInv.dest_lt {g : PriceGraph F} (h : GraphInv g) {i : Nat} {e : Edge F}
    (he : g.edges[i]? = some e) : e.dest < g.numTokens :=
  (List.getElem?_eq_some_iff.mp (h.dest i e he)).1

theorem GraphInv.dest_lt_of_mem {g : PriceGraph F} (h : GraphInv g) {e : Edge F}
    (he : e ∈ g.edges) : e.dest < g.numTokens := by
  obtain ⟨i, hi⟩ := List.mem_iff_getElem?.mp he
  exact h.dest_lt hi

/-- `edgesFrom` lists exactly the edges of its source. -/
theorem GraphInv.mem_edgesFrom {g : PriceGraph F} (h : GraphInv g) (v i : Nat) :
    i ∈ g.edgesFrom v ↔ ∃ e, g.edges[i]? = some e ∧ e.source = v := by
  rw [h.adjacent, List.mem_filter, List.mem_range, Option.any_eq_true]
  constructor
  · rintro ⟨-, e, he, hv⟩
    exact ⟨e, he, of_decide_eq_true hv⟩
  · rintro ⟨e, he, hv⟩
    exact ⟨(List.getElem?_eq_some_iff.mp he).1, e, he, decide_eq_true hv⟩

/-- No adjacency list names an edge twice. -/
theorem GraphInv.edgesFrom_nodup {g : PriceGraph F} (h : GraphInv g) (v : Nat) :
    (g.edgesFrom v).Nodup := by
  rw [h.adjacent]
  exact List.nodup_range.filter _

/-- Edges of one pool and one source mint are the same edge. -/
theorem GraphInv.key_inj {g : PriceGraph F} (h : GraphInv g) {i j : Nat} {e e' : Edge F}
    (hi : g.edges[i]? = some e) (hj : g.edges[j]? = some e')
    (hpool : e.poolAddress = e'.poolAddress) (hmint : e.sourceMint = e'.sourceMint) : i = j := by
  have hi' := (h.index e.poolAddress e.sourceMint i).mpr ⟨e, hi, rfl, rfl⟩
  have hj' := (h.index e.poolAddress e.sourceMint j).mpr ⟨e', hj, hpool.symm, hmint.symm⟩
  rw [hi'] at hj'
  exact Option.some.inj hj'

/-! ## One upsert -/

/-- An upsert of a known key reprices its edge, and leaves where it leads. -/
theorem upsertEdge_known {g : PriceGraph F} {e : Edge F} {i : Nat}
    (hkey : g.poolEdgeIndex (e.poolAddress, e.sourceMint) = some i) :
    g.upsertEdge e =
      { g with edges := g.edges.modify i fun old =>
          old.reprice e.weight e.rate e.liquidity e.lastUpdatedSlot } := by
  simp only [PriceGraph.upsertEdge, hkey]

/-- An upsert of a new key adds the edge, to its source's list and to the index. -/
theorem upsertEdge_unknown {g : PriceGraph F} {e : Edge F}
    (hkey : g.poolEdgeIndex (e.poolAddress, e.sourceMint) = none) :
    g.upsertEdge e =
      { g with
        edges := g.edges ++ [e]
        adjacency := g.adjacency.modify e.source (· ++ [g.edges.length])
        poolEdgeIndex := Function.update g.poolEdgeIndex (e.poolAddress, e.sourceMint)
          (some g.edges.length) } := by
  simp only [PriceGraph.upsertEdge, hkey]

/-- An upsert registers no token. -/
theorem tokens_upsertEdge (g : PriceGraph F) (e : Edge F) : (g.upsertEdge e).tokens = g.tokens := by
  cases hkey : g.poolEdgeIndex (e.poolAddress, e.sourceMint) with
  | none => rw [upsertEdge_unknown hkey]
  | some i => rw [upsertEdge_known hkey]

/-- The edges after an upsert that found its key. -/
theorem getElem?_modify_reprice (edges : List (Edge F)) (i j : Nat) (w r : F) (l s : UInt64)
    (e : Edge F) :
    (edges.modify i fun old => old.reprice w r l s)[j]? = some e ↔
      ∃ old, edges[j]? = some old ∧ e = if i = j then old.reprice w r l s else old := by
  rw [List.getElem?_modify, Option.map_eq_map, Option.map_eq_some_iff]
  constructor
  · rintro ⟨old, hold, rfl⟩
    exact ⟨old, hold, rfl⟩
  · rintro ⟨old, hold, rfl⟩
    exact ⟨old, hold, rfl⟩

/-- The pool of an edge and its mints in swap order; no operation changes them. -/
def route (e : Edge F) : Pubkey × Pubkey × Pubkey := (e.poolAddress, e.sourceMint, e.destMint)

/-- What a repricing keeps holds of the edges after an upsert. -/
theorem upsertEdge_forall {P : Edge F → Prop}
    (hreprice : ∀ e w r l s, P e → P (e.reprice w r l s)) {g : PriceGraph F} {e : Edge F}
    (hg : ∀ (i : Nat) (old : Edge F), g.edges[i]? = some old → P old) (he : P e) :
    ∀ (i : Nat) (e' : Edge F), (g.upsertEdge e).edges[i]? = some e' → P e' := by
  intro i e' he'
  cases hkey : g.poolEdgeIndex (e.poolAddress, e.sourceMint) with
  | none =>
      rw [upsertEdge_unknown hkey] at he'
      rcases (getElem?_concat_iff _ _ _ _).mp he' with he' | ⟨-, rfl⟩
      · exact hg i e' he'
      · exact he
  | some k =>
      rw [upsertEdge_known hkey] at he'
      obtain ⟨old, hold, rfl⟩ := (getElem?_modify_reprice _ _ _ _ _ _ _ _).mp he'
      split
      · exact hreprice _ _ _ _ _ (hg i old hold)
      · exact hg i old hold

/-- An in-place map of the edges that keeps their endpoints, mints and pools
    keeps the graph well formed. -/
theorem GraphInv.of_edges {g : PriceGraph F} (h : GraphInv g) (edges : List (Edge F))
    (f : Nat → Edge F → Edge F)
    (hedges : ∀ i, edges[i]? = (g.edges[i]?).map (f i))
    (hf : ∀ i e, (f i e).source = e.source ∧ (f i e).dest = e.dest ∧
      (f i e).sourceMint = e.sourceMint ∧ (f i e).destMint = e.destMint ∧
      (f i e).poolAddress = e.poolAddress) :
    GraphInv { g with edges } := by
  have hlen : edges.length = g.edges.length := by
    have hle : ∀ n, edges.length ≤ n ↔ g.edges.length ≤ n := by
      intro n
      rw [← List.getElem?_eq_none_iff, ← List.getElem?_eq_none_iff, hedges, Option.map_eq_none_iff]
    have h1 := (hle g.edges.length).mpr (Nat.le_refl _)
    have h2 := (hle edges.length).mp (Nat.le_refl _)
    omega
  refine ⟨h.registry, h.lists, ?_, ?_, ?_, ?_⟩
  · intro i e he
    rw [hedges, Option.map_eq_some_iff] at he
    obtain ⟨old, hold, rfl⟩ := he
    obtain ⟨hs, -, hm, -⟩ := hf i old
    rw [hs, hm]
    exact h.source i old hold
  · intro i e he
    rw [hedges, Option.map_eq_some_iff] at he
    obtain ⟨old, hold, rfl⟩ := he
    obtain ⟨-, hd, -, hm, -⟩ := hf i old
    rw [hd, hm]
    exact h.dest i old hold
  · intro v
    refine (h.adjacent v).trans ?_
    show List.filter _ (List.range g.edges.length) = List.filter _ (List.range edges.length)
    rw [hlen]
    refine List.filter_congr ?_
    intro i _
    show _ = (edges[i]?).any _
    rw [hedges, Option.any_map]
    congr 1
    funext e
    simp only [(hf i e).1]
  · intro p m i
    refine (h.index p m i).trans ?_
    show _ ↔ ∃ e, edges[i]? = some e ∧ _
    rw [hedges]
    constructor
    · rintro ⟨e, he, hp, hm⟩
      obtain ⟨-, -, hsm, -, hpool⟩ := hf i e
      exact ⟨f i e, by rw [he]; rfl, hpool.trans hp, hsm.trans hm⟩
    · rintro ⟨e, he, hp, hm⟩
      obtain ⟨old, hold, rfl⟩ := Option.map_eq_some_iff.mp he
      obtain ⟨-, -, hsm, -, hpool⟩ := hf i old
      exact ⟨old, hold, hpool.symm.trans hp, hsm.symm.trans hm⟩

/-- The new edge is in the list of its source alone. -/
theorem edgesFrom_append {g : PriceGraph F} {e : Edge F}
    (hsource : e.source < g.adjacency.length) (v : Nat) :
    (g.adjacency.modify e.source (· ++ [g.edges.length])).getD v [] =
      g.edgesFrom v ++ if e.source = v then [g.edges.length] else [] := by
  rw [List.getD_eq_getElem?_getD, List.getElem?_modify]
  rw [PriceGraph.edgesFrom]
  rw [List.getD_eq_getElem?_getD]
  by_cases hv : e.source = v
  · subst hv
    rw [List.getElem?_eq_getElem hsource]
    simp
  · simp [hv]

/-- No edge stands under a key that is not in the index. -/
theorem GraphInv.not_under {g : PriceGraph F} (h : GraphInv g) {a m : Pubkey}
    (hkey : g.poolEdgeIndex (a, m) = none) {i : Nat} {e : Edge F} (he : g.edges[i]? = some e) :
    ¬(e.poolAddress = a ∧ e.sourceMint = m) := by
  rintro ⟨ha, hm⟩
  have hfound := (h.index a m i).mpr ⟨e, he, ha, hm⟩
  rw [hkey] at hfound
  cases hfound

/-- A new key finds the appended edge only. -/
theorem GraphInv.index_append {g : PriceGraph F} (h : GraphInv g) {e : Edge F}
    (hkey : g.poolEdgeIndex (e.poolAddress, e.sourceMint) = none) (p m : Pubkey) (i : Nat) :
    Function.update g.poolEdgeIndex (e.poolAddress, e.sourceMint) (some g.edges.length) (p, m)
      = some i ↔ ∃ e', (g.edges ++ [e])[i]? = some e' ∧ e'.poolAddress = p ∧ e'.sourceMint = m := by
  by_cases hpm : (p, m) = (e.poolAddress, e.sourceMint)
  · obtain ⟨rfl, rfl⟩ := Prod.mk.inj hpm
    rw [Function.update_self, Option.some.injEq]
    constructor
    · rintro rfl
      exact ⟨e, List.getElem?_concat_length, rfl, rfl⟩
    · rintro ⟨e', he', hunder⟩
      rcases (getElem?_concat_iff _ _ _ _).mp he' with he' | ⟨hi, -⟩
      · exact absurd hunder (h.not_under hkey he')
      · exact hi.symm
  · rw [Function.update_of_ne hpm, h.index]
    constructor
    · rintro ⟨e', he', hp, hm⟩
      refine ⟨e', ?_, hp, hm⟩
      rw [List.getElem?_append_left (List.getElem?_eq_some_iff.mp he').1]
      exact he'
    · rintro ⟨e', he', hp, hm⟩
      rcases (getElem?_concat_iff _ _ _ _).mp he' with he' | ⟨-, rfl⟩
      · exact ⟨e', he', hp, hm⟩
      · exact absurd (Prod.ext hp.symm hm.symm) hpm

/-- The graph after an upsert that appended its edge. -/
theorem GraphInv.append {g : PriceGraph F} (h : GraphInv g) {e : Edge F}
    (hsource : g.tokens.getMint e.source = some e.sourceMint)
    (hdest : g.tokens.getMint e.dest = some e.destMint)
    (hkey : g.poolEdgeIndex (e.poolAddress, e.sourceMint) = none) :
    GraphInv (g.upsertEdge e) := by
  have hlt : e.source < g.adjacency.length :=
    Nat.lt_of_lt_of_le (List.getElem?_eq_some_iff.mp hsource).1 h.lists
  rw [upsertEdge_unknown hkey]
  refine ⟨h.registry, ?_, ?_, ?_, ?_, ?_⟩
  · show g.tokens.len ≤ (g.adjacency.modify _ _).length
    rw [List.length_modify]
    exact h.lists
  · intro i e' he'
    rcases (getElem?_concat_iff _ _ _ _).mp he' with he' | ⟨-, rfl⟩
    · exact h.source i e' he'
    · exact hsource
  · intro i e' he'
    rcases (getElem?_concat_iff _ _ _ _).mp he' with he' | ⟨-, rfl⟩
    · exact h.dest i e' he'
    · exact hdest
  · intro v
    refine (edgesFrom_append hlt v).trans ?_
    rw [h.adjacent]
    show _ = List.filter _ (List.range (g.edges ++ [e]).length)
    rw [List.length_append, List.length_singleton, List.range_succ, List.filter_append]
    congr 1
    · refine List.filter_congr ?_
      intro i hi
      rw [List.getElem?_append_left (List.mem_range.mp hi)]
    -- the new index closes the list of its source, and of no other token
    · by_cases hv : e.source = v
      · simp [hv]
      · simp [hv]
  · exact h.index_append hkey

/-- An upsert of an edge between registered tokens keeps the graph well formed. -/
theorem GraphInv.upsertEdge {g : PriceGraph F} (h : GraphInv g) {e : Edge F}
    (hsource : g.tokens.getMint e.source = some e.sourceMint)
    (hdest : g.tokens.getMint e.dest = some e.destMint) :
    GraphInv (g.upsertEdge e) := by
  cases hkey : g.poolEdgeIndex (e.poolAddress, e.sourceMint) with
  | none => exact h.append hsource hdest hkey
  | some i =>
      rw [upsertEdge_known hkey]
      refine h.of_edges _ (fun j old =>
        if i = j then old.reprice e.weight e.rate e.liquidity e.lastUpdatedSlot else old) ?_ ?_
      · intro j
        exact List.getElem?_modify _ i g.edges j
      · intro j old
        split
        · exact ⟨rfl, rfl, rfl, rfl, rfl⟩
        · exact ⟨rfl, rfl, rfl, rfl, rfl⟩

/-! ## The operations -/

/-- Making room for a node gives it no edges. -/
theorem edgesFrom_ensureAdjacency (g : PriceGraph F) (node v : Nat) :
    (g.ensureAdjacency node).edgesFrom v = g.edgesFrom v := by
  show (g.adjacency ++ List.replicate _ []).getD v [] = g.adjacency.getD v []
  rw [List.getD_eq_getElem?_getD, List.getD_eq_getElem?_getD, List.getElem?_append]
  split
  · rfl
  · rename_i hle
    rw [List.getElem?_eq_none (Nat.not_lt.mp hle), List.getElem?_replicate]
    split
    · rfl
    · rfl

/-- Room for a node is room for all below it. -/
theorem length_ensureAdjacency (g : PriceGraph F) (node : Nat) :
    (g.ensureAdjacency node).adjacency.length = max g.adjacency.length (node + 1) := by
  show (g.adjacency ++ List.replicate _ []).length = _
  rw [List.length_append, List.length_replicate]
  omega

/-- Both mints of a pool registered, before its edges are written. -/
def registerMints (g : PriceGraph F) (a b : Pubkey) : PriceGraph F :=
  let (tokens, idxA) := g.tokens.getOrInsert a
  let (tokens, idxB) := tokens.getOrInsert b
  ({ g with tokens }.ensureAdjacency idxA).ensureAdjacency idxB

/-- The indices the mints of a pool get. -/
def mintIndices (g : PriceGraph F) (a b : Pubkey) : Nat × Nat :=
  ((g.tokens.getOrInsert a).2, ((g.tokens.getOrInsert a).1.getOrInsert b).2)

/-- Both mints are registered, at the indices the pool's edges will carry. -/
theorem GraphInv.registerMints {g : PriceGraph F} (h : GraphInv g) (a b : Pubkey) :
    GraphInv (registerMints g a b) ∧
      (MevGraphInv.registerMints g a b).tokens.getMint (mintIndices g a b).1 = some a ∧
      (MevGraphInv.registerMints g a b).tokens.getMint (mintIndices g a b).2 = some b := by
  have ha := getOrInsert_inserted h.registry a
  have hb := getOrInsert_inserted ha.inv b
  have kept : ∀ i m, g.tokens.getMint i = some m →
      (MevGraphInv.registerMints g a b).tokens.getMint i = some m :=
    fun i m hm => hb.kept i m (ha.kept i m hm)
  refine ⟨⟨hb.inv, ?_, ?_, ?_, ?_, h.index⟩, hb.kept _ _ ha.found, hb.found⟩
  · show _ ≤ ((_ : PriceGraph F).ensureAdjacency _).adjacency.length
    -- each new index has its list, `ensure_adjacency` being called for both
    rw [length_ensureAdjacency, length_ensureAdjacency]
    have h0 := h.lists
    have h1 := ha.len_le
    have h2 := hb.len_le
    show ((g.tokens.getOrInsert a).1.getOrInsert b).1.len ≤
      max (max g.adjacency.length ((g.tokens.getOrInsert a).2 + 1))
        (((g.tokens.getOrInsert a).1.getOrInsert b).2 + 1)
    omega
  · intro i e he
    exact kept _ _ (h.source i e he)
  · intro i e he
    exact kept _ _ (h.dest i e he)
  · intro v
    refine Eq.trans ?_ (h.adjacent v)
    exact (edgesFrom_ensureAdjacency _ _ v).trans (edgesFrom_ensureAdjacency _ _ v)

section Priced

variable [F64 F]

/-- The edge from token A to token B that `update_pool` writes. -/
def edgeAB (g : PriceGraph F) (pool : PoolState) : Edge F :=
  poolEdge pool (mintIndices g pool.tokenAMint pool.tokenBMint).1
    (mintIndices g pool.tokenAMint pool.tokenBMint).2 pool.tokenAMint pool.tokenBMint
    pool.tokenAAmount pool.tokenBAmount

/-- The edge from token B to token A that `update_pool` writes. -/
def edgeBA (g : PriceGraph F) (pool : PoolState) : Edge F :=
  poolEdge pool (mintIndices g pool.tokenAMint pool.tokenBMint).2
    (mintIndices g pool.tokenAMint pool.tokenBMint).1 pool.tokenBMint pool.tokenAMint
    pool.tokenBAmount pool.tokenAAmount

/-- A pool `update_pool` takes in: neither reserve is zero. -/
def Funded (pool : PoolState) : Prop := pool.tokenAAmount ≠ 0 ∧ pool.tokenBAmount ≠ 0

instance (pool : PoolState) : Decidable (Funded pool) := inferInstanceAs (Decidable (_ ∧ _))

/-- A funded pool upserts its two edges, over its registered mints. -/
theorem updatePool_funded (g : PriceGraph F) {pool : PoolState} (hpool : Funded pool) :
    g.updatePool pool =
      ((registerMints g pool.tokenAMint pool.tokenBMint).upsertEdge (edgeAB g pool)).upsertEdge
        (edgeBA g pool) := by
  rw [PriceGraph.updatePool]
  rw [if_neg (not_or.mpr hpool)]
  rfl

/-- A pool without reserves on a side changes nothing. -/
theorem updatePool_unfunded (g : PriceGraph F) {pool : PoolState} (hpool : ¬Funded pool) :
    g.updatePool pool = g := by
  rw [PriceGraph.updatePool]
  rw [if_pos (by rwa [Funded, not_and_or, not_not, not_not] at hpool)]

/-- An update keeps the invariant. -/
theorem GraphInv.updatePool {g : PriceGraph F} (h : GraphInv g) (pool : PoolState) :
    GraphInv (g.updatePool pool) := by
  by_cases hpool : Funded pool
  · rw [updatePool_funded g hpool]
    obtain ⟨hreg, ha, hb⟩ := h.registerMints pool.tokenAMint pool.tokenBMint
    have hAB := hreg.upsertEdge (e := edgeAB g pool) ha hb
    refine hAB.upsertEdge ?_ ?_
    · rw [tokens_upsertEdge]
      exact hb
    · rw [tokens_upsertEdge]
      exact ha
  · rw [updatePool_unfunded g hpool]
    exact h

/-- A removal keeps it too: an invalidated edge stays in its lists. -/
theorem GraphInv.removePool {g : PriceGraph F} (h : GraphInv g) (p : Pubkey) :
    GraphInv (g.removePool p) := by
  refine h.of_edges _ (fun _ e => if e.poolAddress = p then e.invalidate else e) ?_ ?_
  · intro i
    exact List.getElem?_map
  · intro i e
    split
    · exact ⟨rfl, rfl, rfl, rfl, rfl⟩
    · exact ⟨rfl, rfl, rfl, rfl, rfl⟩

/-- Every operation keeps it. -/
theorem GraphInv.apply {g : PriceGraph F} (h : GraphInv g) (op : GraphOp) :
    GraphInv (g.apply op) := by
  cases op with
  | updatePool pool => exact h.updatePool pool
  | removePool p => exact h.removePool p

/-- The last operation is applied to the graph of the others. -/
theorem build_concat (ops : List GraphOp) (op : GraphOp) :
    (PriceGraph.build (ops ++ [op]) : PriceGraph F) = (PriceGraph.build ops).apply op := by
  rw [PriceGraph.build, List.foldl_append]
  rfl

/-- **EVERY REACHABLE GRAPH IS WELL FORMED.** -/
theorem GraphInv.build (ops : List GraphOp) : GraphInv (PriceGraph.build ops : PriceGraph F) :=
  List.foldlRecOn ops _ GraphInv.new fun _ h op _ => h.apply op

/-! ## Where an edge comes from -/

/-- One of the two routes a pool trades. -/
def Trades (pool : PoolState) (r : Pubkey × Pubkey × Pubkey) : Prop :=
  r = (pool.address, pool.tokenAMint, pool.tokenBMint) ∨
    r = (pool.address, pool.tokenBMint, pool.tokenAMint)

omit [F64 F] in
/-- A pool that trades a route is the one the route names. -/
theorem Trades.address {pool : PoolState} {e : Edge F} (h : Trades pool (route e)) :
    pool.address = e.poolAddress := by
  rcases h with h | h
  · exact (Prod.mk.inj h).1.symm
  · exact (Prod.mk.inj h).1.symm

omit [F64 F] in
/-- In one of its two directions. -/
theorem Trades.mints {pool : PoolState} {e : Edge F} (h : Trades pool (route e)) :
    e.sourceMint = pool.tokenAMint ∧ e.destMint = pool.tokenBMint ∨
      e.sourceMint = pool.tokenBMint ∧ e.destMint = pool.tokenAMint := by
  rcases h with h | h
  · exact Or.inl (Prod.mk.inj (Prod.mk.inj h).2)
  · exact Or.inr (Prod.mk.inj (Prod.mk.inj h).2)

/-- What repricing and invalidating keep holds of every edge of a built graph, if it holds
    of the edges that the funded updates write. -/
theorem build_edges_forall {P : Edge F → Prop} (ops : List GraphOp)
    (hreprice : ∀ e w r l s, P e → P (e.reprice w r l s)) (hinvalidate : ∀ e, P e → P e.invalidate)
    (hnew : ∀ pool, GraphOp.updatePool pool ∈ ops → Funded pool → ∀ g : PriceGraph F,
      P (edgeAB g pool) ∧ P (edgeBA g pool)) :
    ∀ (i : Nat) (e : Edge F), (PriceGraph.build ops : PriceGraph F).edges[i]? = some e → P e := by
  induction ops using List.reverseRecOn with
  | nil =>
      intro i e he
      cases he
  | append_singleton ops op ih =>
      have hold := ih fun pool hmem => hnew pool (List.mem_append_left _ hmem)
      rw [build_concat]
      cases op with
      | removePool p =>
          intro i e he
          obtain ⟨old, hj, rfl⟩ := Option.map_eq_some_iff.mp (List.getElem?_map.symm.trans he)
          split
          · exact hinvalidate _ (hold i old hj)
          · exact hold i old hj
      | updatePool pool =>
          change ∀ (i : Nat) (e : Edge F), (PriceGraph.updatePool _ pool).edges[i]? = some e → P e
          by_cases hfund : Funded pool
          · obtain ⟨hA, hB⟩ := hnew pool (List.mem_append_right _ List.mem_cons_self) hfund
              (PriceGraph.build ops)
            rw [updatePool_funded _ hfund]
            exact upsertEdge_forall hreprice (upsertEdge_forall hreprice hold hA) hB
          · rw [updatePool_unfunded _ hfund]
            exact hold

/-- An edge of a built graph is a route of a funded update. -/
theorem build_edge_origin (ops : List GraphOp) {i : Nat} {e : Edge F}
    (he : (PriceGraph.build ops : PriceGraph F).edges[i]? = some e) :
    ∃ pool, GraphOp.updatePool pool ∈ ops ∧ Funded pool ∧ Trades pool (route e) := by
  refine build_edges_forall (P := fun e => ∃ pool, GraphOp.updatePool pool ∈ ops ∧ Funded pool ∧
    Trades pool (route e)) ops ?_ ?_ ?_ i e he
  · intro e w r l s h
    exact h
  · intro e h
    exact h
  · intro pool hmem hfund g
    exact ⟨⟨pool, hmem, hfund, Or.inl rfl⟩, ⟨pool, hmem, hfund, Or.inr rfl⟩⟩

end Priced

end MevGraphInv
