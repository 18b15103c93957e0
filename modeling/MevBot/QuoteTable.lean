import Mathlib.Data.List.Induction
import MevBot.GraphInvariant

/-! # The price graph as a table of directed prices

    What the graph is for: under every `(pool, source mint)` key, the price at
    which the pool last offered to swap that mint.  `QuoteTable` is that store
    with its two operations; **`build_represents`** says the edge list built by
    the code shows exactly this table, an edge whose entry was removed being
    unusable. -/

namespace MevQuotes

open MevMachine MevTypes MevGraph MevGraphInv

variable {F : Type}

/-! ## The table -/

/-- One direction of a pool: its reserves from the source side, its fee and the
    slot they were read at. -/
structure EdgePrice where
  reserveIn : UInt64
  reserveOut : UInt64
  feeNumerator : UInt64
  feeDenominator : UInt64
  slot : UInt64
deriving DecidableEq, Repr

/-- The spot rate of the direction. -/
def EdgePrice.rate [F64 F] (p : EdgePrice) : F :=
  F64.ofNat p.reserveOut.toNat / F64.ofNat p.reserveIn.toNat

/-- The weight of the direction. -/
def EdgePrice.weight [F64 F] (p : EdgePrice) : F :=
  -(F64.ln (p.rate * (1.0 - F64.ofNat p.feeNumerator.toNat / F64.ofNat p.feeDenominator.toNat)))

/-- The pool from its A side. -/
def sideA (pool : PoolState) : EdgePrice :=
  ⟨pool.tokenAAmount, pool.tokenBAmount, pool.feeNumerator, pool.feeDenominator, pool.slot⟩

/-- The pool from its B side. -/
def sideB (pool : PoolState) : EdgePrice :=
  ⟨pool.tokenBAmount, pool.tokenAAmount, pool.feeNumerator, pool.feeDenominator, pool.slot⟩

/-- The prices on offer, by pool and source mint. -/
abbrev QuoteTable := Pubkey × Pubkey → Option EdgePrice

/-- One mutation of the table. -/
def QuoteTable.apply (q : QuoteTable) : GraphOp → QuoteTable
  | .updatePool pool =>
      if Funded pool then
        Function.update (Function.update q (pool.address, pool.tokenAMint) (some (sideA pool)))
          (pool.address, pool.tokenBMint) (some (sideB pool))
      else q
  | .removePool p => fun key => if key.1 = p then none else q key

/-- The table a history of mutations leaves. -/
def quotesOf (ops : List GraphOp) : QuoteTable := ops.foldl QuoteTable.apply fun _ => none

theorem quotesOf_concat (ops : List GraphOp) (op : GraphOp) :
    quotesOf (ops ++ [op]) = (quotesOf ops).apply op := by
  rw [quotesOf, List.foldl_append]
  rfl

/-- A funded update writes the two keys of its pool. -/
theorem QuoteTable.apply_funded (q : QuoteTable) {pool : PoolState} (hpool : Funded pool) :
    q.apply (.updatePool pool) =
      Function.update (Function.update q (pool.address, pool.tokenAMint) (some (sideA pool)))
        (pool.address, pool.tokenBMint) (some (sideB pool)) := if_pos hpool

theorem QuoteTable.apply_sideB (q : QuoteTable) {pool : PoolState} (hpool : Funded pool) :
    (q.apply (.updatePool pool)) (pool.address, pool.tokenBMint) = some (sideB pool) := by
  rw [q.apply_funded hpool, Function.update_self]

/-- With one mint on both sides the B side would stand here. -/
theorem QuoteTable.apply_sideA (q : QuoteTable) {pool : PoolState} (hpool : Funded pool)
    (hne : pool.tokenAMint ≠ pool.tokenBMint) :
    (q.apply (.updatePool pool)) (pool.address, pool.tokenAMint) = some (sideA pool) := by
  rw [q.apply_funded hpool, Function.update_of_ne fun heq => hne (Prod.mk.inj heq).2,
    Function.update_self]

theorem QuoteTable.apply_other (q : QuoteTable) {pool : PoolState} (hpool : Funded pool)
    {key : Pubkey × Pubkey}
    (hkey : ¬(key.1 = pool.address ∧ (key.2 = pool.tokenAMint ∨ key.2 = pool.tokenBMint))) :
    (q.apply (.updatePool pool)) key = q key := by
  rw [q.apply_funded hpool, Function.update_of_ne fun heq => hkey (by simp [heq]),
    Function.update_of_ne fun heq => hkey (by simp [heq])]

/-- What an update does to one key. -/
theorem QuoteTable.apply_updatePool_cases (q : QuoteTable) (pool : PoolState)
    (key : Pubkey × Pubkey) :
    (q.apply (.updatePool pool)) key = q key ∨
      Funded pool ∧ key.1 = pool.address ∧
        ((q.apply (.updatePool pool)) key = some (sideA pool) ∧ key.2 = pool.tokenAMint ∨
          (q.apply (.updatePool pool)) key = some (sideB pool) ∧ key.2 = pool.tokenBMint) := by
  by_cases hpool : Funded pool
  · rw [q.apply_funded hpool]
    -- the B side is written last, so it wins where both sides have one key
    by_cases hB : key = (pool.address, pool.tokenBMint)
    · subst hB
      rw [Function.update_self]
      exact Or.inr ⟨hpool, rfl, Or.inr ⟨rfl, rfl⟩⟩
    · rw [Function.update_of_ne hB]
      by_cases hA : key = (pool.address, pool.tokenAMint)
      · subst hA
        rw [Function.update_self]
        exact Or.inr ⟨hpool, rfl, Or.inl ⟨rfl, rfl⟩⟩
      · rw [Function.update_of_ne hA]
        exact Or.inl rfl
  · left
    rw [QuoteTable.apply, if_neg hpool]

/-! ## The refinement -/

variable [F64 F]

/-- An edge shows a table entry; without one it is unusable. -/
def Shows : Option EdgePrice → Edge F → Prop
  | some p, e =>
      e.weight = p.weight ∧ e.rate = p.rate ∧ e.liquidity = p.reserveOut ∧
        e.lastUpdatedSlot = p.slot
  | none, e => e.weight = F64.infinity ∧ e.rate = 0.0 ∧ e.liquidity = 0

/-- The graph shows the table. -/
structure Represents (q : QuoteTable) (g : PriceGraph F) : Prop where
  shown : ∀ (i : Nat) (e : Edge F), g.edges[i]? = some e →
    Shows (q (e.poolAddress, e.sourceMint)) e
  unknown : ∀ key, g.poolEdgeIndex key = none → q key = none

theorem Represents.new : Represents (fun _ => none) (PriceGraph.new : PriceGraph F) where
  shown := fun _ _ he => (nomatch he)
  unknown := fun _ _ => rfl

/-- Under an unknown key the edge is appended, beside the edges of other keys. -/
theorem Represents.append {q : QuoteTable} {g : PriceGraph F} (hg : GraphInv g)
    (h : Represents q g) {e : Edge F} {p : EdgePrice} (he : Shows (some p) e)
    (hkey : g.poolEdgeIndex (e.poolAddress, e.sourceMint) = none) :
    Represents (Function.update q (e.poolAddress, e.sourceMint) (some p)) (g.upsertEdge e) := by
  rw [upsertEdge_unknown hkey]
  refine ⟨?_, ?_⟩
  · intro i e' he'
    rcases (getElem?_concat_iff _ _ _ _).mp he' with he' | ⟨-, rfl⟩
    · have hne : (e'.poolAddress, e'.sourceMint) ≠ (e.poolAddress, e.sourceMint) :=
        fun heq => hg.not_under hkey he' (Prod.mk.inj heq)
      rw [Function.update_of_ne hne]
      exact h.shown i e' he'
    · rw [Function.update_self]
      exact he
  · intro key hnone
    replace hnone : Function.update g.poolEdgeIndex (e.poolAddress, e.sourceMint)
      (some g.edges.length) key = none := hnone
    have hne : key ≠ (e.poolAddress, e.sourceMint) := by
      rintro rfl
      rw [Function.update_self] at hnone
      cases hnone
    rw [Function.update_of_ne hne] at hnone ⊢
    exact h.unknown key hnone

/-- Under a known key its edge is repriced, and no edge of another key. -/
theorem Represents.reprice {q : QuoteTable} {g : PriceGraph F} (hg : GraphInv g)
    (h : Represents q g) {e : Edge F} {p : EdgePrice} (he : Shows (some p) e) {i : Nat}
    (hkey : g.poolEdgeIndex (e.poolAddress, e.sourceMint) = some i) :
    Represents (Function.update q (e.poolAddress, e.sourceMint) (some p)) (g.upsertEdge e) := by
  obtain ⟨known, hknown, hpool, hmint⟩ := (hg.index _ _ i).mp hkey
  rw [upsertEdge_known hkey]
  refine ⟨?_, ?_⟩
  · intro j e' he'
    obtain ⟨old, hold, rfl⟩ := (getElem?_modify_reprice _ _ _ _ _ _ _ _).mp he'
    by_cases hij : i = j
    · subst hij
      rw [hknown] at hold
      obtain rfl := Option.some.inj hold
      rw [if_pos rfl]
      show Shows (Function.update q (e.poolAddress, e.sourceMint) (some p)
        (known.poolAddress, known.sourceMint)) _
      rw [hpool, hmint, Function.update_self]
      exact he
    · rw [if_neg hij]
      have hne : (old.poolAddress, old.sourceMint) ≠ (e.poolAddress, e.sourceMint) := by
        intro heq
        obtain ⟨hp, hm⟩ := Prod.mk.inj heq
        exact hij (hg.key_inj hknown hold (hpool.trans hp.symm) (hmint.trans hm.symm))
      rw [Function.update_of_ne hne]
      exact h.shown j old hold
  · intro key hnone
    have hne : key ≠ (e.poolAddress, e.sourceMint) := by
      rintro rfl
      rw [hkey] at hnone
      cases hnone
    rw [Function.update_of_ne hne]
    exact h.unknown key hnone

/-- An upsert of an edge that shows `p` is an update of the table at its key. -/
theorem Represents.upsertEdge {q : QuoteTable} {g : PriceGraph F} (hg : GraphInv g)
    (h : Represents q g) {e : Edge F} {p : EdgePrice} (he : Shows (some p) e) :
    Represents (Function.update q (e.poolAddress, e.sourceMint) (some p)) (g.upsertEdge e) := by
  cases hkey : g.poolEdgeIndex (e.poolAddress, e.sourceMint) with
  | none => exact h.append hg he hkey
  | some i => exact h.reprice hg he hkey

theorem Represents.updatePool {q : QuoteTable} {g : PriceGraph F} (hg : GraphInv g)
    (h : Represents q g) (pool : PoolState) :
    Represents (q.apply (.updatePool pool)) (g.updatePool pool) := by
  by_cases hpool : Funded pool
  -- registering the mints touches no edge; the two upserts write the two sides
  · rw [updatePool_funded g hpool, q.apply_funded hpool]
    obtain ⟨hreg, ha, hb⟩ := hg.registerMints pool.tokenAMint pool.tokenBMint
    have hAB := hreg.upsertEdge (e := edgeAB g pool) ha hb
    have hrep : Represents q (registerMints g pool.tokenAMint pool.tokenBMint) :=
      ⟨h.shown, h.unknown⟩
    have hrepAB := hrep.upsertEdge hreg (e := edgeAB g pool) (p := sideA pool)
      ⟨rfl, rfl, rfl, rfl⟩
    exact hrepAB.upsertEdge hAB (e := edgeBA g pool) (p := sideB pool) ⟨rfl, rfl, rfl, rfl⟩
  · rw [updatePool_unfunded g hpool, QuoteTable.apply, if_neg hpool]
    exact h

theorem Represents.removePool {q : QuoteTable} {g : PriceGraph F} (h : Represents q g)
    (p : Pubkey) : Represents (q.apply (.removePool p)) (g.removePool p) := by
  refine ⟨?_, ?_⟩
  · intro i e he
    obtain ⟨old, hold, rfl⟩ := Option.map_eq_some_iff.mp (List.getElem?_map.symm.trans he)
    by_cases hp : old.poolAddress = p
    · rw [if_pos hp]
      show Shows (if old.poolAddress = p then none else q _) _
      rw [if_pos hp]
      exact ⟨rfl, rfl, rfl⟩
    · rw [if_neg hp]
      show Shows (if old.poolAddress = p then none else q _) _
      rw [if_neg hp]
      exact h.shown i old hold
  · intro key hnone
    show (if key.1 = p then none else q key) = none
    rw [h.unknown key hnone, ite_self]

/-- The code's operation on the graph is the table's operation. -/
theorem Represents.apply {q : QuoteTable} {g : PriceGraph F} (hg : GraphInv g)
    (h : Represents q g) (op : GraphOp) : Represents (q.apply op) (g.apply op) := by
  cases op with
  | updatePool pool => exact h.updatePool hg pool
  | removePool p => exact h.removePool p

/-- **THE GRAPH REFINES THE TABLE**: what the code builds shows what its history
    left on offer. -/
theorem build_represents (ops : List GraphOp) :
    Represents (quotesOf ops) (PriceGraph.build ops : PriceGraph F) := by
  induction ops using List.reverseRecOn with
  | nil => exact Represents.new
  | append_singleton ops op ih =>
      rw [quotesOf_concat, build_concat]
      exact ih.apply (GraphInv.build ops) op

end MevQuotes
