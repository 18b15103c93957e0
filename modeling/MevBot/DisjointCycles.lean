import MevBot.DfsCorrectness
import MevBot.ReachableArbitrage

/-! # Simple and disjoint cycles

    Every path `find_arbitrage_from` returns is a simple cycle of two to four usable
    edges, joined mint by mint, at the product of its effective rates
    (`SimpleTrade`), and no two paths of one call share a token.  A trace starts at
    an unmarked token and marks all of its cycle, and cycles of predecessors that
    meet are one cycle; so the marks a rejected cycle leaves hide that cycle only. -/

namespace MevDisjoint

open MevMachine MevTypes MevGraph MevGraphInv MevSearch MevDfs MevRates MevExact ExactF64
open MevDfsCorrect MevBellmanFord MevTracing MevReachable Relaxation

/-! ## Simple trades -/

/-- A path that is a simple cycle of two to four usable edges, joined mint by mint,
    whose ratio is the product of its effective rates and passes the threshold. -/
structure SimpleTrade (ops : List GraphOp) (minProfitRatio : ExactF64) (P : ArbPath ExactF64) :
    Prop where
  two_le : 2 ≤ P.hops.length
  le_four : P.hops.length ≤ 4
  joined : P.hops.IsChain fun hop next => hop.outputMint = next.inputMint
  closed : P.hops.getLast?.map (·.outputMint) = P.hops.head?.map (·.inputMint)
  simple : (P.hops.map (·.inputMint)).Nodup
  edges : ∃ cycle : List (Arrow ExactF64), P = arbPathOf ops cycle ∧
    (∀ a ∈ cycle, (PriceGraph.build ops).edges[a.1]? = some a.2 ∧ Usable a.2) ∧
    Exceeds minProfitRatio (pathRate ops cycle)

/-- The mints a path trades. -/
def tokensOf (P : ArbPath ExactF64) : List Pubkey :=
  P.hops.flatMap fun hop => [hop.inputMint, hop.outputMint]

section Cycle

variable {ops : List GraphOp} {s : Nat} {m : ExactF64} {c d : List (Arrow ExactF64)}

/-- The report of a cycle carries the product of its rates. -/
theorem report_eq (hops : FeesBelowOne ops) (h : SimpleCycle ops c) :
    report c = arbPathOf ops c := by
  rw [report, exp_weightSum (weighed_of_usable hops h.usable)]
  rfl

/-- No edge of a simple cycle starts at the mint of another. -/
theorem sourceMint_nodup (h : SimpleCycle ops c) : (c.map (·.2.sourceMint)).Nodup := by
  have hg : GraphInv (PriceGraph.build ops : PriceGraph ExactF64) := GraphInv.build ops
  obtain ⟨v, hv⟩ := h.closed
  have hsources : (c.map (·.2.source)).Nodup := ((rated ops).src_perm_dst hv).nodup_iff.mpr h.simple
  have hc : c.Nodup := List.Nodup.of_map _ hsources
  refine (List.nodup_map_iff_inj_on hc).mpr ?_
  intro a ha b hb hmint
  refine (List.nodup_map_iff_inj_on hc).mp hsources a ha b hb ?_
  exact (hg.registry.eq_iff_mint (hg.source _ _ (h.edges a ha))
    (hg.source _ _ (h.edges b hb))).mpr hmint

/-- The hops of a cycle are joined mint by mint and lead back to the first. -/
theorem mints_joined (h : SimpleCycle ops c) :
    (c.IsChain fun a b => a.2.destMint = b.2.sourceMint) ∧
      c.getLast?.map (·.2.destMint) = c.head?.map (·.2.sourceMint) := by
  have hg : GraphInv (PriceGraph.build ops : PriceGraph ExactF64) := GraphInv.build ops
  have hjoin : ∀ a ∈ c, ∀ b ∈ c, a.2.dest = b.2.source → a.2.destMint = b.2.sourceMint :=
    fun a ha b hb => (hg.registry.eq_iff_mint (hg.dest _ _ (h.edges a ha))
      (hg.source _ _ (h.edges b hb))).mp
  obtain ⟨v, hv⟩ := h.closed
  refine ⟨((rated ops).walk_isChain hv).imp_of_mem_imp fun a b ha hb => hjoin a ha b hb, ?_⟩
  cases c with
  | nil => exact absurd rfl h.nonempty
  | cons a p =>
      -- the last edge ends where the first starts
      obtain ⟨q, b, hqb⟩ := (List.eq_nil_or_concat' (a :: p)).resolve_left h.nonempty
      have hend : b.2.dest = v := by
        rw [hqb] at hv
        exact ((rated ops).walk_concat v q b v).mp hv |>.2
      have hb : b ∈ a :: p := hqb ▸ List.mem_append_right q List.mem_cons_self
      rw [hqb, List.getLast?_concat, ← hqb]
      exact congrArg some (hjoin b hb a List.mem_cons_self (hend.trans hv.1.symm))

/-- **A REPORTED CYCLE IS A SIMPLE TRADE.** -/
theorem simpleTrade_of_cycle (hops : FeesBelowOne ops) (h : SimpleCycle ops c)
    (htwo : 2 ≤ c.length) (hfour : c.length ≤ 4) (hprofit : profitable m c = true) :
    SimpleTrade ops m (report c) := by
  obtain ⟨hjoined, hclosed⟩ := mints_joined h
  refine ⟨?_, ?_, (List.isChain_map _).mpr hjoined, ?_, ?_, c, report_eq hops h, ?_, ?_⟩
  · exact htwo.trans_eq (List.length_map _).symm
  · exact (List.length_map _).trans_le hfour
  · show ((c.map fun a => hopOf a.1 a.2).getLast?).map (·.outputMint) =
      ((c.map fun a => hopOf a.1 a.2).head?).map (·.inputMint)
    rw [List.getLast?_map, List.head?_map, Option.map_map, Option.map_map]
    exact hclosed
  · show ((c.map fun a => hopOf a.1 a.2).map (·.inputMint)).Nodup
    rw [List.map_map]
    exact sourceMint_nodup h
  · intro a ha
    obtain ⟨he, hu⟩ := mem_usableEdges.mp (h.usable a ha)
    exact ⟨he, (usable_iff hops he).1.mpr ((usable_iff hops he).2.2.mp hu)⟩
  · rwa [profitable, exp_weightSum (weighed_of_usable hops h.usable)] at hprofit

/-! ## Disjoint cycles -/

/-- Every token of a reported cycle is where one of its edges ends. -/
theorem mem_tokensOf (h : SimpleCycle ops c) {mint : Pubkey} (hmint : mint ∈ tokensOf (report c)) :
    ∃ a ∈ c, a.2.destMint = mint := by
  have hg : GraphInv (PriceGraph.build ops : PriceGraph ExactF64) := GraphInv.build ops
  obtain ⟨hop, hhop, hmint⟩ := List.mem_flatMap.mp hmint
  obtain ⟨b, hb, rfl⟩ := List.mem_map.mp hhop
  rcases List.mem_pair.mp hmint with rfl | rfl
  · obtain ⟨v, hv⟩ := h.closed
    obtain ⟨a, ha, hab⟩ := (rated ops).exists_before hv hb
    exact ⟨a, ha, (hg.registry.eq_iff_mint (hg.dest _ _ (h.edges a ha))
      (hg.source _ _ (h.edges b hb))).mp hab⟩
  · exact ⟨b, hb, rfl⟩

/-- Cycles that do not meet trade no token in common. -/
theorem tokensOf_disjoint (hc : SimpleCycle ops c) (hd : SimpleCycle ops d)
    (hapart : ∀ a ∈ c, ∀ b ∈ d, a.2.dest ≠ b.2.dest) :
    (tokensOf (report c)).Disjoint (tokensOf (report d)) := by
  have hg : GraphInv (PriceGraph.build ops : PriceGraph ExactF64) := GraphInv.build ops
  intro mint hmint hmint'
  obtain ⟨a, ha, rfl⟩ := mem_tokensOf hc hmint
  obtain ⟨b, hb, hab⟩ := mem_tokensOf hd hmint'
  exact hapart a ha b hb ((hg.registry.eq_iff_mint (hg.dest _ _ (hc.edges a ha))
    (hg.dest _ _ (hd.edges b hb))).mpr hab.symm)

/-- Paths without a common token are not the same cycle, wherever it is entered. -/
theorem not_perm_of_disjoint {P P' : ArbPath ExactF64} (h : SimpleTrade ops m P)
    (hdisjoint : (tokensOf P).Disjoint (tokensOf P')) : ¬P.hops.Perm P'.hops := by
  intro hperm
  obtain ⟨hop, hhop⟩ := List.exists_mem_of_length_pos (Nat.lt_of_lt_of_le Nat.zero_lt_two h.two_le)
  exact hdisjoint (List.mem_flatMap.mpr ⟨hop, hhop, List.mem_cons_self⟩)
    (List.mem_flatMap.mpr ⟨hop, hperm.mem_iff.mp hhop, List.mem_cons_self⟩)

end Cycle

/-! ## The theorem -/

/-- **THE RESULTS OF ONE CALL**: every path is a simple trade above the threshold,
    no two share a token, and so no cycle is reported twice. -/
theorem results_simple_disjoint (ops : List GraphOp) (hops : FeesBelowOne ops) (source : Nat)
    (state : BellmanFordState ExactF64) (minProfitRatio : ExactF64) :
    let results := (findArbitrageFrom (PriceGraph.build ops) source state minProfitRatio).2
    (∀ P ∈ results, SimpleTrade ops minProfitRatio P) ∧
      (results.Pairwise fun P P' => (tokensOf P).Disjoint (tokensOf P')) ∧
      results.Pairwise fun P P' => ¬P.hops.Perm P'.hops := by
  dsimp only
  obtain ⟨cs, hcs, heq⟩ := results_reported (s := source) (m := minProfitRatio) hops state
  rw [heq]
  have htrade : ∀ P ∈ cs.map report, SimpleTrade ops minProfitRatio P := by
    intro P hP
    obtain ⟨c, hc, rfl⟩ := List.mem_map.mp hP
    exact simpleTrade_of_cycle hops (hcs.cycle c hc).toSimpleCycle (hcs.length c hc).1
      (hcs.length c hc).2 (hcs.profit c hc)
  have hdisjoint : (cs.map report).Pairwise fun P P' => (tokensOf P).Disjoint (tokensOf P') := by
    refine List.pairwise_map.mpr (hcs.apart.imp_of_mem ?_)
    intro c d hc hd hapart
    exact tokensOf_disjoint (hcs.cycle c hc).toSimpleCycle (hcs.cycle d hd).toSimpleCycle hapart
  exact ⟨htrade, hdisjoint,
    hdisjoint.imp_of_mem fun hP _ h => not_perm_of_disjoint (htrade _ hP) h⟩

/-- On the two sample pools there is such a path. -/
theorem twoPools_simple_disjoint :
    let results := (findArbitrageFrom (PriceGraph.build twoPools) 0 (BellmanFordState.new 2)
      (fin 0.001)).2
    results ≠ [] ∧ (∀ P ∈ results, SimpleTrade twoPools (fin 0.001) P) ∧
      (results.Pairwise fun P P' => (tokensOf P).Disjoint (tokensOf P')) ∧
      results.Pairwise fun P P' => ¬P.hops.Perm P'.hops := by
  obtain ⟨hall, c, hc⟩ := twoPools_closes
  exact ⟨reported_of_cycle (BellmanFordState.new 2) twoPools_fees (by decide) (le_refl _) hall hc,
    results_simple_disjoint twoPools twoPools_fees 0 (BellmanFordState.new 2) (fin 0.001)⟩

end MevDisjoint
