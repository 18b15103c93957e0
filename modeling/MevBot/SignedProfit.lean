import Mathlib.Data.Int.Order.Basic
import Mathlib.Algebra.Order.Group.Unbundled.Int
import MevBot.CycleSimulation
import MevBot.DebugBuild
import MevBot.SwapLaws

/-! # The sign of a simulated profit

    `simulate_cycle` reads the output and the input of a cycle as `i64` before it
    subtracts them.  An amount of `2 ^ 63` or more reads as negative, so the
    profit has the sign of the exact difference exactly when the input and what the
    hops pay for it lie on one side of `2 ^ 63` (`signed_iff`); otherwise a losing cycle is reported
    as profitable, a profitable one as losing, or the subtraction overflows. -/

namespace MevSignedProfit

open MevMachine MevMath MevSimulation MevDebug ProductFormula

/-! ## The subtraction -/

/-- The top bit of an amount is clear: it reads as itself. -/
def FitsSigned (amount : UInt64) : Prop := amount.toNat < 2 ^ 63

theorem toInt64_fits {amount : UInt64} (h : FitsSigned amount) :
    amount.toInt64.toInt = amount.toNat := by
  rw [FitsSigned] at h
  rw [toInt64_toInt, Int.bmod_def, if_pos (by omega)]
  omega

theorem toInt64_large {amount : UInt64} (h : ¬FitsSigned amount) :
    amount.toInt64.toInt = amount.toNat - 2 ^ 64 := by
  have hlt := amount.toNat_lt
  rw [FitsSigned] at h
  rw [toInt64_toInt, Int.bmod_def, if_neg (by omega)]
  omega

/-- The exact difference as an `i64`, when it is one. -/
theorem profitOf_fits {current amountIn : UInt64}
    (hlo : -2 ^ 63 ≤ (current.toNat : Int) - amountIn.toNat)
    (hhi : (current.toNat : Int) - amountIn.toNat < 2 ^ 63) :
    (profitOf current amountIn).toInt = (current.toNat : Int) - amountIn.toNat := by
  rw [profitOf_toInt, Int.bmod_def]
  split
  · omega
  · omega

/-- A reported profit: nothing overflowed, it has the sign of the exact one, and it is the
    exact one where an `i64` can hold that. -/
structure Signed (debug : Debug Int64) (profit : Int64) (exact : Int) : Prop where
  noOverflow : debug = .ok profit
  sign : profit.toInt.sign = exact.sign
  equal : -2 ^ 63 ≤ exact → exact < 2 ^ 63 → profit.toInt = exact

/-- On one side of `2 ^ 63` the difference of the readings is the exact one. -/
theorem signed_of_sides {current amountIn : UInt64}
    (h : FitsSigned current ↔ FitsSigned amountIn) :
    Signed (profitOfDebug current amountIn) (profitOf current amountIn)
      (current.toNat - amountIn.toNat) := by
  have hcurrent := current.toNat_lt
  have hamount := amountIn.toNat_lt
  have hdiff : current.toInt64.toInt - amountIn.toInt64.toInt =
      (current.toNat : Int) - amountIn.toNat := by
    by_cases hfits : FitsSigned amountIn
    · rw [toInt64_fits hfits, toInt64_fits (h.mpr hfits)]
    · rw [toInt64_large hfits, toInt64_large (fun hc => hfits (h.mp hc))]
      omega
  have hbounds : -2 ^ 63 ≤ (current.toNat : Int) - amountIn.toNat ∧
      (current.toNat : Int) - amountIn.toNat < 2 ^ 63 := by
    by_cases hfits : FitsSigned amountIn
    · have hc := h.mpr hfits
      rw [FitsSigned] at hfits hc
      omega
    · have hc : ¬FitsSigned current := fun hc => hfits (h.mp hc)
      rw [FitsSigned] at hfits hc
      omega
  have hexact := profitOf_fits hbounds.1 hbounds.2
  refine ⟨?_, congrArg Int.sign hexact, fun _ _ => hexact⟩
  rw [profitOfDebug, subI64, if_pos (by rw [hdiff]; exact hbounds)]
  rfl

/-- Across `2 ^ 63` the readings differ the other way round, or by more than an `i64`. -/
theorem sides_of_signed {current amountIn : UInt64}
    (h : Signed (profitOfDebug current amountIn) (profitOf current amountIn)
      (current.toNat - amountIn.toNat)) :
    FitsSigned current ↔ FitsSigned amountIn := by
  have hcurrent := current.toNat_lt
  have hamount := amountIn.toNat_lt
  have hover := h.noOverflow
  have hsign := h.sign
  rw [profitOfDebug, subI64] at hover
  split at hover
  · rename_i hbounds
    have hread : (profitOf current amountIn).toInt =
        current.toInt64.toInt - amountIn.toInt64.toInt := by
      rw [profitOf, Int64.toInt_sub, Int.bmod_def]
      split
      · omega
      · omega
    rw [hread] at hsign
    by_cases hc : FitsSigned current
    · by_cases ha : FitsSigned amountIn
      · exact iff_of_true hc ha
      · rw [toInt64_fits hc, toInt64_large ha] at hsign
        rw [FitsSigned] at hc ha
        rw [Int.sign_eq_one_of_pos (by omega), Int.sign_eq_neg_one_of_neg (by omega)] at hsign
        cases hsign
    · by_cases ha : FitsSigned amountIn
      · rw [toInt64_large hc, toInt64_fits ha] at hsign
        rw [FitsSigned] at hc ha
        rw [Int.sign_eq_neg_one_of_neg (by omega), Int.sign_eq_one_of_pos (by omega)] at hsign
        cases hsign
      · exact iff_of_false hc ha
  · cases hover

/-! ## Cycles -/

/-- No chain of swaps makes something of nothing. -/
theorem amount_ne_zero {hops : List HopParams} {amountIn current : UInt64}
    (hrun : runHops hops amountIn = some current) (hcurrent : current ≠ 0) : amountIn ≠ 0 := by
  rintro rfl
  cases hops with
  | nil => exact hcurrent (Option.some.inj hrun).symm
  | cons hop hops =>
      have hnone : hop.swap 0 = none :=
        MevSwap.swapBaseIn_none_iff.mpr (Or.inr (Or.inr (Or.inl rfl)))
      rw [runHops, hnone] at hrun
      cases hrun

/-- What a chain of hops pays by the constant product of each, over the naturals; a hop keeps
    its fee modulo a word. -/
def chainPays : List HopParams → Nat → Nat
  | [], amount => amount
  | hop :: hops, amount =>
      chainPays hops (productOut hop.reserveIn.toNat hop.reserveOut.toNat
        (amount - amount * hop.feeNumerator.toNat / hop.feeDenominator.toNat % 2 ^ 64))

/-- A chain that succeeds pays that. -/
theorem chainPays_eq {hops : List HopParams} {amountIn current : UInt64}
    (hrun : runHops hops amountIn = some current) :
    chainPays hops amountIn.toNat = current.toNat := by
  induction hops generalizing amountIn with
  | nil => exact congrArg UInt64.toNat (Option.some.inj hrun)
  | cons hop hops ih =>
      rw [runHops] at hrun
      split at hrun
      · rename_i out fee hswap
        split at hrun
        · cases hrun
        · obtain ⟨-, rfl, -, heq⟩ := MevSwap.swapBaseIn_some_iff.mp hswap
          rw [MevSwap.chargedFee_toNat, MevSwap.trueFee] at heq
          rw [chainPays, ← heq]
          exact ih hrun
      · cases hrun

/-- The output of a chain stays below the reserve it comes from. -/
theorem runHops_lt {hops : List HopParams} {hop : HopParams} {amountIn current : UInt64}
    (hrun : runHops (hops ++ [hop]) amountIn = some current) : current < hop.reserveOut := by
  induction hops generalizing amountIn with
  | nil =>
      rw [List.nil_append, runHops] at hrun
      split at hrun
      · rename_i out fee hswap
        split at hrun
        · cases hrun
        · obtain rfl := Option.some.inj hrun
          obtain ⟨⟨hin, hout, -, -⟩, -, -, heq⟩ := MevSwap.swapBaseIn_some_iff.mp hswap
          rw [UInt64.lt_iff_toNat_lt, heq]
          exact (MevSwap.productOut_fits hin hout _).1
      · cases hrun
  | cons first hops ih =>
      rw [List.cons_append, runHops] at hrun
      split at hrun
      · split at hrun
        · cases hrun
        · exact ih hrun
      · cases hrun

/-- From an input below `2 ^ 63`, no last reserve up to `2 ^ 63` lets the output reach it. -/
theorem output_small {hops : List HopParams} {amountIn current : UInt64}
    (hrun : runHops hops amountIn = some current) (hamount : amountIn.toNat < 2 ^ 63)
    (hreserve : ∀ hop ∈ hops.getLast?, hop.reserveOut.toNat ≤ 2 ^ 63) :
    current.toNat < 2 ^ 63 := by
  rcases List.eq_nil_or_concat' hops with rfl | ⟨hops, hop, rfl⟩
  · obtain rfl := Option.some.inj hrun
    exact hamount
  · have hlt := UInt64.lt_iff_toNat_lt.mp (runHops_lt hrun)
    exact Nat.lt_of_lt_of_le hlt (hreserve hop List.getLast?_concat)

/-- **WHEN THE PROFIT HAS THE RIGHT SIGN**: for every chain of hops and every input whose
    final output is nonzero, exactly when the input and its constant-product payment lie on
    one side of `2 ^ 63`; so it has for an input below `2 ^ 63` that ends in a reserve of at
    most `2 ^ 63`. -/
theorem signed_iff (hops : List HopParams) (amountIn current : UInt64)
    (hrun : runHops hops amountIn = some current) (hcurrent : current ≠ 0) :
    (Signed (simulateCycleDebug hops amountIn) (simulateCycle hops amountIn)
        (current.toNat - amountIn.toNat) ↔
      (chainPays hops amountIn.toNat < 2 ^ 63 ↔ amountIn.toNat < 2 ^ 63)) ∧
    (amountIn.toNat < 2 ^ 63 → (∀ hop ∈ hops.getLast?, hop.reserveOut.toNat ≤ 2 ^ 63) →
      Signed (simulateCycleDebug hops amountIn) (simulateCycle hops amountIn)
        (current.toNat - amountIn.toNat)) := by
  have hamount := amount_ne_zero hrun hcurrent
  rw [chainPays_eq hrun]
  rw [simulateCycleDebug, simulateCycle, if_neg hamount, if_neg hamount, hrun]
  refine ⟨⟨sides_of_signed, signed_of_sides⟩, fun hsmall hreserve => ?_⟩
  exact signed_of_sides (iff_of_true (output_small hrun hsmall hreserve) hsmall)

/-- Two SOL through a shallow pool. -/
theorem smallPool_signed :
    Signed (simulateCycleDebug [⟨1000000, 1000000000000000000, 25, 10000⟩] 2000000000)
      (simulateCycle [⟨1000000, 1000000000000000000, 25, 10000⟩] 2000000000)
      ((999498997995991983 : UInt64).toNat - (2000000000 : UInt64).toNat) :=
  (signed_iff [⟨1000000, 1000000000000000000, 25, 10000⟩] 2000000000 _ (by decide)
    (by decide)).1.mpr (by decide)

/-- A pool whose virtual reserve saturated, and a pool that pays at most five units. -/
def saturatedHops : List HopParams := [⟨1000000, 18446744073709551615, 3000, 1000000⟩]

def emptyHops : List HopParams := [⟨1, 6, 0, 1⟩]

/-- **BOTH SIGNS GO WRONG**: an input of ten million that gains more than `2 ^ 63` is reported
    as a loss, and an input above `2 ^ 63` that returns five units as a gain. -/
theorem signs_swapped :
    (∃ current, runHops saturatedHops 10000000 = some current ∧
      (10000000 : UInt64).toNat < current.toNat ∧
      (simulateCycle saturatedHops 10000000).toInt < 0) ∧
    runHops emptyHops 9223372036854775818 = some 5 ∧
      0 < (simulateCycle emptyHops 9223372036854775818).toInt ∧
    ¬∀ hops amountIn current, runHops hops amountIn = some current → current ≠ 0 →
      Signed (simulateCycleDebug hops amountIn) (simulateCycle hops amountIn)
        (current.toNat - amountIn.toNat) := by
  refine ⟨⟨_, rfl, by decide, by decide⟩, by decide, by decide, ?_⟩
  intro hall
  have hsign := (hall emptyHops 9223372036854775818 5 (by decide) (by decide)).sign
  revert hsign
  decide

end MevSignedProfit
