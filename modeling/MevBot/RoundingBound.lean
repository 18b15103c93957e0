import Mathlib.Algebra.BigOperators.Group.List.Basic
import Mathlib.Algebra.Order.BigOperators.Group.List
import Mathlib.Algebra.Order.BigOperators.GroupWithZero.List
import Mathlib.Data.Nat.Cast.Order.Field
import Mathlib.Data.Rat.Cast.Order
import Mathlib.Tactic.FieldSimp
import Mathlib.Tactic.GCongr
import Mathlib.Tactic.Linarith
import Mathlib.Tactic.Ring
import MevBot.CycleSimulation
import MevBot.SwapLaws

/-! # Screening against simulation

    The graph screens a cycle by the product of its effective rates, the
    simulation runs it in whole units.  Outputs round DOWN, which can only
    lose; but fees round down too, and a fee dropped at one hop is multiplied
    by the rates of the hops after it.  So a cycle the graph rates at most one
    can gain as much as its dropped fees are worth (`simulateCycle_le_slack`),
    and no more. -/

namespace MevRounding

open MevMachine MevMath MevSimulation MevSwap

/-! ## One hop -/

/-- A hop with reserves and a fee below one. -/
structure SoundHop (hop : HopParams) : Prop where
  reserveIn : hop.reserveIn ≠ 0
  reserveOut : hop.reserveOut ≠ 0
  fee : hop.feeNumerator < hop.feeDenominator

/-- The spot rate of a hop. -/
def spotRate (hop : HopParams) : ℚ := hop.reserveOut.toNat / hop.reserveIn.toNat

/-- The exact fee share of a hop. -/
def feeShare (hop : HopParams) : ℚ := hop.feeNumerator.toNat / hop.feeDenominator.toNat

/-- The effective rate of a hop. -/
def effectiveRate (hop : HopParams) : ℚ := spotRate hop * (1 - feeShare hop)

/-- The fraction of a unit by which the fee on `amount` is rounded down. -/
def droppedFee (hop : HopParams) (amount : UInt64) : ℚ :=
  (amount.toNat * hop.feeNumerator.toNat % hop.feeDenominator.toNat : Nat) /
    hop.feeDenominator.toNat

/-- What a successful swap pays, in naturals. -/
theorem swapBaseIn_spec {reserveIn reserveOut amountIn num den out fee : UInt64}
    (hfee : num < den)
    (h : swapBaseIn reserveIn reserveOut amountIn num den = some (out, fee)) :
    fee.toNat = amountIn.toNat * num.toNat / den.toNat ∧
      out.toNat = reserveOut.toNat * (amountIn.toNat - fee.toNat) /
        (reserveIn.toNat + (amountIn.toNat - fee.toNat)) := by
  obtain ⟨-, rfl, -, hout⟩ := swapBaseIn_some_iff.mp h
  -- a fee below one fits the word it is cast to
  exact ⟨(chargedFee_of_le amountIn (UInt64.le_of_lt hfee)).1, hout⟩

/-- A swap pays at most the effective rate on its input, and the spot rate on the
    part of the fee that was dropped. -/
theorem swap_le {hop : HopParams} (hsound : SoundHop hop) {amount out fee : UInt64}
    (h : hop.swap amount = some (out, fee)) :
    (out.toNat : ℚ) ≤
      effectiveRate hop * amount.toNat + spotRate hop * droppedFee hop amount := by
  obtain ⟨hfee, hout⟩ := swapBaseIn_spec hsound.fee h
  have hlt : hop.feeNumerator.toNat < hop.feeDenominator.toNat :=
    UInt64.lt_iff_toNat_lt.mp hsound.fee
  have hden : (0 : ℚ) < hop.feeDenominator.toNat := Nat.cast_pos.mpr (Nat.zero_lt_of_lt hlt)
  have hrin : (0 : ℚ) < hop.reserveIn.toNat := Nat.cast_pos.mpr (toNat_pos hsound.reserveIn)
  have hfeeLe : fee.toNat ≤ amount.toNat := by
    rw [hfee]
    exact ProductFormula.share_le _ (Nat.le_of_lt hlt)
  -- what is left after the fee, exactly
  have hafter : ((amount.toNat - fee.toNat : Nat) : ℚ) =
      amount.toNat * (1 - feeShare hop) + droppedFee hop amount := by
    have hdiv : (hop.feeDenominator.toNat : ℚ) * fee.toNat +
        (amount.toNat * hop.feeNumerator.toNat % hop.feeDenominator.toNat : Nat) =
          amount.toNat * hop.feeNumerator.toNat := by
      rw [hfee]
      exact_mod_cast Nat.div_add_mod (amount.toNat * hop.feeNumerator.toNat)
        hop.feeDenominator.toNat
    rw [Nat.cast_sub hfeeLe, feeShare, droppedFee]
    field_simp
    linarith
  -- the output, before its own rounding, is below the spot rate
  have houtLe : (out.toNat : ℚ) ≤ spotRate hop * (amount.toNat - fee.toNat : Nat) := by
    rw [hout]
    refine Nat.cast_div_le.trans ?_
    rw [spotRate, div_mul_eq_mul_div, Nat.cast_mul, Nat.cast_add]
    gcongr
    exact le_add_of_nonneg_right (Nat.cast_nonneg _)
  calc (out.toNat : ℚ) ≤ spotRate hop * (amount.toNat - fee.toNat : Nat) := houtLe
    _ = effectiveRate hop * amount.toNat + spotRate hop * droppedFee hop amount := by
        rw [hafter, effectiveRate]
        ring

/-! ## A chain of hops -/

/-- What the fees dropped along a chain are worth at its end: each is multiplied
    by the spot rate of its hop and the effective rates of the later ones. -/
def droppedValue : List HopParams → UInt64 → ℚ
  | [], _ => 0
  | hop :: hops, amount =>
      spotRate hop * droppedFee hop amount * (hops.map effectiveRate).prod +
        match hop.swap amount with
        | some (out, _) => droppedValue hops out
        | none => 0

/-- The same with every dropped fee taken as a whole unit; it does not depend on
    the amount. -/
def droppedBound : List HopParams → ℚ
  | [] => 0
  | hop :: hops => spotRate hop * (hops.map effectiveRate).prod + droppedBound hops

/-- No fee along the chain is rounded. -/
def FeesExact : List HopParams → UInt64 → Prop
  | [], _ => True
  | hop :: hops, amount =>
      hop.feeDenominator.toNat ∣ amount.toNat * hop.feeNumerator.toNat ∧
        ∀ out fee, hop.swap amount = some (out, fee) → FeesExact hops out

/-- Reserves are not negative. -/
theorem spotRate_nonneg (hop : HopParams) : 0 ≤ spotRate hop :=
  div_nonneg (Nat.cast_nonneg _) (Nat.cast_nonneg _)

/-- No fee takes more than the whole. -/
theorem SoundHop.effectiveRate_nonneg {hop : HopParams} (h : SoundHop hop) :
    0 ≤ effectiveRate hop := by
  have hlt : (hop.feeNumerator.toNat : ℚ) ≤ hop.feeDenominator.toNat :=
    Nat.cast_le.mpr (Nat.le_of_lt (UInt64.lt_iff_toNat_lt.mp h.fee))
  exact mul_nonneg (spotRate_nonneg hop)
    (sub_nonneg.mpr (div_le_one_of_le₀ hlt (Nat.cast_nonneg _)))

/-- The fee is rounded down. -/
theorem droppedFee_nonneg (hop : HopParams) (amount : UInt64) : 0 ≤ droppedFee hop amount :=
  div_nonneg (Nat.cast_nonneg _) (Nat.cast_nonneg _)

/-- It is rounded by at most a unit. -/
theorem SoundHop.droppedFee_le_one {hop : HopParams} (h : SoundHop hop) (amount : UInt64) :
    droppedFee hop amount ≤ 1 := by
  have hpos : 0 < hop.feeDenominator.toNat :=
    Nat.zero_lt_of_lt (UInt64.lt_iff_toNat_lt.mp h.fee)
  exact div_le_one_of_le₀ (Nat.cast_le.mpr (Nat.le_of_lt (Nat.mod_lt _ hpos)))
    (Nat.cast_nonneg _)

theorem prod_effectiveRate_nonneg {hops : List HopParams} (h : ∀ hop ∈ hops, SoundHop hop) :
    0 ≤ (hops.map effectiveRate).prod := by
  refine List.prod_nonneg ?_
  intro x hx
  obtain ⟨hop, hhop, rfl⟩ := List.mem_map.mp hx
  exact (h hop hhop).effectiveRate_nonneg

/-- So the value dropped on the way is not negative. -/
theorem droppedValue_nonneg {hops : List HopParams} (h : ∀ hop ∈ hops, SoundHop hop)
    (amount : UInt64) : 0 ≤ droppedValue hops amount := by
  induction hops generalizing amount with
  | nil => exact le_refl 0
  | cons hop hops ih =>
      have htail : ∀ hop ∈ hops, SoundHop hop := fun x hx => h x (List.mem_cons_of_mem hop hx)
      rw [droppedValue]
      refine add_nonneg (mul_nonneg (mul_nonneg (spotRate_nonneg hop) (droppedFee_nonneg _ _))
        (prod_effectiveRate_nonneg htail)) ?_
      split
      · exact ih htail _
      · exact le_refl 0

theorem droppedBound_nonneg {hops : List HopParams} (h : ∀ hop ∈ hops, SoundHop hop) :
    0 ≤ droppedBound hops := by
  induction hops with
  | nil => exact le_refl 0
  | cons hop hops ih =>
      have htail : ∀ hop ∈ hops, SoundHop hop := fun x hx => h x (List.mem_cons_of_mem hop hx)
      exact add_nonneg (mul_nonneg (spotRate_nonneg hop) (prod_effectiveRate_nonneg htail))
        (ih htail)

/-- The dropped fees are worth at most one unit each. -/
theorem droppedValue_le_bound {hops : List HopParams} (h : ∀ hop ∈ hops, SoundHop hop)
    (amount : UInt64) : droppedValue hops amount ≤ droppedBound hops := by
  induction hops generalizing amount with
  | nil => exact le_refl 0
  | cons hop hops ih =>
      have htail : ∀ hop ∈ hops, SoundHop hop := fun x hx => h x (List.mem_cons_of_mem hop hx)
      rw [droppedValue, droppedBound]
      refine add_le_add ?_ ?_
      · refine mul_le_mul_of_nonneg_right ?_ (prod_effectiveRate_nonneg htail)
        exact mul_le_of_le_one_right (spotRate_nonneg hop)
          ((h hop List.mem_cons_self).droppedFee_le_one amount)
      · split
        · exact ih htail _
        · exact droppedBound_nonneg htail

/-- Without rounded fees nothing is dropped. -/
theorem droppedValue_of_exact {hops : List HopParams} {amount : UInt64}
    (h : FeesExact hops amount) : droppedValue hops amount = 0 := by
  induction hops generalizing amount with
  | nil => rfl
  | cons hop hops ih =>
      obtain ⟨hdvd, htail⟩ := h
      have hzero : droppedFee hop amount = 0 := by
        rw [droppedFee, Nat.mod_eq_zero_of_dvd hdvd, Nat.cast_zero, zero_div]
      rw [droppedValue, hzero, mul_zero, zero_mul, zero_add]
      split
      · rename_i out fee hswap
        exact ih (htail out fee hswap)
      · rfl

/-- **THE CHAIN BOUND**: the final output is at most the product of the effective
    rates on the input, and the value of the dropped fees. -/
theorem runHops_le {hops : List HopParams} (h : ∀ hop ∈ hops, SoundHop hop)
    {amount final : UInt64} (hrun : runHops hops amount = some final) :
    (final.toNat : ℚ) ≤
      (hops.map effectiveRate).prod * amount.toNat + droppedValue hops amount := by
  induction hops generalizing amount with
  | nil =>
      obtain rfl := Option.some.inj hrun
      rw [List.map_nil, List.prod_nil, one_mul, droppedValue, add_zero]
  | cons hop hops ih =>
      have htail : ∀ hop ∈ hops, SoundHop hop := fun x hx => h x (List.mem_cons_of_mem hop hx)
      rw [runHops] at hrun
      split at hrun
      · rename_i out fee hswap
        split at hrun
        · cases hrun
        -- the bound of this hop, scaled by the rates of the later ones
        · have hrest := ih htail hrun
          have hhop := swap_le (h hop List.mem_cons_self) hswap
          have hscaled := mul_le_mul_of_nonneg_left hhop (prod_effectiveRate_nonneg htail)
          rw [droppedValue, hswap, List.map_cons, List.prod_cons]
          dsimp only
          linarith
      · cases hrun

/-! ## The simulation -/

/-- The wrapping profit never exceeds a bound that the exact one respects. -/
theorem profitOf_le {final amount : UInt64} (hamount : amount.toNat < 2 ^ 63) {bound : ℚ}
    (hbound : 0 ≤ bound) (h : (final.toNat : ℚ) - amount.toNat ≤ bound) :
    ((profitOf final amount).toInt : ℚ) ≤ bound := by
  have hfinal := final.toNat_lt
  have hle : (profitOf final amount).toInt ≤ max 0 ((final.toNat : Int) - amount.toNat) := by
    -- `as i64` wraps: a final amount past 2^63 only comes out lower
    rw [profitOf_toInt, Int.bmod_def]
    split
    · omega
    · omega
  have hcast : ((profitOf final amount).toInt : ℚ) ≤
      max 0 ((final.toNat : ℚ) - amount.toNat) := by
    exact_mod_cast hle
  exact hcast.trans (max_le hbound h)

/-- The simulated profit of a cycle is at most what its rate gains on the amount, and the
    value of the fees it rounds down. -/
theorem simulateCycle_le {hops : List HopParams} {amount : UInt64}
    (hsound : ∀ hop ∈ hops, SoundHop hop) {gain : ℚ} (hgain : 0 ≤ gain)
    (hrate : (hops.map effectiveRate).prod ≤ 1 + gain) (hamount : amount.toNat < 2 ^ 63) :
    ((simulateCycle hops amount).toInt : ℚ) ≤ gain * amount.toNat + droppedValue hops amount := by
  have hnonneg : 0 ≤ gain * amount.toNat + droppedValue hops amount :=
    add_nonneg (mul_nonneg hgain (Nat.cast_nonneg _)) (droppedValue_nonneg hsound amount)
  rw [simulateCycle]
  split
  · exact hnonneg
  · cases hrun : runHops hops amount with
    | none =>
        -- a hop that fails gives `i64::MIN`
        refine le_trans ?_ hnonneg
        exact_mod_cast (by decide : Int64.minValue.toInt ≤ 0)
    | some final =>
        refine profitOf_le hamount hnonneg ?_
        have hchain := runHops_le hsound hrun
        have hin := mul_le_mul_of_nonneg_right hrate (Nat.cast_nonneg (α := ℚ) amount.toNat)
        linarith

/-- **THE SIMULATED PROFIT OF A CYCLE RATED AT MOST ONE** is at most the value of
    the fees it rounds down, whatever the amount; it is not positive when no fee
    is rounded. -/
theorem simulateCycle_le_slack (hops : List HopParams) (amount : UInt64)
    (hsound : ∀ hop ∈ hops, SoundHop hop) (hrate : (hops.map effectiveRate).prod ≤ 1)
    (hamount : amount.toNat < 2 ^ 63) :
    ((simulateCycle hops amount).toInt : ℚ) ≤ droppedValue hops amount ∧
      droppedValue hops amount ≤ droppedBound hops ∧
      (FeesExact hops amount → (simulateCycle hops amount).toInt ≤ 0) := by
  have hmain : ((simulateCycle hops amount).toInt : ℚ) ≤ droppedValue hops amount := by
    have hle := simulateCycle_le hsound (le_refl 0) (by rwa [add_zero]) hamount
    rwa [zero_mul, zero_add] at hle
  refine ⟨hmain, droppedValue_le_bound hsound amount, ?_⟩
  intro hexact
  rw [droppedValue_of_exact hexact] at hmain
  exact_mod_cast hmain

theorem soundHop_pair {a b : HopParams} (ha : SoundHop a) (hb : SoundHop b) :
    ∀ hop ∈ [a, b], SoundHop hop := by
  intro hop hhop
  rcases List.mem_cons.mp hhop with rfl | hhop
  · exact ha
  · rwa [List.mem_singleton.mp hhop]

/-- Balanced pools with a fee of 25 basis points and an amount they divide. -/
theorem balanced_pools_lose :
    (simulateCycle [⟨1000000, 1000000, 25, 10000⟩, ⟨1000000, 1000000, 0, 10000⟩] 40000).toInt ≤
      0 := by
  refine (simulateCycle_le_slack _ 40000 ?_ ?_ (by decide)).2.2 ?_
  · exact soundHop_pair ⟨by decide, by decide, by decide⟩ ⟨by decide, by decide, by decide⟩
  · simp only [List.map_cons, List.map_nil, List.prod_cons, List.prod_nil, effectiveRate, spotRate,
      feeShare, UInt64.reduceToNat]
    norm_num
  · refine ⟨by decide, fun out fee _ => ⟨?_, fun _ _ _ => trivial⟩⟩
    exact dvd_mul_of_dvd_right (dvd_zero _) out.toNat

/-- **A CYCLE RATED BELOW ONE THAT SIMULATES TO A PROFIT**: the second hop's fee
    on 99 units rounds to nothing, and a unit is worth 1002 there. -/
theorem unprofitable_cycle_profits :
    (∀ hop ∈ ([⟨1000000000000000, 1000000000000, 0, 10000⟩,
        ⟨1000000000000, 1002000000000000, 25, 10000⟩] : List HopParams), SoundHop hop) ∧
      (([⟨1000000000000000, 1000000000000, 0, 10000⟩,
        ⟨1000000000000, 1002000000000000, 25, 10000⟩] : List HopParams).map
          effectiveRate).prod ≤ 1 ∧
      (simulateCycle [⟨1000000000000000, 1000000000000, 0, 10000⟩,
        ⟨1000000000000, 1002000000000000, 25, 10000⟩] 100100).toInt = 99 := by
  refine ⟨?_, ?_, by decide⟩
  · exact soundHop_pair ⟨by decide, by decide, by decide⟩ ⟨by decide, by decide, by decide⟩
  -- the rates multiply to 1.002 * (1 - 0.0025)
  · simp only [List.map_cons, List.map_nil, List.prod_cons, List.prod_nil, effectiveRate, spotRate,
      feeShare, UInt64.reduceToNat]
    norm_num

end MevRounding
