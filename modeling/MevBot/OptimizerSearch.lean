import Mathlib.Data.Finset.Max
import Mathlib.Order.Interval.Finset.Nat
import MevBot.CycleSimulation
import MevBot.Library.TernarySearch

/-! # Does the optimizer find the peak?

    `optimize_arb_amount` searches the profit curve of a cycle by thirds and
    takes the curve to rise to a peak and fall behind it.  The curve of whole
    units is not like that: amounts too small to produce any output all have the
    profit `i64::MIN`, and a tie drops the upper third (`peak_above_dead_amounts`).
    So the search ends within a thousandth of the best profit exactly when no cut
    drops the last amount that does, and the middle of the last interval is one
    (`findsPeak_iff`); a curve that does rise and fall, seen from a probe's
    distance, is safe (`findsPeak_of_peaked`). -/

namespace MevOptimizer

open MevMachine MevMath MevSimulation TernarySearch

/-! ## The probing loop is a ternary search -/

/-- The profit of a cycle by amount. -/
def curve (hops : List HopParams) (amount : Nat) : Int :=
  (simulateCycle hops (UInt64.ofNat amount)).toInt

/-- An interval of amounts. -/
def amounts {lo hi : UInt64} (h : lo ≤ hi) : Bracket :=
  ⟨lo.toNat, hi.toNat, UInt64.le_iff_toNat_le.mp h⟩

theorem curve_toNat (hops : List HopParams) (amount : UInt64) :
    curve hops amount.toNat = (simulateCycle hops amount).toInt := by
  rw [curve, UInt64.ofNat_toNat]

section Loop

variable {lo hi : UInt64}

theorem amounts_first (h : lo ≤ hi) : (amounts h).first = (lo + (hi - lo) / 3).toNat := by
  have hhi := hi.toNat_lt
  have hle := UInt64.le_iff_toNat_le.mp h
  rw [UInt64.toNat_add, third_toNat h, Nat.mod_eq_of_lt (by omega)]
  rfl

theorem amounts_second (h : lo ≤ hi) : (amounts h).second = (hi - (hi - lo) / 3).toNat := by
  have hle := UInt64.le_iff_toNat_le.mp h
  rw [UInt64.toNat_sub_of_le _ _ (by rw [UInt64.le_iff_toNat_le, third_toNat h]; omega),
    third_toNat h]
  rfl

/-- The two intervals a probing leaves are the two cuts. -/
theorem amounts_upper (h : lo ≤ hi) :
    amounts (probes_mem h).1.2 = ⟨(amounts h).first, (amounts h).hi, (amounts h).first_le⟩ := by
  ext
  · exact (amounts_first h).symm
  · rfl

theorem amounts_lower (h : lo ≤ hi) :
    amounts (probes_mem h).2.1 = ⟨(amounts h).lo, (amounts h).second, (amounts h).le_second⟩ := by
  ext
  · rfl
  · exact (amounts_second h).symm

/-- **THE PROBING LOOP IS A TERNARY SEARCH** of the profit curve, down to widths below 1000. -/
theorem probe_search (hops : List HopParams) (n : Nat) (h : lo ≤ hi) :
    (probe hops n lo hi).1.toNat = (search (curve hops) 1000 n (amounts h)).lo ∧
      (probe hops n lo hi).2.toNat = (search (curve hops) 1000 n (amounts h)).hi := by
  induction n generalizing lo hi with
  | zero => exact ⟨rfl, rfl⟩
  | succ n ih =>
      have hwidth : hi - lo < 1000 ↔ (amounts h).width < 1000 := by
        rw [UInt64.lt_iff_toNat_lt, UInt64.toNat_sub_of_le _ _ h]
        exact Iff.rfl
      have hprobes : simulateCycle hops (lo + (hi - lo) / 3) <
          simulateCycle hops (hi - (hi - lo) / 3) ↔
            curve hops (amounts h).first < curve hops (amounts h).second := by
        rw [amounts_first, amounts_second, curve_toNat, curve_toNat]
        exact Int64.lt_iff_toInt_lt
      rw [probe]
      split
      · rename_i hnarrow
        rw [search_narrow (hwidth.mp hnarrow)]
        exact ⟨rfl, rfl⟩
      · rename_i hwide
        rw [search_succ, step_wide (Nat.not_lt.mp (fun hw => hwide (hwidth.mpr hw)))]
        dsimp only
        split
        · rename_i hlt
          rw [cut_upper (hprobes.mp hlt), ← amounts_upper h]
          exact ih (probes_mem h).1.2
        · rename_i hlt
          rw [cut_lower (fun hlt' => hlt (hprobes.mpr hlt')), ← amounts_lower h]
          exact ih (probes_mem h).2.1

end Loop

/-! ## The last interval -/

section Range

variable {minInput maxInput : UInt64}

/-- Fifty rounds narrow any interval up to the documented maximum. -/
theorem last_narrow (hops : List HopParams) (h : minInput ≤ maxInput)
    (hmax : maxInput.toNat ≤ 10000000000) :
    (search (curve hops) 1000 50 (amounts h)).width < 1000 := by
  refine width_search_lt (m := 10000000000) ?_ (by decide)
  exact Nat.le_trans (Nat.sub_le _ _) hmax

/-- With hops and a range there is a search. -/
theorem not_guarded {hops : List HopParams} (hne : hops ≠ []) (h : minInput < maxInput) :
    ¬(hops.isEmpty = true ∨ maxInput ≤ minInput) := by
  rintro (hnil | hle)
  · exact hne (List.isEmpty_iff.mp hnil)
  · exact UInt64.not_le.mpr h hle

/-- The optimizer returns the profit in the middle of its last interval. -/
theorem optimizeArbAmount_mid {hops : List HopParams} (hne : hops ≠ [])
    (h : minInput < maxInput) (hmax : maxInput.toNat ≤ 10000000000) :
    (optimizeArbAmount hops maxInput minInput).2.toInt =
      curve hops (search (curve hops) 1000 50 (amounts (UInt64.le_of_lt h))).mid := by
  obtain ⟨hlo, hhi⟩ := probe_search hops 50 (UInt64.le_of_lt h)
  obtain ⟨-, hle, htop⟩ := probe_bounds hops 50 minInput maxInput (UInt64.le_of_lt h)
  have hmid : (((probe hops 50 minInput maxInput).1 +
      (probe hops 50 minInput maxInput).2) / 2).toNat =
        (search (curve hops) 1000 50 (amounts (UInt64.le_of_lt h))).mid := by
    rw [UInt64.le_iff_toNat_le] at hle htop
    rw [UInt64.toNat_div, UInt64.toNat_add, Nat.mod_eq_of_lt (by omega), hlo, hhi]
    rfl
  rw [optimizeArbAmount, if_neg (not_guarded hne h), ← hmid, curve_toNat]

/-! ## Near the best profit -/

/-- No profit between the bounds is more than a thousandth above the one at `amount`. -/
def NearBest (hops : List HopParams) (minInput maxInput : UInt64) (amount : Nat) : Prop :=
  ∀ x, minInput ≤ x → x ≤ maxInput → 0 < (simulateCycle hops x).toInt →
    999 * (simulateCycle hops x).toInt ≤ 1000 * curve hops amount

/-- The optimizer's profit is within a thousandth of every profit between its bounds. -/
def FindsPeak (hops : List HopParams) (maxInput minInput : UInt64) : Prop :=
  ∀ x, minInput ≤ x → x ≤ maxInput → 0 < (simulateCycle hops x).toInt →
    999 * (simulateCycle hops x).toInt ≤
      1000 * (optimizeArbAmount hops maxInput minInput).2.toInt

/-- Between the bounds there is an amount of best profit. -/
theorem exists_nearBest (hops : List HopParams) (h : minInput ≤ maxInput) :
    ∃ x, (amounts h).Has x ∧ NearBest hops minInput maxInput x := by
  obtain ⟨x, hx, hbest⟩ := (Finset.Icc minInput.toNat maxInput.toNat).exists_max_image
    (curve hops) (Finset.nonempty_Icc.mpr (UInt64.le_iff_toNat_le.mp h))
  refine ⟨x, Finset.mem_Icc.mp hx, ?_⟩
  intro y hlo hhi hpos
  have hle := hbest y.toNat (Finset.mem_Icc.mpr
    ⟨UInt64.le_iff_toNat_le.mp hlo, UInt64.le_iff_toNat_le.mp hhi⟩)
  rw [curve_toNat] at hle
  omega

/-- Without hops there is nothing to gain. -/
theorem simulateCycle_nil (amount : UInt64) : (simulateCycle [] amount).toInt = 0 := by
  rw [simulateCycle]
  split
  · rfl
  · rw [runHops]
    dsimp only
    rw [profitOf_toInt, Int.sub_self]
    rfl

/-- The optimizer finds the peak when the middle of its last interval is near the best. -/
theorem findsPeak_iff_mid (hops : List HopParams) (h : minInput < maxInput)
    (hmax : maxInput.toNat ≤ 10000000000) :
    FindsPeak hops maxInput minInput ↔ NearBest hops minInput maxInput
      (search (curve hops) 1000 50 (amounts (UInt64.le_of_lt h))).mid := by
  cases hops with
  | nil =>
      constructor
      · intro _ x _ _ hpos
        rw [simulateCycle_nil] at hpos
        omega
      · intro _ x _ _ hpos
        rw [simulateCycle_nil] at hpos
        omega
  | cons hop hops =>
      rw [FindsPeak, NearBest, optimizeArbAmount_mid (List.cons_ne_nil hop hops) h hmax]

/-- **A CURVE THAT RISES AND FALLS IS SEARCHED RIGHT**: seen from 333 units apart it rises up to
    `p` and does not rise from `q` on, and within 500 units of that plateau the profit is
    near the best. -/
theorem findsPeak_of_peaked (hops : List HopParams) (h : minInput < maxInput)
    (hmax : maxInput.toNat ≤ 10000000000) {p q : Nat}
    (hpeaked : Peaked (curve hops) 333 (amounts (UInt64.le_of_lt h)) p q)
    (hlo : minInput.toNat ≤ q) (hhi : p ≤ maxInput.toNat)
    (hflat : ∀ x, p ≤ x + 500 → x ≤ q + 500 → NearBest hops minInput maxInput x) :
    FindsPeak hops maxInput minInput := by
  have hmeets := hpeaked.search (w := 1000) (by decide) hlo hhi 50
  obtain ⟨hbelow, habove⟩ :=
    mid_near (last_narrow hops (UInt64.le_of_lt h) hmax) hmeets.1 hmeets.2
  exact (findsPeak_iff_mid hops h hmax).mpr (hflat _ hbelow habove)

/-- The interval after `k` probings. -/
def interval (hops : List HopParams) (h : minInput < maxInput) (k : Nat) : Bracket :=
  search (curve hops) 1000 k (amounts (UInt64.le_of_lt h))

/-- **WHEN THE OPTIMIZER FINDS THE PEAK**: exactly when no probing of an interval of 1000 or more
    drops its last amount near the best, and the middle of the last interval is near the best
    if any amount left there is.  A curve that rises and falls, seen from a probe's distance,
    with a plateau near the best, is such a one. -/
theorem findsPeak_iff (hops : List HopParams) (minInput maxInput : UInt64)
    (h : minInput < maxInput) (hmax : maxInput.toNat ≤ 10000000000) :
    (FindsPeak hops maxInput minInput ↔
      (∀ k, 1000 ≤ (interval hops h k).width →
        ¬Misled (curve hops) (NearBest hops minInput maxInput) (interval hops h k)) ∧
      ((∃ x, (interval hops h 50).Has x ∧ NearBest hops minInput maxInput x) →
        NearBest hops minInput maxInput (interval hops h 50).mid)) ∧
    ∀ p q, minInput.toNat ≤ q → p ≤ maxInput.toNat →
      Peaked (curve hops) 333 (amounts (UInt64.le_of_lt h)) p q →
      (∀ x, p ≤ x + 500 → x ≤ q + 500 → NearBest hops minInput maxInput x) →
      FindsPeak hops maxInput minInput := by
  constructor
  · exact (findsPeak_iff_mid hops h hmax).trans
      (good_mid_iff (exists_nearBest hops (UInt64.le_of_lt h))
        (last_narrow hops (UInt64.le_of_lt h) hmax))
  · intro p q hlo hhi hpeaked hflat
    exact findsPeak_of_peaked hops h hmax hpeaked hlo hhi hflat

end Range

/-! ## Dead amounts -/

/-- A pool that pays nothing for less than about nine thousand million units and one unit for
    more, and a pool that pays twenty thousand million for a unit. -/
def deadHops : List HopParams := [⟨9000000000, 2, 25, 10000⟩, ⟨1, 40000000000, 25, 10000⟩]

theorem deadHops_missed : ¬FindsPeak deadHops 10000000000 1000000 := by
  intro h
  have hlost : (optimizeArbAmount deadHops 10000000000 1000000).2 = Int64.minValue := by
    decide +kernel
  have hgain : (simulateCycle deadHops 9500000000).toInt = 10500000000 := by
    decide
  have hle := h 9500000000 (by decide) (by decide) (by rw [hgain]; decide)
  rw [hgain, hlost] at hle
  exact absurd hle (by decide)

/-- **A PEAK ABOVE DEAD AMOUNTS IS MISSED**: both first probes hit dead amounts, the tie drops
    the upper third, and with it every amount that pays. -/
theorem peak_above_dead_amounts :
    (∀ hop ∈ deadHops, hop.reserveIn ≠ 0 ∧ hop.reserveOut ≠ 0 ∧
      hop.feeNumerator < hop.feeDenominator) ∧
      (simulateCycle deadHops 9500000000).toInt = 10500000000 ∧
      (optimizeArbAmount deadHops 10000000000 1000000).2 = Int64.minValue ∧
      ¬FindsPeak deadHops 10000000000 1000000 :=
  ⟨by decide, by decide, by decide +kernel, deadHops_missed⟩

/-- The search among the dead amounts was misled, or ended beside an amount that pays. -/
theorem deadHops_misled :
    ¬((∀ k, 1000 ≤ (interval deadHops (by decide : (1000000 : UInt64) < 10000000000) k).width →
        ¬Misled (curve deadHops) (NearBest deadHops 1000000 10000000000)
          (interval deadHops (by decide : (1000000 : UInt64) < 10000000000) k)) ∧
      ((∃ x, (interval deadHops (by decide : (1000000 : UInt64) < 10000000000) 50).Has x ∧
          NearBest deadHops 1000000 10000000000 x) →
        NearBest deadHops 1000000 10000000000
          (interval deadHops (by decide : (1000000 : UInt64) < 10000000000) 50).mid)) :=
  (findsPeak_iff deadHops 1000000 10000000000 (by decide) (by decide)).1.not.mp deadHops_missed

end MevOptimizer
