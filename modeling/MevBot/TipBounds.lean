import MevBot.ExactReal
import MevBot.RiskControls

/-! # How much is tipped

    `calculate_tip` takes a fraction of the profit, raises it to the minimum tip
    and caps it last, so the cap always wins.  The minimum tip wins over the
    profit: an opportunity that earns less is tipped at a loss unless the cap is
    lower still (`tip_bounds`).  A minimum profit of ten thousand lamports or
    more keeps every approved opportunity above its tip. -/

namespace MevTip

open MevMachine MevTypes MevRisk MevExact

/-! ## The executor's copy -/

/-- `tip_calculator::calculate_tip`. -/
def calculateTip {F : Type} [F64 F] (expectedProfitLamports : Int64) (tipFraction : F)
    (maxTipLamports : UInt64) : UInt64 :=
  if expectedProfitLamports ≤ 0 then MIN_TIP_LAMPORTS
  else
    let tip := F64.toU64 (F64.ofInt expectedProfitLamports.toInt * tipFraction)
    min (max tip MIN_TIP_LAMPORTS) maxTipLamports

/-- The executor's copy and the risk limits' compute the same tip. -/
theorem calculateTip_eq {F : Type} [F64 F] (r : RiskLimits F) (profitLamports : Int64) :
    r.calculateTip profitLamports =
      calculateTip profitLamports r.tipFraction r.maxTipLamports := rfl

/-! ## The fraction -/

section Fraction

variable {fraction : ℝ} {profit : Int64}

/-- A share of at most the whole stays below the profit. -/
theorem share_le (h1 : fraction ≤ 1) (hpos : 0 < profit.toInt) :
    ⌊(profit.toInt : ℝ) * fraction⌋₊ ≤ profit.toInt.toNat := by
  refine Nat.floor_le_of_le ?_
  have hprofit : (0 : ℝ) ≤ profit.toInt := by exact_mod_cast Int.le_of_lt hpos
  calc (profit.toInt : ℝ) * fraction
      ≤ profit.toInt * 1 := mul_le_mul_of_nonneg_left h1 hprofit
    _ = (profit.toInt.toNat : ℝ) := by
      rw [mul_one]
      exact_mod_cast (Int.toNat_of_nonneg (Int.le_of_lt hpos)).symm

/-- The cast of such a share does not saturate. -/
theorem share_toU64 (h1 : fraction ≤ 1) (hpos : 0 < profit.toInt) :
    (F64.toU64 (F64.ofInt profit.toInt * ExactF64.fin fraction)).toNat =
      ⌊(profit.toInt : ℝ) * fraction⌋₊ := by
  have hle := share_le h1 hpos
  have hlt := profit.toInt_lt
  have hfloor : ⌊(profit.toInt : ℝ) * fraction⌋₊ ≤ 2 ^ 64 - 1 := by omega
  change (UInt64.ofNat (min ⌊(profit.toInt : ℝ) * fraction⌋₊ (2 ^ 64 - 1))).toNat = _
  rw [Nat.min_eq_left hfloor]
  exact UInt64.toNat_ofNat_of_lt' (Nat.lt_of_le_of_lt hfloor (by decide))

end Fraction

/-! ## The tip -/

/-- **THE TIP OF A GAIN**: the share of the profit, at least the minimum tip, at most the
    cap. -/
theorem calculateTip_toNat {r : RiskLimits ExactF64} {fraction : ℝ}
    (hfraction : r.tipFraction = .fin fraction) (h1 : fraction ≤ 1) {profit : Int64}
    (hpos : 0 < profit.toInt) :
    (r.calculateTip profit).toNat =
      min (max ⌊(profit.toInt : ℝ) * fraction⌋₊ 10000) r.maxTipLamports.toNat := by
  have hnot : ¬profit ≤ 0 := by
    rw [Int64.le_iff_toInt_le]
    exact Int.not_le.mpr hpos
  rw [RiskLimits.calculateTip, if_neg hnot, hfraction]
  dsimp only
  rw [min_toNat, max_toNat, share_toU64 h1 hpos]
  rfl

/-- An approved opportunity earns the minimum profit. -/
theorem approved_profit {r : RiskLimits ExactF64} {opp : Opportunity}
    (h : (r.check opp).isApproved = true) :
    r.minProfitLamports.toInt ≤ opp.expectedProfitLamports.toInt := by
  rw [RiskLimits.check] at h
  split at h
  · cases h
  · rename_i hprofit
    exact Int64.le_iff_toInt_le.mp (Int64.not_lt.mp hprofit)

/-- **THE TIP OF AN APPROVED GAIN**, for any limits and any fraction up to one: never above
    the cap, and above the profit exactly when the profit is below both the minimum tip and
    the cap, which a minimum profit of the minimum tip excludes. -/
theorem tip_bounds (r : RiskLimits ExactF64) (fraction : ℝ)
    (hfraction : r.tipFraction = .fin fraction) (h1 : fraction ≤ 1) (opp : Opportunity)
    (happroved : (r.check opp).isApproved = true)
    (hpos : 0 < opp.expectedProfitLamports.toInt) :
    (r.calculateTip opp.expectedProfitLamports).toNat ≤ r.maxTipLamports.toNat ∧
      (((r.calculateTip opp.expectedProfitLamports).toNat : Int) ≤
          opp.expectedProfitLamports.toInt ↔
        10000 ≤ opp.expectedProfitLamports.toInt ∨
          (r.maxTipLamports.toNat : Int) ≤ opp.expectedProfitLamports.toInt) ∧
      (10000 ≤ r.minProfitLamports.toInt →
        ((r.calculateTip opp.expectedProfitLamports).toNat : Int) ≤
          opp.expectedProfitLamports.toInt) := by
  have hshare := share_le h1 hpos
  have hprofit := approved_profit happroved
  rw [calculateTip_toNat hfraction h1 hpos]
  refine ⟨Nat.min_le_right _ _, ?_, ?_⟩
  · omega
  · omega

/-- The limits of the bot's own configuration, with a minimum profit as given. -/
noncomputable def tipLimits (minProfitLamports : Int64) : RiskLimits ExactF64 :=
  { maxPositionLamports := 10000000000
    minProfitLamports
    maxTipLamports := 5000000
    tipFraction := .fin (1 / 2) }

/-- An opportunity that earns `profit` lamports. -/
def earning (profit : Int64) : Opportunity :=
  { strategy := "dex_arb", path := [], expectedProfitLamports := profit,
    estimatedComputeUnits := 400000, detectedAtSlot := 0 }

theorem earning_approved {minProfit profit : Int64} (h : ¬profit < minProfit) :
    ((tipLimits minProfit).check (earning profit)).isApproved = true := by
  rw [RiskLimits.check]
  change RiskCheckResult.isApproved (if profit < minProfit then _ else .approved) = true
  rw [if_neg h]
  rfl

/-- A hundred thousand lamports are tipped within the bounds. -/
theorem ordinary_tip :
    ((tipLimits 50000).calculateTip 100000).toNat ≤ 5000000 ∧
      (((tipLimits 50000).calculateTip 100000).toNat : Int) ≤ (100000 : Int64).toInt := by
  obtain ⟨hcap, -, hprofit⟩ := tip_bounds (tipLimits 50000) (1 / 2) rfl (by norm_num)
    (earning 100000) (earning_approved (by decide)) (by decide)
  exact ⟨hcap, hprofit (by decide)⟩

/-- **A HUNDRED LAMPORTS ARE TIPPED TEN THOUSAND**, when the minimum profit admits them. -/
theorem small_gain_overtipped :
    ((tipLimits 0).check (earning 100)).isApproved = true ∧
      (tipLimits 0).calculateTip 100 = 10000 ∧
      ¬∀ (r : RiskLimits ExactF64) (fraction : ℝ), r.tipFraction = .fin fraction →
        0 ≤ fraction → fraction ≤ 1 → ∀ opp, (r.check opp).isApproved = true →
          ((r.calculateTip opp.expectedProfitLamports).toNat : Int) ≤
              opp.expectedProfitLamports.toInt ∧
            (r.calculateTip opp.expectedProfitLamports).toNat ≤ r.maxTipLamports.toNat := by
  have happroved : ((tipLimits 0).check (earning 100)).isApproved = true :=
    earning_approved (by decide)
  have htip : (tipLimits 0).calculateTip 100 = 10000 := by
    refine UInt64.toNat_inj.mp ?_
    have hhalf : (tipLimits 0).tipFraction = .fin (1 / 2) := rfl
    have hfloor : ⌊((100 : Int64).toInt : ℝ) * (1 / 2)⌋₊ ≤ 100 :=
      share_le (by norm_num) (by decide)
    rw [calculateTip_toNat hhalf (by norm_num) (by decide)]
    change min _ 5000000 = 10000
    omega
  refine ⟨happroved, htip, ?_⟩
  intro hall
  have hle := (hall (tipLimits 0) (1 / 2) rfl (by norm_num) (by norm_num) (earning 100)
    happroved).1
  rw [show (earning 100).expectedProfitLamports = 100 from rfl, htip] at hle
  exact absurd hle (by decide)

end MevTip
