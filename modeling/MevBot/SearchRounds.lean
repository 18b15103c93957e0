import MevBot.OptimizerSearch

/-! # How far the optimizer's search gets

    The probing loop keeps two thirds of its interval a round and stops after
    fifty rounds, below a width of 1000 or not.  Which third it drops depends on
    the profits, how wide the interval is left does not: fifty rounds suffice
    exactly for ranges up to `SEARCHED_WIDTH`, far from the full range of a
    word.  The midpoint is then computed in a word, so the ends must add up to
    less than `2 ^ 64` (`searchEnds_iff`). -/

namespace MevSearchRounds

open MevMath MevSimulation MevOptimizer TernarySearch

/-! ## The width left -/

/-- The widest range that fifty rounds narrow below 1000. -/
def SEARCHED_WIDTH : Nat := 636595794832

theorem shrink_lt_iff (width : Nat) :
    (fun x => x - x / 3)^[50] width < 1000 ↔ width ≤ SEARCHED_WIDTH := by
  constructor
  · intro h
    by_contra hle
    have hmono : (fun x => x - x / 3)^[50] (SEARCHED_WIDTH + 1) ≤ (fun x => x - x / 3)^[50] width :=
      shrink_mono 50 (Nat.not_le.mp hle)
    have hwide : (fun x => x - x / 3)^[50] (SEARCHED_WIDTH + 1) = 1000 := by decide +kernel
    omega
  · intro h
    have hmono := shrink_mono 50 h
    have hnarrow : (fun x => x - x / 3)^[50] SEARCHED_WIDTH = 999 := by decide +kernel
    omega

section Range

variable {minInput maxInput : UInt64}

/-- The loop ends with an interval narrower than 1000, and the sum of its ends fits a word.
    Without hops there is no search. -/
def SearchEnds (hops : List HopParams) (minInput maxInput : UInt64) : Prop :=
  hops ≠ [] →
    (probe hops 50 minInput maxInput).2 - (probe hops 50 minInput maxInput).1 < 1000 ∧
      (probe hops 50 minInput maxInput).1.toNat + (probe hops 50 minInput maxInput).2.toNat < 2 ^ 64

theorem narrow_iff (hops : List HopParams) (h : minInput < maxInput) :
    (probe hops 50 minInput maxInput).2 - (probe hops 50 minInput maxInput).1 < 1000 ↔
      maxInput.toNat - minInput.toNat ≤ SEARCHED_WIDTH := by
  have hle := UInt64.le_of_lt h
  obtain ⟨hlo, hhi⟩ := probe_search hops 50 hle
  obtain ⟨-, hends, -⟩ := probe_bounds hops 50 minInput maxInput hle
  rw [UInt64.lt_iff_toNat_lt, UInt64.toNat_sub_of_le _ _ hends, hlo, hhi]
  exact width_search_lt_iff.trans (shrink_lt_iff _)

/-! ## The midpoint -/

/-- The sum of the ends fits a word: up to `2 ^ 63` it always does, from there on never, and
    a range with `2 ^ 63` inside must come down below it. -/
def MidpointFits (hops : List HopParams) (h : minInput < maxInput) : Prop :=
  maxInput.toNat ≤ 2 ^ 63 ∨
    minInput.toNat < 2 ^ 63 ∧ (interval hops h 50).lo + (interval hops h 50).hi < 2 ^ 64

/-- A search never closes its interval. -/
theorem interval_lo_lt (hops : List HopParams) (h : minInput < maxInput) (k : Nat) :
    (interval hops h k).lo < (interval hops h k).hi := by
  have hpos : 0 < (interval hops h k).width := by
    induction k with
    | zero => exact Nat.sub_pos_of_lt (UInt64.lt_iff_toNat_lt.mp h)
    | succ k ih =>
        rw [interval, search_succ']
        rcases Nat.lt_or_ge (interval hops h k).width 1000 with hw | hw
        · rw [step_narrow (b := search _ _ k _) hw]
          exact ih
        · rw [step_wide (b := search _ _ k _) hw, width_cut]
          change 0 < (interval hops h k).width - (interval hops h k).width / 3
          omega
  exact Nat.lt_of_sub_pos hpos

theorem midpointFits_iff (hops : List HopParams) (h : minInput < maxInput) :
    (probe hops 50 minInput maxInput).1.toNat + (probe hops 50 minInput maxInput).2.toNat < 2 ^ 64 ↔
      MidpointFits hops h := by
  have hle := UInt64.le_of_lt h
  obtain ⟨hlo, hhi⟩ := probe_search hops 50 hle
  obtain ⟨hmin, -, hmax⟩ := probe_bounds hops 50 minInput maxInput hle
  have hopen := interval_lo_lt hops h 50
  rw [UInt64.le_iff_toNat_le, hlo] at hmin
  rw [UInt64.le_iff_toNat_le, hhi] at hmax
  rw [hlo, hhi, MidpointFits]
  change (interval hops h 50).lo + (interval hops h 50).hi < 2 ^ 64 ↔ _
  change minInput.toNat ≤ (interval hops h 50).lo at hmin
  change (interval hops h 50).hi ≤ maxInput.toNat at hmax
  omega

/-! ## The theorem -/

/-- **WHEN THE SEARCH ENDS WELL**, for every chain of hops and all bounds: exactly when the
    range is no wider than fifty rounds can narrow, and the ends it comes to have a
    midpoint. -/
theorem searchEnds_iff (hops : List HopParams) (minInput maxInput : UInt64)
    (h : minInput < maxInput) :
    SearchEnds hops minInput maxInput ↔
      hops = [] ∨ maxInput.toNat - minInput.toNat ≤ SEARCHED_WIDTH ∧ MidpointFits hops h := by
  rw [SearchEnds, narrow_iff hops h, midpointFits_iff hops h]
  tauto

end Range

/-- A pool that pays nothing for any amount. -/
def deadPool : List HopParams := [⟨1, 1, 0, 1⟩]

/-- The bot's own range is searched to the end. -/
theorem botRange_searched : SearchEnds deadPool 1000000 10000000000 :=
  (searchEnds_iff deadPool 1000000 10000000000 (by decide)).mpr
    (Or.inr ⟨by decide, Or.inl (by decide)⟩)

/-- **THE FULL RANGE IS NOT**: fifty rounds leave more than twenty-eight thousand million of
    it.  And just above `2 ^ 63` the midpoint wraps to the bottom of the range of a word. -/
theorem fullRange_unfinished :
    probe deadPool 50 0 18446744073709551615 = (0, 28930555303) ∧
      optimizeArbAmount deadPool 9223372036854775818 9223372036854775808 =
        (5, Int64.minValue) ∧
      ¬∀ hops minInput maxInput, minInput < maxInput → SearchEnds hops minInput maxInput := by
  have hleft : probe deadPool 50 0 18446744073709551615 = (0, 28930555303) := by decide +kernel
  refine ⟨hleft, by decide +kernel, ?_⟩
  intro hall
  have hnarrow := (hall deadPool 0 18446744073709551615 (by decide)
    (List.cons_ne_nil _ _)).1
  rw [hleft] at hnarrow
  exact absurd hnarrow (by decide)

end MevSearchRounds
