import Mathlib.Data.List.Induction
import Mathlib.Algebra.BigOperators.Group.List.Basic
import Mathlib.Algebra.Ring.Int.Defs
import Mathlib.Order.Nat
import MevBot.Library.SlidingWindow
import MevBot.RiskControls

/-! # The circuit breaker against the unpruned history

    The breaker keeps a pruned deque and a latch.  Read against ALL trades
    recorded since the last reset, its answers are exact: the deque is the part
    of the history inside the window, the latch is closed once some record saw
    the windowed sum below the limit, and the rolling sum is the windowed sum of
    the history (`breaker_exact`). -/

namespace MevBreaker

open MevMachine MevTypes MevRisk SlidingWindow

/-! ## Sums of lamports -/

/-- A sum that an `i64` holds. -/
def Fits (x : Int) : Prop := -2 ^ 63 ≤ x ∧ x < 2 ^ 63

instance (x : Int) : Decidable (Fits x) := inferInstanceAs (Decidable (_ ∧ _))

theorem bmod_fits {x : Int} (h : Fits x) : x.bmod (2 ^ 64) = x := by
  refine Int.bmod_eq_of_le ?_ ?_
  · exact h.1
  · exact h.2

/-- A wrapping sum is the exact sum modulo `2 ^ 64`. -/
theorem toInt_sum (xs : List Int64) : xs.sum.toInt = (xs.map Int64.toInt).sum.bmod (2 ^ 64) := by
  induction xs with
  | nil => rfl
  | cons x xs ih =>
      rw [List.sum_cons, List.map_cons, List.sum_cons, Int64.toInt_add, ih]
      exact Int.add_bmod_bmod

/-- The threshold the cumulative sum is compared with, for a limit it can be
    computed from. -/
theorem toInt_neg_limit {maxLossLamports : Int64} (h : Int64.minValue < maxLossLamports) :
    (-maxLossLamports).toInt = -maxLossLamports.toInt := by
  rw [Int64.toInt_neg]
  refine bmod_fits ?_
  have hmin : -2 ^ 63 < maxLossLamports.toInt := Int64.lt_iff_toInt_lt.mp h
  have hmax : maxLossLamports.toInt < 2 ^ 63 := maxLossLamports.toInt_lt
  exact ⟨by omega, by omega⟩

/-! ## Calls -/

/-- A call of the breaker, with the clock it reads. -/
inductive BreakerCall where
  | recordTrade (profitLamports : Int64) (now : Nat)
  | reset
  | isAllowed
  | rollingPnl (now : Nat)
deriving DecidableEq, Repr

/-- The clock reading of a call, if it takes one. -/
def BreakerCall.clock : BreakerCall → Option Nat
  | .recordTrade _ now => some now
  | .rollingPnl now => some now
  | _ => none

/-- The breaker after a call. -/
def applyCall (c : CircuitBreaker) : BreakerCall → CircuitBreaker
  | .recordTrade profitLamports now => c.recordTrade profitLamports now
  | .reset => c.reset
  | .isAllowed => c
  | .rollingPnl _ => c

/-- The breaker after a sequence of calls. -/
def runBreaker (c : CircuitBreaker) (calls : List BreakerCall) : CircuitBreaker :=
  calls.foldl applyCall c

/-- All clock readings of a sequence of calls. -/
def clocks (calls : List BreakerCall) : List Nat := calls.filterMap BreakerCall.clock

/-! ## The history -/

/-- The trades on record after one more call: nothing but a reset forgets any. -/
def remember (trades : List (Nat × Int64)) : BreakerCall → List (Nat × Int64)
  | .recordTrade profitLamports now => trades ++ [(now, profitLamports)]
  | .reset => []
  | _ => trades

/-- All trades recorded since the last reset, oldest first. -/
def sinceReset (calls : List BreakerCall) : List (Nat × Int64) := calls.foldl remember []

/-- The exact sum of the trades of age at most `window` at time `t`. -/
def windowSum (window t : Nat) (trades : List (Nat × Int64)) : Int :=
  ((trades.filter fun x => decide (t - x.1 ≤ window)).map fun x => x.2.toInt).sum

/-- Some record since the last reset saw the windowed sum of all trades up to it
    below `-maxLossLamports`. -/
def SawLoss (window : Nat) (maxLossLamports : Int64) (trades : List (Nat × Int64)) : Prop :=
  ∃ before t p after, trades = before ++ (t, p) :: after ∧
    windowSum window t (before ++ [(t, p)]) < -maxLossLamports.toInt

/-- The windowed sums at the records since the last reset fit. -/
def SumsFit (window : Nat) (trades : List (Nat × Int64)) : Prop :=
  ∀ before t p after, trades = before ++ (t, p) :: after →
    Fits (windowSum window t (before ++ [(t, p)]))

theorem sinceReset_concat (calls : List BreakerCall) (call : BreakerCall) :
    sinceReset (calls ++ [call]) = remember (sinceReset calls) call := by
  rw [sinceReset, List.foldl_append]
  rfl

theorem runBreaker_concat (c : CircuitBreaker) (calls : List BreakerCall) (call : BreakerCall) :
    runBreaker c (calls ++ [call]) = applyCall (runBreaker c calls) call := by
  rw [runBreaker, List.foldl_append]
  rfl

theorem clocks_concat (calls : List BreakerCall) (call : BreakerCall) :
    clocks (calls ++ [call]) = clocks calls ++ call.clock.toList := by
  rw [clocks, List.filterMap_append]
  cases call with
  | recordTrade profitLamports now => rfl
  | reset => rfl
  | isAllowed => rfl
  | rollingPnl now => rfl

/-- A trade on record was stamped by the clock. -/
theorem stamps_mem (calls : List BreakerCall) : ∀ x ∈ sinceReset calls, x.1 ∈ clocks calls := by
  induction calls using List.reverseRecOn with
  | nil =>
      intro x hx
      exact absurd hx List.not_mem_nil
  | append_singleton calls call ih =>
      intro x hx
      rw [sinceReset_concat] at hx
      rw [clocks_concat, List.mem_append]
      cases call with
      | recordTrade profitLamports now =>
          rcases List.mem_append.mp hx with hx | hx
          · exact Or.inl (ih x hx)
          · rw [List.mem_singleton.mp hx]
            exact Or.inr (List.mem_singleton_self now)
      | reset => exact absurd hx List.not_mem_nil
      | isAllowed => exact Or.inl (ih x hx)
      | rollingPnl now => exact Or.inl (ih x hx)

/-- With nondecreasing clocks the trades on record are in order. -/
theorem ordered_sinceReset {calls : List BreakerCall} (h : (clocks calls).Pairwise (· ≤ ·)) :
    Ordered (sinceReset calls) := by
  induction calls using List.reverseRecOn with
  | nil => exact List.Pairwise.nil
  | append_singleton calls call ih =>
      rw [clocks_concat] at h
      obtain ⟨hbefore, -, hlast⟩ := List.pairwise_append.mp h
      rw [sinceReset_concat]
      cases call with
      | recordTrade profitLamports now =>
          refine List.pairwise_append.mpr ⟨ih hbefore, List.pairwise_singleton _ _, ?_⟩
          intro x hx y hy
          rw [List.mem_singleton.mp hy]
          exact hlast x.1 (stamps_mem calls x hx) now (List.mem_singleton_self now)
      | reset => exact List.Pairwise.nil
      | isAllowed => exact ih hbefore
      | rollingPnl now => exact ih hbefore

/-! ## One record -/

/-- Inside the breaker's window: of age at most `window`. -/
def ageWindow (window : Nat) : Window Nat where
  live := fun now stamp => decide (now - stamp ≤ window)
  newer := by
    intro now s s' hlive hs
    simp only [decide_eq_true_eq] at hlive ⊢
    omega
  earlier := by
    intro now now' s hlive hnow
    simp only [decide_eq_true_eq] at hlive ⊢
    omega

theorem windowSum_eq (window t : Nat) (trades : List (Nat × Int64)) :
    windowSum window t trades = (((ageWindow window).inside t trades).map fun x => x.2.toInt).sum :=
  rfl

/-- The breaker's eviction is the window's. -/
theorem recordTrade_trades (c : CircuitBreaker) (profitLamports : Int64) (now : Nat) :
    (c.recordTrade profitLamports now).trades =
      (ageWindow c.window).evict now (c.trades ++ [(now, profitLamports)]) := by
  have hevict : (c.trades ++ [(now, profitLamports)]).dropWhile
        (fun t => decide (now - t.1 > c.window)) =
      (ageWindow c.window).evict now (c.trades ++ [(now, profitLamports)]) := by
    rw [Window.evict]
    congr 1
    funext x
    show decide (now - x.1 > c.window) = !decide (now - x.1 ≤ c.window)
    rw [← decide_not]
    exact decide_eq_decide.mpr Nat.not_le.symm
  rw [← hevict, CircuitBreaker.recordTrade]
  split
  · rfl
  · rfl

/-- A record closes the latch exactly when the sum over its deque is below the
    negated limit, and never opens it. -/
theorem recordTrade_tripped (c : CircuitBreaker) (profitLamports : Int64) (now : Nat) :
    (c.recordTrade profitLamports now).tripped = true ↔
      c.tripped = true ∨
        ((c.recordTrade profitLamports now).trades.map fun x => x.2).sum < -c.maxLossLamports := by
  rw [CircuitBreaker.recordTrade]
  split
  · rename_i h
    simp [h.1]
  · rename_i h
    rw [not_and_or, Bool.not_eq_false] at h
    constructor
    · exact Or.inl
    · rintro (hold | hloss)
      · exact hold
      · exact h.resolve_left (not_not_intro hloss)

@[simp] theorem recordTrade_window (c : CircuitBreaker) (profitLamports : Int64) (now : Nat) :
    (c.recordTrade profitLamports now).window = c.window := by
  rw [CircuitBreaker.recordTrade]
  split
  · rfl
  · rfl

@[simp] theorem recordTrade_maxLossLamports (c : CircuitBreaker) (profitLamports : Int64)
    (now : Nat) : (c.recordTrade profitLamports now).maxLossLamports = c.maxLossLamports := by
  rw [CircuitBreaker.recordTrade]
  split
  · rfl
  · rfl

/-! ## The invariant -/

/-- The breaker against its history. -/
structure Mirrors (window : Nat) (maxLossLamports : Int64) (trades : List (Nat × Int64))
    (c : CircuitBreaker) : Prop where
  sameWindow : c.window = window
  sameLimit : c.maxLossLamports = maxLossLamports
  keeps : Keeps (ageWindow window) c.trades trades
  latch : SumsFit window trades → (c.tripped = true ↔ SawLoss window maxLossLamports trades)

/-- A trade of a longer history is its last one or one of the shorter history. -/
theorem split_concat {α : Type} {xs before after : List α} {x y : α}
    (h : xs ++ [x] = before ++ y :: after) :
    (before = xs ∧ y = x) ∨ ∃ after', xs = before ++ y :: after' := by
  rcases List.eq_nil_or_concat after with rfl | ⟨after', last, rfl⟩
  · obtain ⟨rfl, heq⟩ := List.append_inj' h rfl
    exact Or.inl ⟨rfl, (List.cons.inj heq).1.symm⟩
  · rw [List.concat_eq_append, ← List.cons_append, ← List.append_assoc] at h
    exact Or.inr ⟨after', (List.append_inj' h rfl).1⟩

/-- Whether a loss was seen, one record later. -/
theorem sawLoss_concat (window : Nat) (maxLossLamports : Int64) (trades : List (Nat × Int64))
    (t : Nat) (p : Int64) :
    SawLoss window maxLossLamports (trades ++ [(t, p)]) ↔
      SawLoss window maxLossLamports trades ∨
        windowSum window t (trades ++ [(t, p)]) < -maxLossLamports.toInt := by
  constructor
  · rintro ⟨before, t', p', after, hsplit, hloss⟩
    rcases split_concat hsplit with ⟨rfl, heq⟩ | ⟨after', rfl⟩
    · obtain ⟨rfl, rfl⟩ := Prod.mk.inj heq
      exact Or.inr hloss
    · exact Or.inl ⟨before, t', p', after', rfl, hloss⟩
  · rintro (⟨before, t', p', after, rfl, hloss⟩ | hloss)
    · exact ⟨before, t', p', after ++ [(t, p)], by simp, hloss⟩
    · exact ⟨trades, t, p, [], rfl, hloss⟩

/-- Whether the sums fit, one record later. -/
theorem sumsFit_concat (window : Nat) (trades : List (Nat × Int64)) (t : Nat) (p : Int64) :
    SumsFit window (trades ++ [(t, p)]) ↔
      SumsFit window trades ∧ Fits (windowSum window t (trades ++ [(t, p)])) := by
  constructor
  · intro h
    refine ⟨?_, h trades t p [] rfl⟩
    rintro before t' p' after rfl
    exact h before t' p' (after ++ [(t, p)]) (by simp)
  · rintro ⟨h, hlast⟩ before t' p' after hsplit
    rcases split_concat hsplit with ⟨rfl, heq⟩ | ⟨after', rfl⟩
    · obtain ⟨rfl, rfl⟩ := Prod.mk.inj heq
      exact hlast
    · exact h before t' p' after' rfl

theorem sumsFit_nil (window : Nat) : SumsFit window [] := by
  intro before t p after hsplit
  exact absurd hsplit.symm (List.append_ne_nil_of_right_ne_nil _ (List.cons_ne_nil _ _))

theorem not_sawLoss_nil (window : Nat) (maxLossLamports : Int64) :
    ¬SawLoss window maxLossLamports [] := by
  rintro ⟨before, t, p, after, hsplit, -⟩
  exact absurd hsplit.symm (List.append_ne_nil_of_right_ne_nil _ (List.cons_ne_nil _ _))

theorem Mirrors.new (windowSecs : Nat) (maxLossLamports : Int64) :
    Mirrors (windowSecs * 1000000000) maxLossLamports []
      (CircuitBreaker.new windowSecs maxLossLamports) where
  sameWindow := rfl
  sameLimit := rfl
  keeps := Keeps.empty
  latch := fun _ => iff_of_false Bool.false_ne_true (not_sawLoss_nil _ _)

/-- A reset starts a new history. -/
theorem Mirrors.reset {window : Nat} {maxLossLamports : Int64} {trades : List (Nat × Int64)}
    {c : CircuitBreaker} (h : Mirrors window maxLossLamports trades c) :
    Mirrors window maxLossLamports [] c.reset where
  sameWindow := h.sameWindow
  sameLimit := h.sameLimit
  keeps := Keeps.empty
  latch := fun _ => iff_of_false Bool.false_ne_true (not_sawLoss_nil _ _)

/-- **ONE RECORD** keeps the mirror. -/
theorem Mirrors.recordTrade {window : Nat} {maxLossLamports : Int64}
    {trades : List (Nat × Int64)} {c : CircuitBreaker}
    (h : Mirrors window maxLossLamports trades c) (hmax : Int64.minValue < maxLossLamports)
    {p : Int64} {t : Nat} (hordered : Ordered (trades ++ [(t, p)])) :
    Mirrors window maxLossLamports (trades ++ [(t, p)]) (c.recordTrade p t) := by
  obtain ⟨hevict, hkeeps⟩ := h.keeps.push hordered
  have htrades : (c.recordTrade p t).trades =
      (ageWindow window).inside t (trades ++ [(t, p)]) := by
    rw [recordTrade_trades, h.sameWindow]
    exact hevict
  refine ⟨?_, ?_, ?_, ?_⟩
  · rw [recordTrade_window]
    exact h.sameWindow
  · rw [recordTrade_maxLossLamports]
    exact h.sameLimit
  · rw [htrades, ← hevict]
    exact hkeeps
  · rw [sumsFit_concat]
    intro hfits
    -- the sum the code compares is the windowed sum of the history
    have hsum : Int64.toInt ((c.recordTrade p t).trades.map fun x => x.2).sum =
        windowSum window t (trades ++ [(t, p)]) := by
      rw [toInt_sum, htrades, List.map_map]
      exact bmod_fits hfits.2
    rw [recordTrade_tripped, sawLoss_concat, h.latch hfits.1, Int64.lt_iff_toInt_lt, hsum,
      h.sameLimit, toInt_neg_limit hmax]

/-- **ANY SEQUENCE OF CALLS** keeps the mirror. -/
theorem mirrors_run (windowSecs : Nat) {maxLossLamports : Int64}
    (hmax : Int64.minValue < maxLossLamports) (calls : List BreakerCall)
    (hclocks : (clocks calls).Pairwise (· ≤ ·)) :
    Mirrors (windowSecs * 1000000000) maxLossLamports (sinceReset calls)
      (runBreaker (CircuitBreaker.new windowSecs maxLossLamports) calls) := by
  induction calls using List.reverseRecOn with
  | nil => exact Mirrors.new windowSecs maxLossLamports
  | append_singleton calls call ih =>
      have hordered := ordered_sinceReset hclocks
      rw [clocks_concat] at hclocks
      have h := ih (List.pairwise_append.mp hclocks).1
      rw [sinceReset_concat] at hordered ⊢
      rw [runBreaker_concat]
      cases call with
      | recordTrade p t => exact h.recordTrade hmax hordered
      | reset => exact h.reset
      | isAllowed => exact h
      | rollingPnl now => exact h

/-- **THE BREAKER IS EXACT**: whatever the deque has evicted, trading is forbidden
    exactly when some record since the last reset saw the windowed sum of all
    trades up to it below `-max_loss_lamports`, and the rolling sum is the
    windowed sum of all trades since the last reset. -/
theorem breaker_exact (windowSecs : Nat) (maxLossLamports : Int64)
    (hmax : Int64.minValue < maxLossLamports) (calls : List BreakerCall)
    (hclocks : (clocks calls).Pairwise (· ≤ ·))
    (hfits : SumsFit (windowSecs * 1000000000) (sinceReset calls)) :
    let c := runBreaker (CircuitBreaker.new windowSecs maxLossLamports) calls
    (c.isAllowed = false ↔ SawLoss (windowSecs * 1000000000) maxLossLamports (sinceReset calls)) ∧
      ∀ t, (∀ s ∈ clocks calls, s ≤ t) →
        Fits (windowSum (windowSecs * 1000000000) t (sinceReset calls)) →
        (c.rollingPnl t).toInt = windowSum (windowSecs * 1000000000) t (sinceReset calls) := by
  have h := mirrors_run windowSecs hmax calls hclocks
  refine ⟨?_, ?_⟩
  · rw [← h.latch hfits, CircuitBreaker.isAllowed, Bool.not_eq_false']
  · intro t ht hsum
    have hinside := h.keeps.agrees t fun x hx => ht x.1 (stamps_mem calls x hx)
    rw [CircuitBreaker.rollingPnl, h.sameWindow, toInt_sum, List.map_map]
    rw [windowSum_eq, ← hinside] at hsum ⊢
    exact bmod_fits hsum

/-- A loss of six under a limit of five, a profit that makes up for it, and ten
    seconds later, when both are out of the window, a query. -/
def recoveredCalls : List BreakerCall :=
  [.recordTrade (-6) 0, .recordTrade 20 1, .isAllowed, .rollingPnl 10000000000]

theorem recoveredCalls_sumsFit : SumsFit (9 * 1000000000) (sinceReset recoveredCalls) := by
  have hfirst : SumsFit (9 * 1000000000) ([] ++ [(0, -6)]) :=
    (sumsFit_concat _ _ _ _).mpr ⟨sumsFit_nil _, by decide⟩
  exact (sumsFit_concat _ _ 1 20).mpr ⟨hfirst, by decide⟩

/-- The trip outlasts the later profit and the window. -/
theorem recoveredCalls_exact :
    let c := runBreaker (CircuitBreaker.new 9 5) recoveredCalls
    c.isAllowed = false ∧ (c.rollingPnl 10000000000).toInt = 0 := by
  obtain ⟨htrip, hsum⟩ := breaker_exact 9 5 (by decide) recoveredCalls (by decide)
    recoveredCalls_sumsFit
  refine ⟨htrip.mpr ⟨[], 0, -6, [(1, 20)], rfl, by decide⟩, ?_⟩
  exact hsum 10000000000 (by decide) (by decide)

end MevBreaker
