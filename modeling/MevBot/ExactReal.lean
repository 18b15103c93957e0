import Mathlib.Analysis.SpecialFunctions.Log.Basic
import MevBot.Machine

/-! # The bot's arithmetic over exact reals

    `ExactF64` is `f64` without rounding: the reals, both infinities and NaN,
    with the operations and comparisons of IEEE 754 on the special values.  It
    is the instance under which an edge weight is EXACTLY `-ln` of an effective
    rate, so that `exp` of minus a weight sum is the product of the rates. -/

namespace MevExact

open MevMachine

/-- A float whose finite values are reals; zero carries no sign. -/
inductive ExactF64 where
  | fin (x : ℝ)
  | posInf
  | negInf
  | nan

namespace ExactF64

/-! ## Arithmetic -/

/-- The infinity with the sign of `x`, or NaN at zero: what `∞ * x` is. -/
noncomputable def infSigned (x : ℝ) : ExactF64 :=
  if 0 < x then posInf else if x < 0 then negInf else nan

/-- The sign of NaN does not matter. -/
noncomputable def neg : ExactF64 → ExactF64
  | fin x => fin (-x)
  | posInf => negInf
  | negInf => posInf
  | nan => nan

/-- Opposite infinities have no sum. -/
noncomputable def add : ExactF64 → ExactF64 → ExactF64
  | fin x, fin y => fin (x + y)
  | nan, _ => nan
  | _, nan => nan
  | posInf, negInf => nan
  | negInf, posInf => nan
  | posInf, _ => posInf
  | _, posInf => posInf
  | negInf, _ => negInf
  | _, negInf => negInf

/-- An infinity times zero has no product. -/
noncomputable def mul : ExactF64 → ExactF64 → ExactF64
  | fin x, fin y => fin (x * y)
  | nan, _ => nan
  | _, nan => nan
  | posInf, fin y => infSigned y
  | fin x, posInf => infSigned x
  | negInf, fin y => infSigned (-y)
  | fin x, negInf => infSigned (-x)
  | posInf, posInf => posInf
  | negInf, negInf => posInf
  | posInf, negInf => negInf
  | negInf, posInf => negInf

/-- Division by zero gives an infinity with the sign of the dividend, and `0 / 0` none. -/
noncomputable def div : ExactF64 → ExactF64 → ExactF64
  | fin x, fin y => if y = 0 then infSigned x else fin (x / y)
  | nan, _ => nan
  | _, nan => nan
  | fin _, _ => fin 0
  | posInf, fin y => if y < 0 then negInf else posInf
  | negInf, fin y => if y < 0 then posInf else negInf
  | _, _ => nan

/-- `f64::ln`: minus infinity at zero, NaN below. -/
noncomputable def ln : ExactF64 → ExactF64
  | fin x => if 0 < x then fin (Real.log x) else if x = 0 then negInf else nan
  | posInf => posInf
  | _ => nan

/-- `f64::exp`. -/
noncomputable def exp : ExactF64 → ExactF64
  | fin x => fin (Real.exp x)
  | posInf => posInf
  | negInf => fin 0
  | nan => nan

/-- `f64::powi`; the zeroth power is one, of NaN too. -/
noncomputable def powi : ExactF64 → Int → ExactF64
  | fin x, n => if x = 0 ∧ n < 0 then posInf else fin (x ^ n)
  | posInf, n => if 0 < n then posInf else if n = 0 then fin 1 else fin 0
  | negInf, n =>
      if 0 < n then (if n % 2 = 0 then posInf else negInf) else if n = 0 then fin 1 else fin 0
  | nan, n => if n = 0 then fin 1 else nan

/-- `<`: false as soon as one side is NaN. -/
noncomputable def lt : ExactF64 → ExactF64 → Bool
  | fin x, fin y => decide (x < y)
  | negInf, fin _ => true
  | negInf, posInf => true
  | fin _, posInf => true
  | _, _ => false

/-- `==`: NaN is not equal to itself. -/
noncomputable def eq : ExactF64 → ExactF64 → Bool
  | fin x, fin y => decide (x = y)
  | posInf, posInf => true
  | negInf, negInf => true
  | _, _ => false

/-- `f64::is_infinite`. -/
def isInfinite : ExactF64 → Bool
  | posInf => true
  | negInf => true
  | _ => false

/-- `x as u64`. -/
noncomputable def toU64 : ExactF64 → UInt64
  | fin x => UInt64.ofNat (min ⌊x⌋₊ (2 ^ 64 - 1))
  | posInf => UInt64.ofNat (2 ^ 64 - 1)
  | _ => 0

/-- `x` without its fractional part. -/
noncomputable def trunc (x : ℝ) : Int := if 0 ≤ x then ⌊x⌋ else ⌈x⌉

/-- `x as i64`. -/
noncomputable def toI64 : ExactF64 → Int64
  | fin x => Int64.ofInt (max (-2 ^ 63) (min (trunc x) (2 ^ 63 - 1)))
  | posInf => Int64.maxValue
  | negInf => Int64.minValue
  | nan => 0

noncomputable instance : F64 ExactF64 where
  add := add
  sub := fun x y => add x (neg y)
  mul := mul
  div := div
  neg := neg
  ofScientific := fun m s e => fin (OfScientific.ofScientific m s e)
  ofNat := fun n => fin n
  ofInt := fun n => fin n
  ln := ln
  exp := exp
  powi := powi
  lt := lt
  eq := eq
  isInfinite := isInfinite
  infinity := posInf
  toU64 := toU64
  toI64 := toI64

/-! ## The operations on finite values -/

@[simp] theorem fin_add (x y : ℝ) : fin x + fin y = fin (x + y) := rfl

@[simp] theorem fin_sub (x y : ℝ) : fin x - fin y = fin (x - y) :=
  congrArg fin (sub_eq_add_neg x y).symm

@[simp] theorem fin_mul (x y : ℝ) : fin x * fin y = fin (x * y) := rfl

@[simp] theorem fin_neg (x : ℝ) : -fin x = fin (-x) := rfl

/-- A quotient by a number other than zero is that of the reals. -/
theorem fin_div (x : ℝ) {y : ℝ} (hy : y ≠ 0) : fin x / fin y = fin (x / y) :=
  if_neg hy

/-- A literal is the real it is written as. -/
theorem fin_scientific (m : Nat) (s : Bool) (e : Nat) :
    (OfScientific.ofScientific m s e : ExactF64) = fin (OfScientific.ofScientific m s e) := rfl

theorem fin_one : (1.0 : ExactF64) = fin 1 := by
  rw [fin_scientific]
  norm_num

theorem fin_zero : (0.0 : ExactF64) = fin 0 := by
  rw [fin_scientific]
  norm_num

@[simp] theorem ofNat_eq (n : Nat) : (F64.ofNat n : ExactF64) = fin n := rfl

/-- The logarithm of a positive number is finite. -/
theorem ln_pos {x : ℝ} (hx : 0 < x) : F64.ln (fin x) = fin (Real.log x) := if_pos hx

@[simp] theorem exp_fin (x : ℝ) : F64.exp (fin x) = fin (Real.exp x) := rfl

/-! ## What gives a finite value -/

/-- An infinity times a number is never finite. -/
theorem infSigned_ne_fin (x y : ℝ) : infSigned x ≠ fin y := by
  intro h
  rw [infSigned] at h
  split at h
  · cases h
  · split at h
    · cases h
    · cases h

/-- Only a finite number has a finite negative. -/
theorem of_neg_fin {x : ExactF64} {y : ℝ} (h : -x = fin y) : ∃ z, x = fin z := by
  cases x with
  | fin x => exact ⟨x, rfl⟩
  | posInf => cases h
  | negInf => cases h
  | nan => cases h

/-- Only a finite number leaves a finite difference from one. -/
theorem of_sub_fin {a : ℝ} {x : ExactF64} {y : ℝ} (h : fin a - x = fin y) : ∃ z, x = fin z := by
  cases x with
  | fin x => exact ⟨x, rfl⟩
  | posInf => cases h
  | negInf => cases h
  | nan => cases h

/-- Only a finite number has a finite product with one. -/
theorem of_mul_fin {a : ℝ} {x : ExactF64} {y : ℝ} (h : fin a * x = fin y) : ∃ z, x = fin z := by
  cases x with
  | fin x => exact ⟨x, rfl⟩
  | posInf => exact absurd h (infSigned_ne_fin a y)
  | negInf => exact absurd h (infSigned_ne_fin (-a) y)
  | nan => cases h

/-- A finite quotient has a divisor other than zero. -/
theorem of_div_fin {x y z : ℝ} (h : fin x / fin y = fin z) : y ≠ 0 ∧ z = x / y := by
  by_cases hy : y = 0
  · rw [show fin x / fin y = infSigned x from if_pos hy] at h
    exact absurd h (infSigned_ne_fin x z)
  · rw [fin_div x hy] at h
    exact ⟨hy, (ExactF64.fin.inj h).symm⟩

/-- Only a positive number has a finite logarithm. -/
theorem of_ln_fin {x : ExactF64} {y : ℝ} (h : F64.ln x = fin y) : ∃ z, x = fin z ∧ 0 < z := by
  cases x with
  | fin x =>
      by_cases hx : 0 < x
      · exact ⟨x, rfl, hx⟩
      · rw [show F64.ln (fin x) = if x = 0 then negInf else nan from if_neg hx] at h
        split at h
        · cases h
        · cases h
  | posInf => cases h
  | negInf => cases h
  | nan => cases h

/-! ## Conversions -/

/-- A number too large for a word saturates, and is not taken for zero. -/
theorem toU64_large {x : ℝ} (hx : 2 ^ 64 ≤ x) : F64.toU64 (fin x) ≠ 0 := by
  have hfloor : 2 ^ 64 ≤ ⌊x⌋₊ := Nat.le_floor (by exact_mod_cast hx)
  have hmin : min ⌊x⌋₊ (2 ^ 64 - 1) = 2 ^ 64 - 1 := by omega
  change UInt64.ofNat (min ⌊x⌋₊ (2 ^ 64 - 1)) ≠ 0
  rw [hmin]
  decide

/-! ## Comparisons -/

@[simp] theorem lt_fin (x y : ℝ) : F64.lt (fin x) (fin y) = true ↔ x < y := decide_eq_true_iff

@[simp] theorem posInf_lt (x : ExactF64) : F64.lt posInf x = false := by
  cases x <;> rfl

end ExactF64

end MevExact
