import Mathlib.Algebra.Group.Int.Defs
import Mathlib.Algebra.Group.Nat.Defs
import Mathlib.Logic.Basic

/-! # Machine words, account bytes and the `f64` operations

    The three kinds of primitive the bot computes with.

    * `u64`/`i64` values are Lean's `UInt64`/`Int64`; the `u128` intermediates
      of the pool math are naturals behind the CHECKED operations the code
      uses.  A plain `+`, `-` or `*` of the code wraps here, as in a release
      build; a debug build panics at the same places.
    * account data is a list of bytes; a slice past its end PANICS, so every
      reader returns in `Rust`.
    * `f64` is a class: the code is generic in the arithmetic it prices with.
      `Float` is the instance the bot runs on; `MevExact.ExactF64` is the same
      code over exact reals. -/

namespace MevMachine

/-! ## Checked `u128` arithmetic -/

/-- `u128::checked_mul`. -/
def checkedMul (a b : Nat) : Option Nat :=
  if a * b < 2 ^ 128 then some (a * b) else none

/-- `u128::checked_add`. -/
def checkedAdd (a b : Nat) : Option Nat :=
  if a + b < 2 ^ 128 then some (a + b) else none

/-- `checked_sub` of an unsigned word. -/
def checkedSub (a b : Nat) : Option Nat :=
  if b ≤ a then some (a - b) else none

/-- `u128::checked_div`. -/
def checkedDiv (a b : Nat) : Option Nat :=
  if b = 0 then none else some (a / b)

/-- Two words multiply without overflow. -/
theorem checkedMul_u64 (a b : UInt64) :
    checkedMul a.toNat b.toNat = some (a.toNat * b.toNat) := by
  have hlt : a.toNat * b.toNat < 2 ^ 64 * 2 ^ 64 :=
    Nat.mul_lt_mul'' a.toNat_lt b.toNat_lt
  rw [checkedMul]
  rw [if_pos (by rw [show (2 : Nat) ^ 128 = 2 ^ 64 * 2 ^ 64 from by decide]; exact hlt)]

/-- A checked division fails at zero only. -/
theorem checkedDiv_pos {a b : Nat} (hb : b ≠ 0) :
    checkedDiv a b = some (a / b) := by
  rw [checkedDiv]
  rw [if_neg hb]

/-- A checked subtraction fails below zero only. -/
theorem checkedSub_le {a b : Nat} (h : b ≤ a) :
    checkedSub a b = some (a - b) := by
  rw [checkedSub]
  rw [if_pos h]

/-! ## Clamped words -/

/-- The order of words is that of their values. -/
theorem max_toNat (x y : UInt64) : (max x y).toNat = max x.toNat y.toNat := by
  rw [show max x y = if x ≤ y then y else x from rfl]
  split
  · rename_i hle
    exact (Nat.max_eq_right (UInt64.le_iff_toNat_le.mp hle)).symm
  · rename_i hnot
    exact (Nat.max_eq_left (Nat.le_of_not_le (mt UInt64.le_iff_toNat_le.mpr hnot))).symm

/-- The lesser word has the lesser value. -/
theorem min_toNat (x y : UInt64) : (min x y).toNat = min x.toNat y.toNat := by
  rw [show min x y = if x ≤ y then x else y from rfl]
  split
  · rename_i hle
    exact (Nat.min_eq_left (UInt64.le_iff_toNat_le.mp hle)).symm
  · rename_i hnot
    exact (Nat.min_eq_right (Nat.le_of_not_le (mt UInt64.le_iff_toNat_le.mpr hnot))).symm

/-! ## Reading account bytes -/

/-- Why a thread can die while reading bytes. -/
inductive Panic where
  | sliceOutOfRange
  /-- The allocator refuses a request, and the process aborts. -/
  | allocationFailed
deriving DecidableEq, Repr

/-- A computation that may panic. -/
abbrev Rust (α : Type) := Except Panic α

/-- A computation that returned has run its first step. -/
theorem bind_ok {α β : Type} {m : Rust α} {f : α → Rust β} {b : β} (h : (m >>= f) = .ok b) :
    ∃ a, m = .ok a ∧ f a = .ok b := by
  cases m with
  | error e => cases h
  | ok a => exact ⟨a, rfl, h⟩

/-- `Vec::with_capacity`, where the allocator grants `allocates n` room for `n` elements. -/
def withCapacity (allocates : Nat → Bool) (n : Nat) : Rust Unit :=
  if allocates n then .ok () else .error .allocationFailed

/-- `data[offset..offset + n]`. -/
def slice (data : List UInt8) (offset n : Nat) : Rust (List UInt8) :=
  if offset + n ≤ data.length then .ok ((data.drop offset).take n)
  else .error .sliceOutOfRange

/-- `from_le_bytes` of any width. -/
def fromLeBytes : List UInt8 → Nat
  | [] => 0
  | b :: bs => b.toNat + 256 * fromLeBytes bs

/-- `to_le_bytes`, `n` bytes wide. -/
def toLeBytes : Nat → Nat → List UInt8
  | 0, _ => []
  | n + 1, x => UInt8.ofNat x :: toLeBytes n (x / 256)

/-- The width is the width asked for. -/
theorem toLeBytes_length (n x : Nat) : (toLeBytes n x).length = n := by
  induction n generalizing x with
  | zero => rfl
  | succ n ih => rw [toLeBytes, List.length_cons, ih]

/-- Reading back what was written, modulo the width. -/
theorem fromLeBytes_toLeBytes (n x : Nat) : fromLeBytes (toLeBytes n x) = x % 256 ^ n := by
  induction n generalizing x with
  | zero => exact (Nat.mod_one x).symm
  | succ n ih =>
      have hbyte : (UInt8.ofNat x).toNat = x % 256 := UInt8.toNat_ofNat'
      rw [toLeBytes, fromLeBytes, ih, hbyte, Nat.pow_succ', Nat.mod_mul]

/-- A byte. -/
def readU8 (data : List UInt8) (offset : Nat) : Rust UInt8 := do
  let bs ← slice data offset 1
  return UInt8.ofNat (fromLeBytes bs)

/-- A `u16`, the low byte first. -/
def readU16 (data : List UInt8) (offset : Nat) : Rust UInt16 := do
  let bs ← slice data offset 2
  return UInt16.ofNat (fromLeBytes bs)

/-- A `u32`. -/
def readU32 (data : List UInt8) (offset : Nat) : Rust UInt32 := do
  let bs ← slice data offset 4
  return UInt32.ofNat (fromLeBytes bs)

/-- An `i32`, two's complement. -/
def readI32 (data : List UInt8) (offset : Nat) : Rust Int32 := do
  let bs ← slice data offset 4
  return (UInt32.ofNat (fromLeBytes bs)).toInt32

/-- A `u64`. -/
def readU64 (data : List UInt8) (offset : Nat) : Rust UInt64 := do
  let bs ← slice data offset 8
  return UInt64.ofNat (fromLeBytes bs)

/-- A `u128` is a natural below `2 ^ 128`; sixteen bytes cannot exceed it. -/
def readU128 (data : List UInt8) (offset : Nat) : Rust Nat := do
  let bs ← slice data offset 16
  return fromLeBytes bs

/-- An `i128`, two's complement. -/
def readI128 (data : List UInt8) (offset : Nat) : Rust Int := do
  let bs ← slice data offset 16
  return Int.bmod (fromLeBytes bs) (2 ^ 128)

/-! ## The `f64` operations the bot uses -/

/-- The arithmetic of `f64`, one field per operation of the source.  No law is
    assumed: what is proved for every `F64` holds of the hardware floats too. -/
class F64 (F : Type) extends Add F, Sub F, Mul F, Div F, Neg F, OfScientific F where
  /-- `x as f64` of an unsigned integer. -/
  ofNat : Nat → F
  /-- `x as f64` of a signed integer. -/
  ofInt : Int → F
  ln : F → F
  exp : F → F
  powi : F → Int → F
  /-- `<`; a comparison with a NaN is false. -/
  lt : F → F → Bool
  /-- `==`. -/
  eq : F → F → Bool
  isInfinite : F → Bool
  infinity : F
  /-- `x as u64`: truncates and saturates. -/
  toU64 : F → UInt64
  /-- `x as i64`: truncates and saturates. -/
  toI64 : F → Int64

/-- The loop of `f64::powi`: `r` has been multiplied by the squarings that the bits of
    `n` so far ask for, and `x` is the next of them. -/
def powiLoop : Nat → Nat → Float → Float → Float
  | 0, _, _, r => r
  | fuel + 1, n, x, r =>
      let r := if n % 2 = 1 then r * x else r
      if n / 2 = 0 then r else powiLoop fuel (n / 2) (x * x) r

/-- `f64::powi`: the power of the absolute exponent, inverted for a negative one.  An
    `i32` has no more than 32 bits. -/
def powi (x : Float) (n : Int) : Float :=
  let r := powiLoop 32 n.natAbs x 1.0
  if n < 0 then 1.0 / r else r

/-- The hardware floats. -/
instance : F64 Float where
  ofNat := Float.ofNat
  ofInt := Float.ofInt
  ln := Float.log
  exp := Float.exp
  powi := powi
  lt := fun x y => decide (x < y)
  eq := fun x y => x == y
  isInfinite := Float.isInf
  infinity := 1.0 / 0.0
  toU64 := Float.toUInt64
  toI64 := Float.toInt64

end MevMachine
