import MevBot.Types

/-! # Constant product math

    `x * y = k` quoting on `u64` reserves with `u128` intermediates, and the
    ternary search over a chain of such swaps. -/

namespace MevMath

open MevMachine

/-- `constant_product::swap_base_in`: output amount and fee of a swap. -/
def swapBaseIn (reserveIn reserveOut amountIn feeNumerator feeDenominator : UInt64) :
    Option (UInt64 × UInt64) :=
  if reserveIn = 0 ∨ reserveOut = 0 ∨ amountIn = 0 ∨ feeDenominator = 0 then
    none
  else do
    -- the fee is truncated to `u64` after the division
    let feeProduct ← checkedMul amountIn.toNat feeNumerator.toNat
    let feeQuotient ← checkedDiv feeProduct feeDenominator.toNat
    let feeAmount := UInt64.ofNat feeQuotient
    let amountInAfterFee ← checkedSub amountIn.toNat feeAmount.toNat
    let numerator ← checkedMul reserveOut.toNat amountInAfterFee
    let denominator ← checkedAdd reserveIn.toNat amountInAfterFee
    let outQuotient ← checkedDiv numerator denominator
    let amountOut := UInt64.ofNat outQuotient
    if amountOut ≥ reserveOut then none
    else some (amountOut, feeAmount)

/-- `constant_product::swap_base_out`: input amount and fee for a desired
    output. -/
def swapBaseOut (reserveIn reserveOut amountOut feeNumerator feeDenominator : UInt64) :
    Option (UInt64 × UInt64) :=
  if reserveIn = 0 ∨ reserveOut = 0 ∨ amountOut = 0 ∨ feeDenominator = 0 then
    none
  else if amountOut ≥ reserveOut then
    none
  else do
    let numerator ← checkedMul reserveIn.toNat amountOut.toNat
    let denominator ← checkedSub reserveOut.toNat amountOut.toNat
    let quotient ← checkedDiv numerator denominator
    let rounded ← checkedAdd quotient 1
    let amountInBeforeFee := UInt64.ofNat rounded
    let denomMinusFee ← checkedSub feeDenominator.toNat feeNumerator.toNat
    let scaled ← checkedMul amountInBeforeFee.toNat feeDenominator.toNat
    let quotient ← checkedDiv scaled denomMinusFee
    let rounded ← checkedAdd quotient 1
    let amountInWithFee := UInt64.ofNat rounded
    let feeAmount ← checkedSub amountInWithFee.toNat amountInBeforeFee.toNat
    some (amountInWithFee, UInt64.ofNat feeAmount)

/-- `constant_product::price_impact_bps`.  The two `u128` products cannot
    overflow; the scaling by `10_000` can, and wraps. -/
def priceImpactBps (reserveIn reserveOut amountIn amountOut : UInt64) : UInt16 :=
  if reserveIn = 0 ∨ reserveOut = 0 ∨ amountIn = 0 then 0
  else
    let spotNumerator := amountOut.toNat * reserveIn.toNat
    let spotDenominator := amountIn.toNat * reserveOut.toNat
    if spotDenominator = 0 then 10000
    else
      let ratio := spotNumerator * 10000 % 2 ^ 128 / spotDenominator
      if ratio ≥ 10000 then 0
      else UInt16.ofNat (10000 - ratio)

/-! ## The optimizer -/

/-- Parameters for one hop in the arb cycle. -/
structure HopParams where
  reserveIn : UInt64
  reserveOut : UInt64
  feeNumerator : UInt64
  feeDenominator : UInt64
deriving DecidableEq, Repr

/-- The hop's swap. -/
def HopParams.swap (hop : HopParams) (amount : UInt64) : Option (UInt64 × UInt64) :=
  swapBaseIn hop.reserveIn hop.reserveOut amount hop.feeNumerator hop.feeDenominator

/-- The hop loop of `optimizer::simulate_cycle`: the final output, or nothing
    when a hop rejects its input or yields zero. -/
def runHops : List HopParams → UInt64 → Option UInt64
  | [], current => some current
  | hop :: hops, current =>
      match hop.swap current with
      | some (out, _fee) => if out = 0 then none else runHops hops out
      | none => none

/-- `current as i64 - amount_in as i64`, wrapping. -/
def profitOf (current amountIn : UInt64) : Int64 :=
  current.toInt64 - amountIn.toInt64

/-- `optimizer::simulate_cycle`: profit of a cycle at one input amount. -/
def simulateCycle (hops : List HopParams) (amountIn : UInt64) : Int64 :=
  if amountIn = 0 then 0
  else
    match runHops hops amountIn with
    | some current => profitOf current amountIn
    | none => Int64.minValue

/-- The probing loop of `optimizer::optimize_arb_amount`: at most `n` more
    iterations on the interval `lo`, `hi`. -/
def probe (hops : List HopParams) : Nat → UInt64 → UInt64 → UInt64 × UInt64
  | 0, lo, hi => (lo, hi)
  | n + 1, lo, hi =>
      if hi - lo < 1000 then (lo, hi)
      else
        let m1 := lo + (hi - lo) / 3
        let m2 := hi - (hi - lo) / 3
        let profit1 := simulateCycle hops m1
        let profit2 := simulateCycle hops m2
        if profit1 < profit2 then probe hops n m1 hi
        else probe hops n lo m2

/-- `optimizer::optimize_arb_amount`: the amount the ternary search settles on
    and its profit. -/
def optimizeArbAmount (hops : List HopParams) (maxInput minInput : UInt64) :
    UInt64 × Int64 :=
  if hops.isEmpty ∨ maxInput ≤ minInput then (0, 0)
  else
    let (lo, hi) := probe hops 50 minInput maxInput
    let optimal := (lo + hi) / 2
    (optimal, simulateCycle hops optimal)

end MevMath
