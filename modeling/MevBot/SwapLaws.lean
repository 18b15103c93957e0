import MevBot.ConstantProduct
import MevBot.Library.ProductFormula

/-! # The laws of a swap

    `swap_base_in` is the constant product in whole units behind one fee
    subtraction (`swapBaseIn_some_iff`).  Its output respects the product of
    the reserves and is the largest that does, and more input never yields
    less, at one pool or along a chain of them.

    The two `as u64` casts of fees and amounts are the weak points.  The fee of
    `swap_base_in` is cast before it is compared with the input, so a fee past
    `2 ^ 64` is charged modulo `2 ^ 64`; the input `swap_base_out` computes is
    cast as well, and one that does not fit buys less than was asked for. -/

namespace MevSwap

open MevMachine MevMath ProductFormula

/-! ## What `swap_base_in` computes -/

theorem toNat_pos {x : UInt64} (hx : x ≠ 0) : 0 < x.toNat :=
  Nat.pos_of_ne_zero fun h => hx (UInt64.toNat_inj.mp h)

/-- The fee of `swap_base_in` in naturals, before the cast. -/
def trueFee (amountIn feeNumerator feeDenominator : UInt64) : Nat :=
  amountIn.toNat * feeNumerator.toNat / feeDenominator.toNat

/-- The fee as `swap_base_in` charges it. -/
def chargedFee (amountIn feeNumerator feeDenominator : UInt64) : UInt64 :=
  UInt64.ofNat (trueFee amountIn feeNumerator feeDenominator)

theorem chargedFee_toNat (amountIn num den : UInt64) :
    (chargedFee amountIn num den).toNat = trueFee amountIn num den % 2 ^ 64 :=
  UInt64.toNat_ofNat'

/-- A product of a word with a part of another does not overflow a `u128`. -/
theorem checkedMul_part (a b : UInt64) {c : Nat} (hc : c ≤ b.toNat) :
    checkedMul a.toNat c = some (a.toNat * c) := by
  have hlt : a.toNat * c < 2 ^ 64 * 2 ^ 64 :=
    Nat.mul_lt_mul'' a.toNat_lt (Nat.lt_of_le_of_lt hc b.toNat_lt)
  rw [checkedMul, if_pos (by omega)]

/-- Nor does their sum. -/
theorem checkedAdd_part (a b : UInt64) {c : Nat} (hc : c ≤ b.toNat) :
    checkedAdd a.toNat c = some (a.toNat + c) := by
  have ha := a.toNat_lt
  have hb := b.toNat_lt
  rw [checkedAdd, if_pos (by omega)]

/-- The output on nonzero reserves fits a word, and does not drain the pool. -/
theorem productOut_fits {reserveIn reserveOut : UInt64} (hin : reserveIn ≠ 0)
    (hout : reserveOut ≠ 0) (a : Nat) :
    productOut reserveIn.toNat reserveOut.toNat a < reserveOut.toNat ∧
      (UInt64.ofNat (productOut reserveIn.toNat reserveOut.toNat a)).toNat =
        productOut reserveIn.toNat reserveOut.toNat a := by
  have hlt := productOut_lt a (toNat_pos hin) (toNat_pos hout)
  exact ⟨hlt, UInt64.toNat_ofNat_of_lt' (Nat.lt_trans hlt reserveOut.toNat_lt)⟩

/-- **`swap_base_in` IN NATURALS**: behind the guards only the fee subtraction can
    fail. -/
theorem swapBaseIn_eq (reserveIn reserveOut amountIn num den : UInt64) :
    swapBaseIn reserveIn reserveOut amountIn num den =
      if reserveIn = 0 ∨ reserveOut = 0 ∨ amountIn = 0 ∨ den = 0 then none
      else if amountIn < chargedFee amountIn num den then none
      else some (UInt64.ofNat (productOut reserveIn.toNat reserveOut.toNat
          (amountIn.toNat - (chargedFee amountIn num den).toNat)),
        chargedFee amountIn num den) := by
  rw [swapBaseIn]
  split
  · rfl
  · rename_i hguards
    simp only [not_or] at hguards
    obtain ⟨hin, hout, -, hden⟩ := hguards
    have hdenNat : den.toNat ≠ 0 := Nat.ne_of_gt (toNat_pos hden)
    simp only [Option.bind_eq_bind, checkedMul_u64, checkedDiv_pos hdenNat, Option.bind_some]
    change (checkedSub amountIn.toNat (chargedFee amountIn num den).toNat).bind _ = _
    split
    · rename_i hlt
      rw [checkedSub, if_neg (Nat.not_le.mpr (UInt64.lt_iff_toNat_lt.mp hlt)), Option.bind_none]
    · rename_i hnlt
      have hle := UInt64.le_iff_toNat_le.mp (UInt64.not_lt.mp hnlt)
      have hpart : amountIn.toNat - (chargedFee amountIn num den).toNat ≤ amountIn.toNat :=
        Nat.sub_le _ _
      have hpos := Nat.add_pos_left (toNat_pos hin)
        (amountIn.toNat - (chargedFee amountIn num den).toNat)
      obtain ⟨hfits, hcast⟩ := productOut_fits hin hout
        (amountIn.toNat - (chargedFee amountIn num den).toNat)
      simp only [checkedSub_le hle, Option.bind_some, checkedMul_part _ _ hpart,
        checkedAdd_part _ _ hpart, checkedDiv_pos (Nat.ne_of_gt hpos)]
      -- the quotient is below the reserve, before and after the cast
      rw [if_neg]
      · rfl
      · rw [ge_iff_le, UInt64.le_iff_toNat_le]
        exact Nat.not_le.mpr (Nat.lt_of_le_of_lt (Nat.le_of_eq hcast) hfits)

/-- When `swap_base_in` answers, and what. -/
theorem swapBaseIn_some_iff {reserveIn reserveOut amountIn num den out fee : UInt64} :
    swapBaseIn reserveIn reserveOut amountIn num den = some (out, fee) ↔
      (reserveIn ≠ 0 ∧ reserveOut ≠ 0 ∧ amountIn ≠ 0 ∧ den ≠ 0) ∧
        fee = chargedFee amountIn num den ∧ fee ≤ amountIn ∧
        out.toNat = productOut reserveIn.toNat reserveOut.toNat
          (amountIn.toNat - fee.toNat) := by
  rw [swapBaseIn_eq]
  constructor
  · intro h
    split at h
    · cases h
    · rename_i hguards
      split at h
      · cases h
      · rename_i hnlt
        simp only [not_or] at hguards
        obtain ⟨rfl, rfl⟩ := Prod.mk.inj (Option.some.inj h)
        exact ⟨hguards, rfl, UInt64.not_lt.mp hnlt,
          (productOut_fits hguards.1 hguards.2.1 _).2⟩
  · rintro ⟨hguards, rfl, hle, hout⟩
    have hcast := (productOut_fits hguards.1 hguards.2.1
      (amountIn.toNat - (chargedFee amountIn num den).toNat)).2
    have hnot : ¬(reserveIn = 0 ∨ reserveOut = 0 ∨ amountIn = 0 ∨ den = 0) := by
      simp only [not_or]
      exact hguards
    rw [if_neg hnot, if_neg (UInt64.not_lt.mpr hle), UInt64.toNat_inj.mp (hout.trans hcast.symm)]

/-- When it does not. -/
theorem swapBaseIn_none_iff {reserveIn reserveOut amountIn num den : UInt64} :
    swapBaseIn reserveIn reserveOut amountIn num den = none ↔
      reserveIn = 0 ∨ reserveOut = 0 ∨ amountIn = 0 ∨ den = 0 ∨
        amountIn < chargedFee amountIn num den := by
  rw [swapBaseIn_eq]
  constructor
  · intro h
    split at h
    · tauto
    · split at h
      · tauto
      · cases h
  · intro h
    split
    · rfl
    · rw [if_pos (by tauto)]

/-- A fee of at most the whole is charged in full. -/
theorem chargedFee_of_le {num den : UInt64} (amountIn : UInt64) (h : num ≤ den) :
    (chargedFee amountIn num den).toNat = trueFee amountIn num den ∧
      chargedFee amountIn num den ≤ amountIn := by
  have hle : trueFee amountIn num den ≤ amountIn.toNat :=
    share_le amountIn.toNat (UInt64.le_iff_toNat_le.mp h)
  have heq : (chargedFee amountIn num den).toNat = trueFee amountIn num den :=
    UInt64.toNat_ofNat_of_lt' (Nat.lt_of_le_of_lt hle amountIn.toNat_lt)
  refine ⟨heq, ?_⟩
  rw [UInt64.le_iff_toNat_le, heq]
  exact hle

/-- With such a fee, `swap_base_in` answers whenever the guards pass. -/
theorem swapBaseIn_of_le {reserveIn reserveOut amountIn num den : UInt64} (h : num ≤ den)
    (hin : reserveIn ≠ 0) (hout : reserveOut ≠ 0) (hamount : amountIn ≠ 0) (hden : den ≠ 0) :
    ∃ out fee, swapBaseIn reserveIn reserveOut amountIn num den = some (out, fee) ∧
      out.toNat = productOut reserveIn.toNat reserveOut.toNat
        (afterFee num.toNat den.toNat amountIn.toNat) := by
  obtain ⟨hcharged, hle⟩ := chargedFee_of_le amountIn h
  obtain ⟨-, hcast⟩ := productOut_fits hin hout
    (amountIn.toNat - (chargedFee amountIn num den).toNat)
  refine ⟨_, _, swapBaseIn_some_iff.mpr ⟨⟨hin, hout, hamount, hden⟩, rfl, hle, hcast⟩, ?_⟩
  rw [hcast, hcharged]
  rfl

/-! ## The pool's side -/

/-- **THE SAFETY LAW OF THE POOL**: what is charged is part of the input, the product
    of the reserves does not decrease, no larger output has this property, and
    neither the cast of the output nor the test for a drained pool is ever the
    reason for an answer. -/
theorem swapBaseIn_safe (reserveIn reserveOut amountIn num den : UInt64) :
    (∀ out fee, swapBaseIn reserveIn reserveOut amountIn num den = some (out, fee) →
      fee ≤ amountIn ∧ out < reserveOut ∧
        reserveIn.toNat * reserveOut.toNat ≤
          (reserveIn.toNat + (amountIn.toNat - fee.toNat)) * (reserveOut.toNat - out.toNat) ∧
        (reserveIn.toNat + (amountIn.toNat - fee.toNat)) *
          (reserveOut.toNat - out.toNat - 1) < reserveIn.toNat * reserveOut.toNat ∧
        out.toNat = reserveOut.toNat * (amountIn.toNat - fee.toNat) /
          (reserveIn.toNat + (amountIn.toNat - fee.toNat))) ∧
      (reserveIn ≠ 0 → reserveOut ≠ 0 → ∀ afterFee : UInt64,
        reserveOut.toNat * afterFee.toNat / (reserveIn.toNat + afterFee.toNat) <
          reserveOut.toNat) ∧
      (swapBaseIn reserveIn reserveOut amountIn num den = none ↔
        reserveIn = 0 ∨ reserveOut = 0 ∨ amountIn = 0 ∨ den = 0 ∨
          amountIn < chargedFee amountIn num den) := by
  refine ⟨?_, ?_, swapBaseIn_none_iff⟩
  · intro out fee h
    obtain ⟨⟨hin, hout, -, -⟩, -, hle, hpaid⟩ := swapBaseIn_some_iff.mp h
    have hx := toNat_pos hin
    have hy := toNat_pos hout
    refine ⟨hle, ?_, ?_, ?_, hpaid⟩
    · rw [UInt64.lt_iff_toNat_lt, hpaid]
      exact productOut_lt _ hx hy
    · rw [hpaid]
      exact product_le _ _ _
    · rw [hpaid]
      exact lt_product _ hx hy
  · intro hin hout afterFee
    exact productOut_lt afterFee.toNat (toNat_pos hin) (toNat_pos hout)

/-! ## The fee -/

/-- `swap_base_in` charges the fee it should: every answer carries the exact fee, and
    an input below its fee is rejected. -/
def ChargesTrueFee (reserveIn reserveOut amountIn num den : UInt64) : Prop :=
  (∀ out fee, swapBaseIn reserveIn reserveOut amountIn num den = some (out, fee) →
    fee.toNat = trueFee amountIn num den) ∧
  (amountIn.toNat < trueFee amountIn num den →
    swapBaseIn reserveIn reserveOut amountIn num den = none)

/-- **THE CAST OF THE FEE**: the exact fee is charged when it fits a word, when its low
    word alone exceeds the input, and on an empty pool; never otherwise. -/
theorem chargesTrueFee_iff (reserveIn reserveOut amountIn num den : UInt64) :
    ChargesTrueFee reserveIn reserveOut amountIn num den ↔
      trueFee amountIn num den < 2 ^ 64 ∨ amountIn.toNat < trueFee amountIn num den % 2 ^ 64 ∨
        reserveIn = 0 ∨ reserveOut = 0 := by
  have hcharged := chargedFee_toNat amountIn num den
  constructor
  · rintro ⟨hexact, -⟩
    by_contra hnot
    simp only [not_or, Nat.not_lt] at hnot
    obtain ⟨hbig, hlow, hin, hout⟩ := hnot
    -- a fee that large needs a nonzero amount and denominator
    have hamount : amountIn ≠ 0 := by
      rintro rfl
      simp [trueFee] at hbig
    have hden : den ≠ 0 := by
      rintro rfl
      simp [trueFee] at hbig
    have hle : chargedFee amountIn num den ≤ amountIn := by
      rw [UInt64.le_iff_toNat_le, hcharged]
      exact hlow
    have hanswer := swapBaseIn_some_iff.mpr ⟨⟨hin, hout, hamount, hden⟩, rfl, hle,
      (productOut_fits hin hout _).2⟩
    have heq := hexact _ _ hanswer
    have hlt := (chargedFee amountIn num den).toNat_lt
    omega
  · intro hcond
    constructor
    · intro out fee h
      obtain ⟨⟨hin, hout, -, -⟩, rfl, hle, -⟩ := swapBaseIn_some_iff.mp h
      rw [UInt64.le_iff_toNat_le] at hle
      rcases hcond with hfits | hlow | hin0 | hout0
      · rw [hcharged, Nat.mod_eq_of_lt hfits]
      · omega
      · exact absurd hin0 hin
      · exact absurd hout0 hout
    · intro hlt
      rw [swapBaseIn_none_iff]
      rcases hcond with hfits | hlow | hin0 | hout0
      · right; right; right; right
        rw [UInt64.lt_iff_toNat_lt, hcharged, Nat.mod_eq_of_lt hfits]
        exact hlt
      · right; right; right; right
        rw [UInt64.lt_iff_toNat_lt, hcharged]
        exact hlow
      · exact Or.inl hin0
      · exact Or.inr (Or.inl hout0)

/-- A fee of `2 ^ 64` units on an input of `2 ^ 33` is quoted as no fee at all. -/
theorem wrapped_fee_quoted :
    swapBaseIn 1000000000000 100000000000 8589934592 2147483648 1 =
        some (851677604, 0) ∧
      trueFee 8589934592 2147483648 1 = 2 ^ 64 ∧
      ¬ChargesTrueFee 1000000000000 100000000000 8589934592 2147483648 1 := by
  have hquote : swapBaseIn 1000000000000 100000000000 8589934592 2147483648 1 =
      some (851677604, 0) := by decide
  refine ⟨hquote, by decide, ?_⟩
  intro h
  exact absurd (h.1 _ _ hquote) (by decide)

/-! ## The input for an output -/

/-- The net input of `swap_base_out`, after its cast. -/
def netInput (reserveIn reserveOut amountOut : UInt64) : UInt64 :=
  UInt64.ofNat (productIn reserveIn.toNat reserveOut.toNat amountOut.toNat)

/-- A quotient of words, rounded up, does not overflow a `u128`. -/
theorem checkedAdd_quotient (a b : UInt64) (d : Nat) :
    checkedAdd (a.toNat * b.toNat / d) 1 = some (a.toNat * b.toNat / d + 1) := by
  have hquot := Nat.div_le_self (a.toNat * b.toNat) d
  have hprod : a.toNat * b.toNat ≤ (2 ^ 64 - 1) * (2 ^ 64 - 1) :=
    Nat.mul_le_mul (Nat.le_pred_of_lt a.toNat_lt) (Nat.le_pred_of_lt b.toNat_lt)
  rw [checkedAdd, if_pos (by omega)]

/-- What an answer of `swap_base_out` is. -/
theorem swapBaseOut_some {reserveIn reserveOut amountOut num den amountIn fee : UInt64}
    (h : swapBaseOut reserveIn reserveOut amountOut num den = some (amountIn, fee)) :
    reserveIn ≠ 0 ∧ amountOut ≠ 0 ∧ amountOut < reserveOut ∧ num < den ∧
      netInput reserveIn reserveOut amountOut ≤ amountIn ∧
      amountIn = UInt64.ofNat (grossUp num.toNat den.toNat
        (netInput reserveIn reserveOut amountOut).toNat) := by
  rw [swapBaseOut] at h
  split at h
  · cases h
  · rename_i hguards
    simp only [not_or] at hguards
    obtain ⟨hin, -, hamount, -⟩ := hguards
    split at h
    · cases h
    · rename_i hroom
      have hlt : amountOut < reserveOut := UInt64.not_le.mp hroom
      have hltNat := UInt64.lt_iff_toNat_lt.mp hlt
      simp only [Option.bind_eq_bind, checkedMul_u64, Option.bind_some,
        checkedSub_le (Nat.le_of_lt hltNat), checkedDiv_pos (Nat.sub_ne_zero_of_lt hltNat),
        checkedAdd_quotient] at h
      obtain ⟨complement, hcomplement, h⟩ := Option.bind_eq_some_iff.mp h
      obtain ⟨quotient, hquotient, h⟩ := Option.bind_eq_some_iff.mp h
      -- a fee of the whole or more leaves nothing to divide by
      rw [checkedSub] at hcomplement
      split at hcomplement
      · rename_i hfee
        obtain rfl := Option.some.inj hcomplement
        rw [checkedDiv] at hquotient
        split at hquotient
        · cases hquotient
        · rename_i hne
          obtain rfl := Option.some.inj hquotient
          rw [checkedAdd_quotient, Option.bind_some] at h
          obtain ⟨feeAmount, hfeeAmount, h⟩ := Option.bind_eq_some_iff.mp h
          obtain ⟨rfl, -⟩ := Prod.mk.inj (Option.some.inj h)
          rw [checkedSub] at hfeeAmount
          split at hfeeAmount
          · rename_i hcover
            refine ⟨hin, hamount, hlt, UInt64.lt_iff_toNat_lt.mpr (by omega),
              UInt64.le_iff_toNat_le.mpr hcover, rfl⟩
          · cases hfeeAmount
      · cases hcomplement

/-- The net and the gross input of `swap_base_out` both fit a word. -/
def InputFits (reserveIn reserveOut amountOut num den : UInt64) : Prop :=
  productIn reserveIn.toNat reserveOut.toNat amountOut.toNat < 2 ^ 64 ∧
    grossUp num.toNat den.toNat
      (productIn reserveIn.toNat reserveOut.toNat amountOut.toNat) < 2 ^ 64

instance (reserveIn reserveOut amountOut num den : UInt64) :
    Decidable (InputFits reserveIn reserveOut amountOut num den) :=
  inferInstanceAs (Decidable (_ ∧ _))

/-- A fee of all but one part in at least `2 ^ 63`, on an output that costs exactly one
    or two units: the gross input loses `2 ^ 64` and still buys the output. -/
def ForgivenWrap (reserveIn reserveOut amountOut num den : UInt64) : Prop :=
  den.toNat = num.toNat + 1 ∧ 2 ^ 63 ≤ den.toNat ∧
    (reserveIn.toNat * amountOut.toNat = reserveOut.toNat - amountOut.toNat ∨
      reserveIn.toNat * amountOut.toNat = 2 * (reserveOut.toNat - amountOut.toNat) ∧
        3 * den.toNat + 1 < 2 ^ 65)

/-- Swapping the input `swap_base_out` computes buys at least the desired output. -/
def BuysBack (reserveIn reserveOut amountOut num den amountIn : UInt64) : Prop :=
  ∃ actualOut fee, swapBaseIn reserveIn reserveOut amountIn num den = some (actualOut, fee) ∧
    amountOut ≤ actualOut

/-- The output bought, in naturals. -/
theorem buysBack_iff {reserveIn reserveOut amountOut num den amountIn fee : UInt64}
    (h : swapBaseOut reserveIn reserveOut amountOut num den = some (amountIn, fee)) :
    BuysBack reserveIn reserveOut amountOut num den amountIn ↔
      amountOut.toNat ≤ productOut reserveIn.toNat reserveOut.toNat
        (afterFee num.toNat den.toNat amountIn.toNat) := by
  obtain ⟨hin, hamount, hlt, hfee, hcover, hgross⟩ := swapBaseOut_some h
  have hout : reserveOut ≠ 0 := by
    rintro rfl
    exact UInt64.not_lt_zero hlt
  have hden : den ≠ 0 := by
    rintro rfl
    exact UInt64.not_lt_zero hfee
  have hne : amountIn ≠ 0 := by
    rintro rfl
    -- a net input of zero is still rounded up to one
    have hnet : netInput reserveIn reserveOut amountOut = 0 :=
      UInt64.le_zero_iff.mp hcover
    rw [hnet] at hgross
    simp [grossUp] at hgross
  obtain ⟨actual, fee', hswap, hactual⟩ :=
    swapBaseIn_of_le (UInt64.le_of_lt hfee) hin hout hne hden
  constructor
  · rintro ⟨actual', fee'', hswap', hle⟩
    rw [hswap] at hswap'
    obtain ⟨rfl, -⟩ := Prod.mk.inj (Option.some.inj hswap')
    rw [← hactual]
    exact UInt64.le_iff_toNat_le.mp hle
  · intro hle
    refine ⟨actual, fee', hswap, ?_⟩
    rw [UInt64.le_iff_toNat_le, hactual]
    exact hle

/-- A gross input that wraps buys the output only in the coincidence above. -/
theorem forgiven_of_wrap {reserveIn reserveOut amountOut num den amountIn : UInt64} {k : Nat}
    (hin : reserveIn ≠ 0) (hlt : amountOut < reserveOut) (hfee : num < den) (hk : 0 < k)
    (hwrap : amountIn.toNat + k * 2 ^ 64 = grossUp num.toNat den.toNat
      (productIn reserveIn.toNat reserveOut.toNat amountOut.toNat))
    (hcover : productIn reserveIn.toNat reserveOut.toNat amountOut.toNat ≤ amountIn.toNat)
    (hbuys : amountOut.toNat ≤ productOut reserveIn.toNat reserveOut.toNat
      (afterFee num.toNat den.toNat amountIn.toNat)) :
    ForgivenWrap reserveIn reserveOut amountOut num den := by
  have hltNat := UInt64.lt_iff_toNat_lt.mp hlt
  have hfeeNat := UInt64.lt_iff_toNat_lt.mp hfee
  have hword := amountIn.toNat_lt
  have hden := den.toNat_lt
  -- at most one unit may be missing
  have hclose : productIn reserveIn.toNat reserveOut.toNat amountOut.toNat ≤
      afterFee num.toNat den.toNat amountIn.toNat + 1 := by
    by_contra hfar
    exact absurd hbuys (Nat.not_le.mpr
      (productOut_lt_of_lt (toNat_pos hin) hltNat (Nat.not_le.mp hfar)))
  obtain ⟨rfl, hδ, hpred⟩ := single_reduction hfeeNat hden hk (Nat.le_of_eq hwrap) hclose
  -- nothing was rounded when the net input was computed
  rw [hpred, le_productOut_pred_iff (toNat_pos hin) hltNat] at hbuys
  have hexact := Nat.div_mul_cancel hbuys
  obtain ⟨units, hunits⟩ : ∃ units,
    reserveIn.toNat * amountOut.toNat / (reserveOut.toNat - amountOut.toNat) = units := ⟨_, rfl⟩
  have hnet : productIn reserveIn.toNat reserveOut.toNat amountOut.toNat = units + 1 := by
    rw [productIn, hunits]
  rw [hunits] at hexact
  rw [hnet, grossUp, hδ, Nat.div_one, Nat.one_mul] at hwrap
  rw [hnet, Nat.add_sub_cancel] at hpred
  -- the gross amount for a single unit would not have wrapped
  have hpos : 0 < units := by
    refine Nat.pos_of_ne_zero ?_
    rintro rfl
    omega
  have hleft := (le_afterFee_iff hfeeNat hpos).mp (Nat.le_of_eq hpred.symm)
  rw [hδ, Nat.mul_one] at hleft
  obtain ⟨hhalf, hsmall⟩ := single_reduction_small (b := units + 1) (by omega) hword hwrap hleft
  refine ⟨by omega, by omega, ?_⟩
  obtain rfl | rfl : units = 1 ∨ units = 2 := by omega
  · left
    omega
  · right
    exact ⟨hexact.symm, by omega⟩

/-- In that coincidence it does buy the output. -/
theorem buys_of_forgiven {reserveIn reserveOut amountOut num den amountIn : UInt64}
    (hin : reserveIn ≠ 0) (hlt : amountOut < reserveOut)
    (hforgiven : ForgivenWrap reserveIn reserveOut amountOut num den)
    (hgross : amountIn = UInt64.ofNat (grossUp num.toNat den.toNat
      (netInput reserveIn reserveOut amountOut).toNat)) :
    amountOut.toNat ≤ productOut reserveIn.toNat reserveOut.toNat
      (afterFee num.toNat den.toNat amountIn.toNat) := by
  have hltNat := UInt64.lt_iff_toNat_lt.mp hlt
  obtain ⟨hfee, hhalf, hcost⟩ := hforgiven
  have hden := den.toNat_lt
  have hδ : den.toNat - num.toNat = 1 := by omega
  have hpos : 0 < reserveOut.toNat - amountOut.toNat := Nat.sub_pos_of_lt hltNat
  obtain ⟨units, hunits, hq, hfits⟩ : ∃ units, (units = 1 ∨ units = 2) ∧
      reserveIn.toNat * amountOut.toNat = units * (reserveOut.toNat - amountOut.toNat) ∧
      (units + 1) * den.toNat + 1 < 2 ^ 65 := by
    rcases hcost with hone | ⟨htwo, hbound⟩
    · exact ⟨1, Or.inl rfl, by omega, by omega⟩
    · exact ⟨2, Or.inr rfl, htwo, hbound⟩
  have hnet : productIn reserveIn.toNat reserveOut.toNat amountOut.toNat = units + 1 := by
    rw [productIn, hq, Nat.mul_div_cancel _ hpos]
  have hcast : (netInput reserveIn reserveOut amountOut).toNat = units + 1 := by
    rw [netInput, hnet, UInt64.toNat_ofNat_of_lt' (show units + 1 < 2 ^ 64 by omega)]
  -- the gross input lost one `2 ^ 64`
  have hamount : amountIn.toNat + 2 ^ 64 = (units + 1) * den.toNat + 1 := by
    rw [hgross, hcast, grossUp, hδ, Nat.div_one, UInt64.toNat_ofNat']
    have hge : 2 * den.toNat ≤ (units + 1) * den.toNat := Nat.mul_le_mul_right _ (by omega)
    omega
  have hleft : units ≤ afterFee num.toNat den.toNat amountIn.toNat := by
    rw [le_afterFee_iff (by omega) (by omega), hδ, Nat.mul_one]
    rcases hunits with rfl | rfl
    · omega
    · omega
  calc amountOut.toNat ≤ productOut reserveIn.toNat reserveOut.toNat
          (productIn reserveIn.toNat reserveOut.toNat amountOut.toNat - 1) := by
        rw [le_productOut_pred_iff (toNat_pos hin) hltNat, hq]
        exact Nat.dvd_mul_left _ _
    _ ≤ _ := by
        rw [hnet, Nat.add_sub_cancel]
        exact productOut_mono (toNat_pos hin) hleft

/-- A net input past `2 ^ 64` never buys the output. -/
theorem not_buys_of_net {reserveIn reserveOut amountOut num den amountIn : UInt64}
    (hin : reserveIn ≠ 0) (hlt : amountOut < reserveOut)
    (hbig : 2 ^ 64 ≤ productIn reserveIn.toNat reserveOut.toNat amountOut.toNat)
    (hgross : amountIn = UInt64.ofNat (grossUp num.toNat den.toNat
      (netInput reserveIn reserveOut amountOut).toNat)) :
    productOut reserveIn.toNat reserveOut.toNat
      (afterFee num.toNat den.toNat amountIn.toNat) < amountOut.toNat := by
  refine productOut_lt_of_lt (toNat_pos hin) (UInt64.lt_iff_toNat_lt.mp hlt) ?_
  have hleft : afterFee num.toNat den.toNat amountIn.toNat ≤ amountIn.toNat := Nat.sub_le _ _
  have hword := amountIn.toNat_lt
  rcases Nat.eq_or_lt_of_le hbig with heq | hgt
  · -- exactly `2 ^ 64` is cast to zero, and its gross amount is one
    have hcast : (netInput reserveIn reserveOut amountOut).toNat = 0 := by
      rw [netInput, ← heq]
      rfl
    rw [hcast, grossUp, Nat.zero_mul, Nat.zero_div] at hgross
    have hone : amountIn.toNat = 1 := by
      rw [hgross]
      rfl
    omega
  · omega

/-- **THE CASTS OF THE INPUT**: what `swap_base_out` computes buys the desired output back
    exactly when neither of its casts loses anything, a coincidence apart. -/
theorem buysBack_iff_fits {reserveIn reserveOut amountOut num den amountIn fee : UInt64}
    (h : swapBaseOut reserveIn reserveOut amountOut num den = some (amountIn, fee)) :
    BuysBack reserveIn reserveOut amountOut num den amountIn ↔
      InputFits reserveIn reserveOut amountOut num den ∨
        ForgivenWrap reserveIn reserveOut amountOut num den := by
  obtain ⟨hin, -, hlt, hfee, hcover, hgross⟩ := swapBaseOut_some h
  have hltNat := UInt64.lt_iff_toNat_lt.mp hlt
  have hfeeNat := UInt64.lt_iff_toNat_lt.mp hfee
  rw [buysBack_iff h]
  constructor
  · intro hbuys
    by_cases hnet : productIn reserveIn.toNat reserveOut.toNat amountOut.toNat < 2 ^ 64
    · have hcast : (netInput reserveIn reserveOut amountOut).toNat =
          productIn reserveIn.toNat reserveOut.toNat amountOut.toNat :=
        UInt64.toNat_ofNat_of_lt' hnet
      by_cases hfits : grossUp num.toNat den.toNat
          (productIn reserveIn.toNat reserveOut.toNat amountOut.toNat) < 2 ^ 64
      · exact Or.inl ⟨hnet, hfits⟩
      · right
        rw [hcast] at hgross
        rw [UInt64.le_iff_toNat_le, hcast] at hcover
        have hwrap := Nat.mod_add_div (grossUp num.toNat den.toNat
          (productIn reserveIn.toNat reserveOut.toNat amountOut.toNat)) (2 ^ 64)
        rw [Nat.mul_comm (2 ^ 64)] at hwrap
        refine forgiven_of_wrap hin hlt hfee (Nat.div_pos (Nat.not_lt.mp hfits) (by decide))
          ?_ hcover hbuys
        rw [hgross, UInt64.toNat_ofNat']
        exact hwrap
    · exact absurd hbuys (Nat.not_le.mpr
        (not_buys_of_net hin hlt (Nat.not_lt.mp hnet) hgross))
  · rintro (⟨hnet, hfits⟩ | hforgiven)
    · have hcast : (netInput reserveIn reserveOut amountOut).toNat =
          productIn reserveIn.toNat reserveOut.toNat amountOut.toNat :=
        UInt64.toNat_ofNat_of_lt' hnet
      rw [hgross, hcast, UInt64.toNat_ofNat_of_lt' hfits]
      exact (le_productOut_productIn (toNat_pos hin) hltNat).trans
        (productOut_mono (toNat_pos hin) (le_afterFee_grossUp _ hfeeNat))
    · exact buys_of_forgiven hin hlt hforgiven hgross

/-- Fifty units out of a hundred thousand, at 25 basis points. -/
theorem buysBack_ordinary :
    swapBaseOut 1000000000000 100000000000 50000000 25 10000 = some (501503886, 1253760) ∧
      BuysBack 1000000000000 100000000000 50000000 25 10000 501503886 := by
  have hquote : swapBaseOut 1000000000000 100000000000 50000000 25 10000 =
      some (501503886, 1253760) := by decide
  exact ⟨hquote, (buysBack_iff_fits hquote).mpr (Or.inl (by decide))⟩

/-- Two of three units out against a reserve of `2 ^ 63` are quoted two units in, which buy
    nothing. -/
theorem wrapped_input_buys_nothing :
    swapBaseOut 9223372036854775808 3 2 25 10000 = some (2, 1) ∧
      ¬BuysBack 9223372036854775808 3 2 25 10000 2 := by
  have hquote : swapBaseIn 9223372036854775808 3 2 25 10000 = some (0, 0) := by decide
  refine ⟨by decide, ?_⟩
  rintro ⟨actualOut, fee, hswap, hle⟩
  rw [hquote] at hswap
  obtain ⟨rfl, -⟩ := Prod.mk.inj (Option.some.inj hswap)
  exact absurd hle (by decide)

/-! ## More input -/

/-- One swap: a larger input that is charged at most the whole is accepted as well, and not
    paid less. -/
theorem swap_mono {hop : HopParams} (hfee : hop.feeNumerator ≤ hop.feeDenominator)
    {x y out fee : UInt64} (hxy : x ≤ y) (h : hop.swap x = some (out, fee)) :
    ∃ out' fee', hop.swap y = some (out', fee') ∧ out ≤ out' := by
  obtain ⟨⟨hin, hout, hx, hden⟩, -⟩ := swapBaseIn_some_iff.mp h
  have hy : y ≠ 0 := by
    rintro rfl
    exact hx (UInt64.le_zero_iff.mp hxy)
  obtain ⟨outX, feeX, hswapX, hpaidX⟩ := swapBaseIn_of_le hfee hin hout hx hden
  obtain ⟨outY, feeY, hswapY, hpaidY⟩ := swapBaseIn_of_le hfee hin hout hy hden
  obtain ⟨rfl, -⟩ := Prod.mk.inj (Option.some.inj (hswapX.symm.trans h))
  refine ⟨outY, feeY, hswapY, ?_⟩
  rw [UInt64.le_iff_toNat_le, hpaidX, hpaidY]
  exact productOut_mono (toNat_pos hin)
    (afterFee_mono (UInt64.le_iff_toNat_le.mp hfee) (UInt64.le_iff_toNat_le.mp hxy))

/-- A fee of at most the whole. -/
def ProperFee (hop : HopParams) : Prop :=
  0 < hop.feeDenominator ∧ hop.feeNumerator ≤ hop.feeDenominator

instance (hop : HopParams) : Decidable (ProperFee hop) := inferInstanceAs (Decidable (_ ∧ _))

/-- A chain alive at one amount is alive at every larger one, with at least its output. -/
theorem runHops_mono {hops : List HopParams} (hfee : ∀ hop ∈ hops, ProperFee hop)
    {x y final : UInt64} (hxy : x ≤ y) (h : runHops hops x = some final) :
    ∃ final', runHops hops y = some final' ∧ final ≤ final' := by
  induction hops generalizing x y with
  | nil =>
      obtain rfl := Option.some.inj h
      exact ⟨y, rfl, hxy⟩
  | cons hop hops ih =>
      rw [runHops] at h
      split at h
      · rename_i out fee hswap
        split at h
        · cases h
        · rename_i hne
          -- the first hop passes the order on to the rest of the chain
          obtain ⟨out', fee', hswap', hle⟩ := swap_mono (hfee hop List.mem_cons_self).2 hxy hswap
          have hne' : out' ≠ 0 := by
            rintro rfl
            exact hne (UInt64.le_zero_iff.mp hle)
          obtain ⟨final', hrun, hfinal⟩ :=
            ih (fun next hnext => hfee next (List.mem_cons_of_mem hop hnext)) hle h
          refine ⟨final', ?_, hfinal⟩
          rw [runHops, hswap']
          dsimp only
          rw [if_neg hne']
          exact hrun
      · cases h

/-- **MORE INPUT NEVER YIELDS LESS**: the amounts at which a chain is dead are an initial
    segment, and past it the output grows with the input. -/
theorem live_mono (hops : List HopParams) (hfee : ∀ hop ∈ hops, ProperFee hop) (x y : UInt64)
    (hxy : x ≤ y) :
    (∀ final, runHops hops x = some final →
      ∃ final', runHops hops y = some final' ∧ final ≤ final') ∧
      (runHops hops y = none → runHops hops x = none) := by
  refine ⟨fun final h => runHops_mono hfee hxy h, ?_⟩
  intro hdead
  cases hrun : runHops hops x with
  | none => rfl
  | some final =>
      obtain ⟨final', hlive, -⟩ := runHops_mono hfee hxy hrun
      rw [hdead] at hlive
      cases hlive

/-- A hundred units through two hops, and two hundred. -/
theorem live_mono_pair :
    (∀ final, runHops [⟨1000, 500, 25, 10000⟩, ⟨500, 1100, 25, 10000⟩] 100 = some final →
      ∃ final', runHops [⟨1000, 500, 25, 10000⟩, ⟨500, 1100, 25, 10000⟩] 200 = some final' ∧
        final ≤ final') ∧
      (runHops [⟨1000, 500, 25, 10000⟩, ⟨500, 1100, 25, 10000⟩] 200 = none →
        runHops [⟨1000, 500, 25, 10000⟩, ⟨500, 1100, 25, 10000⟩] 100 = none) :=
  live_mono _ (by decide) 100 200 (by decide)

end MevSwap
