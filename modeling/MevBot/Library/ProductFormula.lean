import Mathlib.Algebra.Order.Ring.Nat
import Mathlib.Tactic.Linarith
import Mathlib.Tactic.Ring

/-! # The constant product in whole units

    A market maker holding `x` and `y` pays `y * a / (x + a)` for `a` units, and
    a fee of `n / d` leaves `w - w * n / d` of `w` units.  Both are rounded down
    in naturals of any size.  A payment is characterised by its cross product
    (`le_productOut_iff`), and what a fee leaves by the gross amount it needs
    (`le_afterFee_iff`); the laws below are read off these two. -/

namespace ProductFormula

/-! ## Paying out -/

/-- The payment for `a` units on reserves `x` and `y`. -/
def productOut (x y a : Nat) : Nat := y * a / (x + a)

/-- **A PAYMENT IS AFFORDABLE** when its share of the reserve is covered by the
    input. -/
theorem le_productOut_iff {x y a out : Nat} (hx : 0 < x) (hout : out ≤ y) :
    out ≤ productOut x y a ↔ x * out ≤ a * (y - out) := by
  obtain ⟨rest, rfl⟩ := Nat.exists_eq_add_of_le hout
  rw [productOut, Nat.le_div_iff_mul_le (Nat.add_pos_left hx a), Nat.add_sub_cancel_left]
  have hleft : out * (x + a) = x * out + out * a := by ring
  have hright : (out + rest) * a = a * rest + out * a := by ring
  rw [hleft, hright, Nat.add_le_add_iff_right]

/-- The reserve is never paid out whole. -/
theorem productOut_lt {x y : Nat} (a : Nat) (hx : 0 < x) (hy : 0 < y) : productOut x y a < y := by
  rw [productOut, Nat.div_lt_iff_lt_mul (Nat.add_pos_left hx a)]
  exact Nat.mul_lt_mul_of_pos_left (Nat.lt_add_of_pos_left hx) hy

theorem productOut_le (x y a : Nat) : productOut x y a ≤ y :=
  Nat.div_le_of_le_mul (by
    rw [Nat.mul_comm]
    exact Nat.mul_le_mul_right y (Nat.le_add_left a x))

/-- **A CAP ON THE PAYMENT** is a cross product of the net input. -/
theorem productOut_le_iff {x : Nat} (hx : 0 < x) (y a cap : Nat) :
    productOut x y a ≤ cap ↔ a * (y - (cap + 1)) < x * (cap + 1) := by
  rcases Nat.lt_or_ge cap y with hlt | hge
  · rw [← not_iff_not, Nat.not_le, Nat.not_lt]
    exact le_productOut_iff hx (Nat.succ_le_of_lt hlt)
  · -- not even the whole reserve exceeds the cap
    refine iff_of_true ((productOut_le x y a).trans hge) ?_
    rw [Nat.sub_eq_zero_of_le (Nat.le_succ_of_le hge), Nat.mul_zero]
    exact Nat.mul_pos hx (Nat.succ_pos _)

/-- **THE PRODUCT DOES NOT DECREASE**. -/
theorem product_le (x y a : Nat) : x * y ≤ (x + a) * (y - productOut x y a) := by
  obtain ⟨rest, hrest⟩ := Nat.exists_eq_add_of_le (productOut_le x y a)
  have hpaid : productOut x y a * (x + a) ≤ y * a := Nat.div_mul_le_self (y * a) (x + a)
  rw [show y - productOut x y a = rest by omega]
  -- the reserves afterwards, written out against what was paid
  have hafter : (x + a) * rest + productOut x y a * (x + a) = x * y + y * a := by
    rw [show (x + a) * rest + productOut x y a * (x + a) =
      (x + a) * (productOut x y a + rest) by ring, ← hrest]
    ring
  omega

/-- **ONE UNIT MORE** and the product would decrease. -/
theorem lt_product {x y : Nat} (a : Nat) (hx : 0 < x) (hy : 0 < y) :
    (x + a) * (y - productOut x y a - 1) < x * y := by
  have hlt := productOut_lt a hx hy
  obtain ⟨rest, hrest⟩ := Nat.exists_eq_add_of_le (Nat.succ_le_of_lt hlt)
  have hover : y * a < (x + a) * (productOut x y a + 1) :=
    Nat.lt_mul_div_succ (y * a) (Nat.add_pos_left hx a)
  rw [show y - productOut x y a - 1 = rest by omega]
  have hafter : (x + a) * rest + (x + a) * (productOut x y a + 1) = x * y + y * a := by
    rw [show (x + a) * rest + (x + a) * (productOut x y a + 1) =
      (x + a) * (productOut x y a + 1 + rest) by ring, ← hrest]
    ring
  omega

/-- A larger input is not paid less. -/
theorem productOut_mono {x y a b : Nat} (hx : 0 < x) (hab : a ≤ b) :
    productOut x y a ≤ productOut x y b := by
  have hle := productOut_le x y a
  rw [le_productOut_iff hx hle]
  exact ((le_productOut_iff hx hle).mp (Nat.le_refl _)).trans (Nat.mul_le_mul_right _ hab)

/-! ## Charging a fee -/

/-- What a fee of `n / d`, rounded down, leaves of `w` units. -/
def afterFee (n d w : Nat) : Nat := w - w * n / d

/-- A share of at most the whole, rounded down. -/
theorem share_le {n d : Nat} (w : Nat) (h : n ≤ d) : w * n / d ≤ w := by
  refine Nat.div_le_of_le_mul ?_
  rw [Nat.mul_comm d]
  exact Nat.mul_le_mul_left w h

/-- A larger amount is not left with less. -/
theorem afterFee_mono {n d v w : Nat} (h : n ≤ d) (hvw : v ≤ w) :
    afterFee n d v ≤ afterFee n d w := by
  obtain ⟨more, rfl⟩ := Nat.exists_eq_add_of_le hvw
  rw [afterFee, afterFee]
  rcases Nat.eq_zero_or_pos d with rfl | hd
  · simp
  · -- the fee grows by at most what the amount does
    have hgrow : (v + more) * n / d ≤ v * n / d + more := by
      calc (v + more) * n / d ≤ (v * n + more * d) / d := by
            refine Nat.div_le_div_right ?_
            rw [Nat.add_mul]
            exact Nat.add_le_add_left (Nat.mul_le_mul_left more h) _
        _ = v * n / d + more := Nat.add_mul_div_right _ _ hd
    have hv := share_le v h
    omega

/-- **WHAT A FEE LEAVES**: `b` units, exactly when the amount is worth more than
    `b - 1` of them. -/
theorem le_afterFee_iff {n d b w : Nat} (h : n < d) (hb : 0 < b) :
    b ≤ afterFee n d w ↔ (b - 1) * d < w * (d - n) := by
  obtain ⟨δ, rfl⟩ := Nat.exists_eq_add_of_lt h
  obtain ⟨c, rfl⟩ := Nat.exists_eq_succ_of_ne_zero (Nat.ne_of_gt hb)
  have hd : 0 < n + δ + 1 := Nat.succ_pos _
  have hshare := share_le w (Nat.le_of_lt h)
  have hrem : n + δ + 1 - n = δ + 1 := by omega
  rw [afterFee, hrem, Nat.succ_sub_one]
  have hwhole : w * (n + δ + 1) = w * n + w * (δ + 1) := by ring
  constructor
  · intro hle
    -- the fee leaves `c + 1`, so it is at most `w - (c + 1)`
    have hfee : w * n / (n + δ + 1) + (c + 1) ≤ w := by omega
    have hlt := Nat.lt_mul_div_succ (w * n) hd
    have hscaled := Nat.mul_le_mul_left (n + δ + 1) hfee
    have hsplit : (n + δ + 1) * (w * n / (n + δ + 1) + (c + 1)) =
        (n + δ + 1) * (w * n / (n + δ + 1) + 1) + c * (n + δ + 1) := by ring
    have hcomm : (n + δ + 1) * w = w * (n + δ + 1) := Nat.mul_comm _ _
    omega
  · intro hlt
    by_contra hnot
    -- otherwise the fee is at least `w - c`
    have hfee : w ≤ w * n / (n + δ + 1) + c := by omega
    have hle := Nat.div_mul_le_self (w * n) (n + δ + 1)
    have hscaled := Nat.mul_le_mul_right (n + δ + 1) hfee
    rw [Nat.add_mul] at hscaled
    omega

/-- The gross amount for `b` units, rounded up past the exact one. -/
def grossUp (n d b : Nat) : Nat := b * d / (d - n) + 1

/-- **GROSSING UP COVERS THE FEE**. -/
theorem le_afterFee_grossUp {n d : Nat} (b : Nat) (h : n < d) :
    b ≤ afterFee n d (grossUp n d b) := by
  rcases Nat.eq_zero_or_pos b with rfl | hb
  · exact Nat.zero_le _
  · rw [le_afterFee_iff h hb, grossUp, Nat.mul_comm _ (d - n)]
    refine Nat.lt_of_le_of_lt (Nat.mul_le_mul_right d (Nat.sub_le b 1)) ?_
    exact Nat.lt_mul_div_succ (b * d) (Nat.sub_pos_of_lt h)

/-- **A GROSS AMOUNT REDUCED MODULO `M`** misses what it was computed for by the fee's
    complement at each reduction. -/
theorem afterFee_reduced {n d b w k M : Nat} (h : n < d) (hM : d < M) (hk : 0 < k)
    (hw : w + k * M ≤ grossUp n d b) : afterFee n d w + k * (d - n) ≤ b := by
  obtain ⟨δ, hδ⟩ : ∃ δ, d - n = δ := ⟨_, rfl⟩
  have hδpos : 0 < δ := hδ ▸ Nat.sub_pos_of_lt h
  rw [grossUp, hδ] at hw
  rw [hδ]
  -- undo the division of the gross amount
  have hquot := Nat.div_mul_le_self (b * d) δ
  have hscaled := Nat.mul_le_mul_right δ hw
  rw [Nat.add_mul, Nat.add_mul (b * d / δ)] at hscaled
  have hreduced : k * (d + 1) * δ ≤ k * M * δ :=
    Nat.mul_le_mul_right δ (Nat.mul_le_mul_left k hM)
  have hsplit : k * (d + 1) * δ = k * δ * d + k * δ := by ring
  have hone : 1 * δ ≤ k * δ := Nat.mul_le_mul_right δ hk
  have hnet : w * δ + k * δ * d ≤ b * d := by omega
  rcases Nat.eq_zero_or_pos (afterFee n d w) with hzero | hpos
  · rw [hzero, Nat.zero_add]
    exact Nat.le_of_mul_le_mul_right (by omega) (Nat.zero_lt_of_lt h)
  · have hleft := (le_afterFee_iff h hpos).mp (Nat.le_refl _)
    rw [hδ] at hleft
    have hlt : (afterFee n d w - 1 + k * δ) * d < b * d := by
      rw [Nat.add_mul]
      omega
    have := Nat.lt_of_mul_lt_mul_right hlt
    omega

/-- Missed by at most one unit, it was reduced once, and the fee leaves one part of its
    denominator. -/
theorem single_reduction {n d b w k M : Nat} (h : n < d) (hM : d < M) (hk : 0 < k)
    (hw : w + k * M ≤ grossUp n d b) (hclose : b ≤ afterFee n d w + 1) :
    k = 1 ∧ d - n = 1 ∧ afterFee n d w = b - 1 := by
  have hreduced := afterFee_reduced h hM hk hw
  have hpos : 0 < d - n := Nat.sub_pos_of_lt h
  have hone : k * (d - n) ≤ 1 := by omega
  have hk1 : k = 1 := Nat.le_antisymm ((Nat.le_mul_of_pos_right k hpos).trans hone) hk
  have hδ1 : d - n = 1 := Nat.le_antisymm ((Nat.le_mul_of_pos_left (d - n) hk).trans hone) hpos
  rw [hk1, hδ1] at hreduced
  exact ⟨hk1, hδ1, by omega⟩

/-- A gross amount of that kind is one for two or three units. -/
theorem single_reduction_small {d b w M : Nat} (hb : 2 ≤ b) (hw : w < M)
    (hwrap : w + M = b * d + 1) (hleft : (b - 2) * d < w) : M ≤ 2 * d ∧ b ≤ 3 := by
  have hsplit : b * d = (b - 2) * d + 2 * d := by
    rw [← Nat.add_mul]
    congr 1
    omega
  have hhalf : M ≤ 2 * d := by omega
  refine ⟨hhalf, ?_⟩
  by_contra hbig
  have hfour : 4 * d ≤ b * d := Nat.mul_le_mul_right d (by omega)
  omega

/-! ## The input for an output -/

/-- The net input for `out` units, rounded up past the exact one. -/
def productIn (x y out : Nat) : Nat := x * out / (y - out) + 1

/-- **THE NET INPUT PAYS** what it was computed for. -/
theorem le_productOut_productIn {x y out : Nat} (hx : 0 < x) (hout : out < y) :
    out ≤ productOut x y (productIn x y out) := by
  rw [le_productOut_iff hx (Nat.le_of_lt hout), productIn, Nat.mul_comm _ (y - out)]
  exact Nat.le_of_lt (Nat.lt_mul_div_succ (x * out) (Nat.sub_pos_of_lt hout))

/-- Two units below the computed net input, the output is missed. -/
theorem productOut_lt_of_lt {x y a out : Nat} (hx : 0 < x) (hout : out < y)
    (ha : a + 1 < productIn x y out) : productOut x y a < out := by
  rw [productIn] at ha
  refine Nat.lt_of_not_le ?_
  rw [le_productOut_iff hx (Nat.le_of_lt hout)]
  intro hle
  have hquot := Nat.div_mul_le_self (x * out) (y - out)
  have hpos := Nat.sub_pos_of_lt hout
  have hstep : (a + 1) * (y - out) ≤ x * out / (y - out) * (y - out) :=
    Nat.mul_le_mul_right _ (by omega)
  rw [Nat.add_mul] at hstep
  omega

/-- One unit below it, the output is met exactly when nothing was rounded. -/
theorem le_productOut_pred_iff {x y out : Nat} (hx : 0 < x) (hout : out < y) :
    out ≤ productOut x y (productIn x y out - 1) ↔ (y - out) ∣ x * out := by
  have hpred : productIn x y out - 1 = x * out / (y - out) := Nat.succ_sub_one _
  rw [le_productOut_iff hx (Nat.le_of_lt hout), hpred]
  constructor
  · intro hle
    have heq := Nat.le_antisymm hle (Nat.div_mul_le_self _ _)
    exact ⟨x * out / (y - out), heq.trans (Nat.mul_comm _ _)⟩
  · intro hdvd
    exact Nat.le_of_eq (Nat.div_mul_cancel hdvd).symm

end ProductFormula
