import MevBot.ObligationRecords

/-! # What the totals of an obligation add up

    `total_deposit_usd` and `total_borrow_usd` are documented as dollars, and the
    dollars of a position are its `market_value_usd`.  Kamino adds these up, at
    most ten values below `2 ^ 44`.  Marginfi cannot price its positions: it
    leaves their dollars at zero and adds up the native amounts instead, whatever
    the token.  So its totals are the sums they are documented to be exactly when
    no active slot holds a whole unit (`sumsExactly_iff`). -/

namespace MevObligationTotals

open MevMachine MevTypes MevLending MevDebug MevAdapterFacts MevDecoderOverflow
open MevObligationValues MevObligationRecords FixedRecords

/-! ## Sums in a debug build -/

/-- `Iterator::sum` on `u64`, from `acc` on. -/
def sumU64 : List UInt64 → UInt64 → Debug UInt64
  | [], acc => .ok acc
  | x :: xs, acc => do
      let acc ← addU64 acc x
      sumU64 xs acc

/-- The exact sum of some words. -/
def exactSum (xs : List UInt64) : Nat := (xs.map UInt64.toNat).sum

/-- A sum that fits a word is the one a release build computes. -/
theorem sumU64_fits {xs : List UInt64} {acc : UInt64} (h : acc.toNat + exactSum xs < 2 ^ 64) :
    sumU64 xs acc = .ok (xs.foldl (· + ·) acc) := by
  induction xs generalizing acc with
  | nil => rfl
  | cons x xs ih =>
      rw [exactSum, List.map_cons, List.sum_cons] at h
      have hx : acc.toNat + x.toNat < 2 ^ 64 := by omega
      rw [sumU64, addU64, if_pos hx]
      refine ih ?_
      rw [UInt64.toNat_add, Nat.mod_eq_of_lt hx, exactSum]
      omega

/-- A sum that does not fit stops a debug build. -/
theorem sumU64_overflows {xs : List UInt64} {acc : UInt64}
    (h : ¬acc.toNat + exactSum xs < 2 ^ 64) : sumU64 xs acc = .error .overflow := by
  induction xs generalizing acc with
  | nil => exact absurd acc.toNat_lt h
  | cons x xs ih =>
      rw [exactSum, List.map_cons, List.sum_cons] at h
      rw [sumU64, addU64]
      by_cases hx : acc.toNat + x.toNat < 2 ^ 64
      · rw [if_pos hx]
        refine ih ?_
        rw [UInt64.toNat_add, Nat.mod_eq_of_lt hx, exactSum]
        omega
      · rw [if_neg hx]
        rfl

/-- A sum of words is zero, and overflows nowhere, when all of them are zero. -/
theorem exactSum_eq_zero {xs : List UInt64} : exactSum xs = 0 ↔ ∀ x ∈ xs, x = 0 := by
  rw [exactSum, List.sum_eq_zero_iff, List.forall_mem_map]
  exact forall_congr' fun x => imp_congr_right fun _ => UInt64.toNat_inj (b := 0)

section Decoders

variable {F : Type} [F64 F]

/-- `KaminoAdapter::decode_obligation`. -/
def kaminoDebug (address : Pubkey) (data : List UInt8) : Debug (Option (ObligationState F)) := do
  if data.length < Kamino.OBLIGATION_MIN_SIZE then return none
  let owner ← ofRust (readPubkey data Kamino.OWNER_OFFSET)
  let depositsLen ← ofRust (readU32 data Kamino.DEPOSITS_LEN_OFFSET)
  if depositsLen > 10 then return none
  let (deposits, offset) ← ofRust
    (parseCollateral Kamino.usd data depositsLen.toNat (Kamino.DEPOSITS_LEN_OFFSET + 4))
  let borrowsLen ← ofRust (if offset + 4 ≤ data.length then readU32 data offset else pure 0)
  let borrows ← ofRust (parseLiquidity Kamino.usd data (min borrowsLen.toNat 10) (offset + 4))
  let totalDeposit ← sumU64 (deposits.map (·.marketValueUsd)) 0
  let totalBorrow ← sumU64 (borrows.map (·.marketValueUsd)) 0
  return some
    { address, protocol := .kamino, owner, deposits, borrows,
      totalDepositUsd := totalDeposit, totalBorrowUsd := totalBorrow,
      healthFactor := healthFactor totalDeposit totalBorrow,
      maxLiquidationAmount := maxLiquidation borrows,
      liquidationBonusBps := Kamino.KAMINO_LIQUIDATION_BONUS_BPS, slot := 0 }

/-- `MarginfiAdapter::decode_obligation`. -/
def marginfiDebug (address : Pubkey) (data : List UInt8) :
    Debug (Option (ObligationState F)) := do
  if data.length < Marginfi.MARGINFI_ACCOUNT_MIN_SIZE then return none
  let owner ← ofRust (readPubkey data Marginfi.AUTHORITY_OFFSET)
  let (deposits, borrows) ← ofRust
    (Marginfi.parseBalances F data Marginfi.MAX_BALANCES Marginfi.BALANCES_OFFSET)
  let totalDeposit ← sumU64 (deposits.map (·.depositedAmount)) 0
  let totalBorrow ← sumU64 (borrows.map (·.borrowedAmount)) 0
  return some
    { address, protocol := .marginfi, owner, deposits, borrows,
      totalDepositUsd := totalDeposit, totalBorrowUsd := totalBorrow,
      healthFactor := healthFactor totalDeposit totalBorrow,
      maxLiquidationAmount := maxLiquidation borrows,
      liquidationBonusBps := Marginfi.MARGINFI_LIQUIDATION_BONUS_BPS, slot := 0 }

/-- `decode_obligation` of the adapter of a protocol; Save adds nothing up. -/
def decodeObligationDebug :
    LendingProtocol → Pubkey → List UInt8 → Debug (Option (ObligationState F))
  | .kamino, address, data => kaminoDebug address data
  | .marginfi, address, data => marginfiDebug address data
  | .save, address, data => ofRust (Save.decodeObligation address data)

end Decoders

/-! ## The two builds -/

section Follows

variable {α : Type}

/-- The debug build yields what the release build does, of what satisfies `P`. -/
def Follows (P : α → Prop) (debug : Debug (Option α)) (release : Rust (Option α)) : Prop :=
  ∀ x, debug = .ok (some x) ↔ release = .ok (some x) ∧ P x

/-- An account turned away in both builds. -/
theorem Follows.none {P : α → Prop} : Follows P (pure none) (pure none) := by
  intro x
  constructor
  · intro h
    cases h
  · rintro ⟨h, -⟩
    cases h

/-- Both branches of a test. -/
theorem Follows.ite {P : α → Prop} {c : Prop} [Decidable c] {m m' : Debug (Option α)}
    {n n' : Rust (Option α)} (h : Follows P m n) (h' : Follows P m' n') :
    Follows P (if c then m else m') (if c then n else n') := by
  split
  · exact h
  · exact h'

/-- The same read in both builds. -/
theorem Follows.bind {β : Type} {P : α → Prop} {m : Rust β} {f : β → Debug (Option α)}
    {k : β → Rust (Option α)} (h : ∀ b, Follows P (f b) (k b)) :
    Follows P (ofRust m >>= f) (m >>= k) := by
  cases m with
  | error p =>
      intro x
      constructor
      · intro h
        cases h
      · rintro ⟨h, -⟩
        cases h
  | ok b => exact h b

/-- The end of both decoders: two sums, and the record made of them. -/
theorem Follows.sums {P : α → Prop} {xs ys : List UInt64} {mk : UInt64 → UInt64 → α}
    (h : P (mk (xs.foldl (· + ·) 0) (ys.foldl (· + ·) 0)) ↔
      exactSum xs < 2 ^ 64 ∧ exactSum ys < 2 ^ 64) :
    Follows P
      (do
        let x ← sumU64 xs 0
        let y ← sumU64 ys 0
        return some (mk x y))
      (pure (some (mk (xs.foldl (· + ·) 0) (ys.foldl (· + ·) 0)))) := by
  have hzero : ∀ zs, (0 : UInt64).toNat + exactSum zs = exactSum zs := fun _ => Nat.zero_add _
  intro z
  by_cases hx : exactSum xs < 2 ^ 64
  · by_cases hy : exactSum ys < 2 ^ 64
    · rw [sumU64_fits (by rw [hzero]; exact hx), sumU64_fits (by rw [hzero]; exact hy)]
      constructor
      · intro hz
        obtain rfl := Option.some.inj (Except.ok.inj hz)
        exact ⟨rfl, h.mpr ⟨hx, hy⟩⟩
      · rintro ⟨hz, -⟩
        obtain rfl := Option.some.inj (Except.ok.inj hz)
        rfl
    · rw [sumU64_fits (by rw [hzero]; exact hx), sumU64_overflows (by rw [hzero]; exact hy)]
      constructor
      · intro hz
        cases hz
      · rintro ⟨hz, hP⟩
        obtain rfl := Option.some.inj (Except.ok.inj hz)
        exact absurd (h.mp hP).2 hy
  · rw [sumU64_overflows (by rw [hzero]; exact hx)]
    constructor
    · intro hz
      cases hz
    · rintro ⟨hz, hP⟩
      obtain rfl := Option.some.inj (Except.ok.inj hz)
      exact absurd (h.mp hP).1 hx

end Follows

section Totals

variable {F : Type} [F64 F]

/-- The words added up fit a word. -/
def SumsFit (deposit borrow : LendingPosition → UInt64) (o : ObligationState F) : Prop :=
  exactSum (o.deposits.map deposit) < 2 ^ 64 ∧ exactSum (o.borrows.map borrow) < 2 ^ 64

/-- The two sums are all that a debug build of the Kamino adapter checks. -/
theorem kaminoDebug_follows (address : Pubkey) (data : List UInt8) :
    Follows (SumsFit (F := F) (·.marketValueUsd) (·.marketValueUsd)) (kaminoDebug address data)
      (Kamino.decodeObligation address data) := by
  rw [Kamino.decodeObligation_eq]
  refine Follows.ite Follows.none ?_
  refine Follows.bind fun owner => Follows.bind fun depositsLen => ?_
  refine Follows.ite Follows.none (Follows.bind fun parsed => ?_)
  obtain ⟨deposits, offset⟩ := parsed
  dsimp only
  split
  · refine Follows.bind fun borrowsLen => Follows.bind fun borrows => ?_
    exact Follows.sums Iff.rfl
  · refine Follows.bind fun borrowsLen => Follows.bind fun borrows => ?_
    exact Follows.sums Iff.rfl

/-- The same of the Marginfi adapter, which sums token amounts. -/
theorem marginfiDebug_follows (address : Pubkey) (data : List UInt8) :
    Follows (SumsFit (F := F) (·.depositedAmount) (·.borrowedAmount)) (marginfiDebug address data)
      (Marginfi.decodeObligation address data) := by
  refine Follows.ite Follows.none ?_
  refine Follows.bind fun owner => Follows.bind fun parsed => ?_
  exact Follows.sums Iff.rfl

/-! ## Kamino -/

/-- A wrapping sum of words that fits is exact. -/
theorem foldl_exact {xs : List UInt64} (h : exactSum xs < 2 ^ 64) :
    (xs.foldl (· + ·) 0).toNat = exactSum xs := by
  rw [foldl_add_toNat, show (0 : UInt64).toNat = 0 from rfl, Nat.zero_add]
  exact Nat.mod_eq_of_lt h

/-- Up to ten words below `2 ^ 44` fit. -/
theorem exactSum_small {xs : List UInt64} (hlen : xs.length ≤ 10)
    (hsmall : ∀ x ∈ xs, x.toNat ≤ 2 ^ 44) : exactSum xs < 2 ^ 64 := by
  have hle : exactSum xs ≤ (xs.map UInt64.toNat).length * 2 ^ 44 :=
    List.sum_le_card_nsmul _ _ (List.forall_mem_map.mpr hsmall)
  rw [List.length_map] at hle
  omega

/-- Both totals are wrapping sums of the words given. -/
structure TotalsOf (deposit borrow : LendingPosition → UInt64) (o : ObligationState F) : Prop where
  deposits : o.totalDepositUsd = (o.deposits.map deposit).foldl (· + ·) 0
  borrows : o.totalBorrowUsd = (o.borrows.map borrow).foldl (· + ·) 0

/-- A market value of a Kamino record is below `2 ^ 44` dollars. -/
theorem kaminoUsd_le (v : Nat) : (Kamino.usd v).toNat ≤ 2 ^ 44 := by
  have hlt := (UInt64.ofNat v).toNat_lt
  rw [Kamino.usd, UInt64.toNat_div, show (1048576 : UInt64).toNat = 1048576 from rfl]
  omega

/-- Kamino's totals are sums over at most ten market values a list, each below `2 ^ 44`. -/
theorem kamino_sumsFit (address : Pubkey) (data : List UInt8) :
    Yields (fun o => TotalsOf (F := F) (·.marketValueUsd) (·.marketValueUsd) o ∧
        SumsFit (·.marketValueUsd) (·.marketValueUsd) o)
      (Kamino.decodeObligation address data) := by
  rw [Kamino.decodeObligation_eq]
  refine Yields.ite Yields.none ?_
  refine Yields.bind fun owner => Yields.bind fun depositsLen => ?_
  split
  · exact Yields.none
  rename_i hten
  have hten : depositsLen.toNat ≤ 10 := UInt32.le_iff_toNat_le.mp (UInt32.not_lt.mp hten)
  refine Yields.read fun parsed hparsed => ?_
  rw [parseCollateral_scan] at hparsed
  obtain rfl := Except.ok.inj hparsed
  have hfit : ∀ {size count offset : Nat} {position : Nat → LendingPosition}, count ≤ 10 →
      (∀ pos, (position pos).marketValueUsd.toNat ≤ 2 ^ 44) →
        exactSum (((scan size data.length count offset).map position).map (·.marketValueUsd)) <
          2 ^ 64 := by
    intro size count offset position hcount hsmall
    refine exactSum_small ?_ ?_
    · rw [List.length_map, List.length_map]
      exact (length_scan_le _ _).trans hcount
    · rw [List.map_map]
      exact List.forall_mem_map.mpr fun pos _ => hsmall pos
  have hborrows : ∀ count offset, exactSum (((scan 80 data.length (min count 10) offset).map
      (liquidityAt Kamino.usd data)).map (·.marketValueUsd)) < 2 ^ 64 :=
    fun count offset => hfit (Nat.min_le_right _ _) fun pos => kaminoUsd_le _
  dsimp only
  split
  · refine Yields.bind fun borrowsLen => Yields.read fun borrows hborrows' => ?_
    rw [parseLiquidity_scan] at hborrows'
    obtain rfl := Except.ok.inj hborrows'
    exact Yields.some ⟨⟨rfl, rfl⟩, hfit hten fun pos => kaminoUsd_le _, hborrows _ _⟩
  · refine Yields.bind fun borrowsLen => Yields.read fun borrows hborrows' => ?_
    rw [parseLiquidity_scan] at hborrows'
    obtain rfl := Except.ok.inj hborrows'
    exact Yields.some ⟨⟨rfl, rfl⟩, hfit hten fun pos => kaminoUsd_le _, hborrows _ _⟩

/-! ## Marginfi -/

/-- The signed fixed-point number of a share balance, in units of `2 ^ -48`. -/
def sharesAt (data : List UInt8) (offset : Nat) : Int :=
  Int.bmod (numberAt data offset 16) (2 ^ 128)

variable (F) in
/-- The balance counts as a position, with a nonzero native amount. -/
def Counts (raw : Int) : Prop :=
  F64.lt 0.0 (F64.ofInt raw / F64.ofInt (2 ^ 48) : F) = true ∧
    F64.toU64 (F64.ofInt raw / F64.ofInt (2 ^ 48) : F) ≠ 0

/-- Neither balance of the slot at `offset` has the property, if the slot is complete
    and active. -/
def SlotFree (P : Int → Prop) (data : List UInt8) (offset : Nat) : Prop :=
  offset + 104 ≤ data.length → numberAt data offset 1 ≠ 0 →
    ¬P (sharesAt data (offset + 40)) ∧ ¬P (sharesAt data (offset + 56))

instance (P : Int → Prop) [DecidablePred P] (data : List UInt8) (offset : Nat) :
    Decidable (SlotFree P data offset) := inferInstanceAs (Decidable (_ → _ → _))

/-- No balance of the `count` slots from `offset` on has the property. -/
def SlotsFree (P : Int → Prop) (data : List UInt8) (count offset : Nat) : Prop :=
  ∀ i < count, SlotFree P data (offset + 104 * i)

instance (P : Int → Prop) [DecidablePred P] (data : List UInt8) (count offset : Nat) :
    Decidable (SlotsFree P data count offset) := inferInstanceAs (Decidable (∀ i < count, _))

/-- The first slot, and the others. -/
theorem slotsFree_succ {P : Int → Prop} {data : List UInt8} {count offset : Nat} :
    SlotsFree P data (count + 1) offset ↔
      SlotFree P data offset ∧ SlotsFree P data count (offset + 104) := by
  rw [SlotsFree, Nat.forall_lt_succ_left]
  refine and_congr Iff.rfl (forall_congr' fun i => imp_congr_right fun _ => ?_)
  rw [Nat.mul_succ, Nat.add_comm (104 * i), ← Nat.add_assoc]

/-- The fixed-point number read is the share count over `2 ^ 48`. -/
theorem readI80F48_ok {data : List UInt8} {offset : Nat} {x : F}
    (h : Marginfi.readI80F48 F data offset = .ok x) :
    x = F64.ofInt (sharesAt data offset) / F64.ofInt (2 ^ 48) := by
  rw [Marginfi.readI80F48, readI128] at h
  obtain ⟨raw, hraw, h⟩ := bind_ok h
  obtain ⟨bs, hslice, hraw⟩ := bind_ok hraw
  obtain rfl := slice_ok hslice
  obtain rfl := Except.ok.inj hraw
  exact (Except.ok.inj h).symm

/-- A position is pushed with a nonzero amount exactly if its balance counts. -/
theorem pushed_zero {x : F} {amount : LendingPosition → UInt64} {position : LendingPosition}
    {positions : List LendingPosition} (hamount : amount position = F64.toU64 x) :
    (∀ p ∈ if F64.lt 0.0 x then position :: positions else positions, amount p = 0) ↔
      ¬(F64.lt 0.0 x = true ∧ F64.toU64 x ≠ 0) ∧ ∀ p ∈ positions, amount p = 0 := by
  split
  · rename_i hpos
    rw [List.forall_mem_cons, hamount]
    simp [hpos]
  · rename_i hpos
    simp [hpos]

variable (F) in
/-- The share balance at `offset` as the decoder reads it. -/
def balanceAt (data : List UInt8) (offset : Nat) : F :=
  F64.ofInt (sharesAt data offset) / F64.ofInt (2 ^ 48)

/-- **ONE SLOT**: a slot cut off is the last, an inactive one is stepped over, and an active
    one pushes a position without dollars for each positive balance. -/
theorem parseBalances_cases {data : List UInt8} {count offset : Nat}
    {deposits borrows : List LendingPosition}
    (h : Marginfi.parseBalances F data (count + 1) offset = .ok (deposits, borrows)) :
    (data.length < offset + 104 ∧ deposits = [] ∧ borrows = []) ∨
    (offset + 104 ≤ data.length ∧ numberAt data offset 1 = 0 ∧
      Marginfi.parseBalances F data count (offset + 104) = .ok (deposits, borrows)) ∨
    (offset + 104 ≤ data.length ∧ numberAt data offset 1 ≠ 0 ∧
      ∃ deposit borrow : LendingPosition, ∃ restDeposits restBorrows : List LendingPosition,
        Marginfi.parseBalances F data count (offset + 104) = .ok (restDeposits, restBorrows) ∧
        (deposit.marketValueUsd = 0 ∧
          deposit.depositedAmount = F64.toU64 (balanceAt F data (offset + 40))) ∧
        (borrow.marketValueUsd = 0 ∧
          borrow.borrowedAmount = F64.toU64 (balanceAt F data (offset + 56))) ∧
        deposits = (if F64.lt 0.0 (balanceAt F data (offset + 40)) then deposit :: restDeposits
          else restDeposits) ∧
        borrows = (if F64.lt 0.0 (balanceAt F data (offset + 56)) then borrow :: restBorrows
          else restBorrows)) := by
  rw [Marginfi.parseBalances, Marginfi.BALANCE_SIZE] at h
  split at h
  · rename_i hshort
    obtain ⟨rfl, rfl⟩ := Prod.mk.inj (Except.ok.inj h)
    exact Or.inl ⟨hshort, rfl, rfl⟩
  · rename_i hroom
    obtain ⟨active, hactive, h⟩ := bind_ok h
    split at h
    · rename_i hzero
      refine Or.inr (Or.inl ⟨Nat.not_lt.mp hroom, ?_, h⟩)
      rw [← readU8_ok hactive, hzero]
      rfl
    · rename_i hactive'
      obtain ⟨bankPk, -, h⟩ := bind_ok h
      obtain ⟨assets, hassets, h⟩ := bind_ok h
      obtain ⟨liabilities, hliabilities, h⟩ := bind_ok h
      obtain ⟨⟨restDeposits, restBorrows⟩, hrest, h⟩ := bind_ok h
      obtain ⟨rfl, rfl⟩ := Prod.mk.inj (Except.ok.inj h)
      obtain rfl : assets = balanceAt F data (offset + 40) := readI80F48_ok hassets
      obtain rfl : liabilities = balanceAt F data (offset + 56) := readI80F48_ok hliabilities
      refine Or.inr (Or.inr ⟨Nat.not_lt.mp hroom, ?_, _, _, restDeposits, restBorrows, hrest,
        ⟨rfl, rfl⟩, ⟨rfl, rfl⟩, rfl, rfl⟩)
      intro hzero
      exact hactive' (UInt8.toNat_inj.mp ((readU8_ok hactive).trans hzero))

/-- A pushed position is one of the list. -/
theorem forall_mem_pushed {x : F} {P : LendingPosition → Prop} {position : LendingPosition}
    {positions : List LendingPosition} (h : P position) (hrest : ∀ p ∈ positions, P p) :
    ∀ p ∈ if F64.lt 0.0 x then position :: positions else positions, P p := by
  split
  · exact List.forall_mem_cons.mpr ⟨h, hrest⟩
  · exact hrest

/-- No position has dollars, and all amounts are zero when no balance counts. -/
theorem parseBalances_amounts {data : List UInt8} {count offset : Nat}
    {deposits borrows : List LendingPosition}
    (h : Marginfi.parseBalances F data count offset = .ok (deposits, borrows)) :
    ((∀ p ∈ deposits, p.marketValueUsd = 0) ∧ ∀ p ∈ borrows, p.marketValueUsd = 0) ∧
      (((∀ p ∈ deposits, p.depositedAmount = 0) ∧ ∀ p ∈ borrows, p.borrowedAmount = 0) ↔
        SlotsFree (Counts F) data count offset) := by
  induction count generalizing offset deposits borrows with
  | zero =>
      obtain ⟨rfl, rfl⟩ := Prod.mk.inj (Except.ok.inj h)
      simp [SlotsFree]
  | succ count ih =>
      rw [slotsFree_succ]
      rcases parseBalances_cases h with ⟨hshort, rfl, rfl⟩ | ⟨-, hzero, hrest⟩ |
        ⟨hroom, hactive, deposit, borrow, restDeposits, restBorrows, hrest, ⟨hdollars, hdeposit⟩,
          ⟨hdollars', hborrow⟩, rfl, rfl⟩
      · have hfree : SlotFree (Counts F) data offset ∧
            SlotsFree (Counts F) data count (offset + 104) := by
          refine ⟨fun hroom => ?_, fun i _ hroom => ?_⟩
          · omega
          · omega
        exact ⟨⟨List.forall_mem_nil _, List.forall_mem_nil _⟩,
          iff_of_true ⟨List.forall_mem_nil _, List.forall_mem_nil _⟩ hfree⟩
      · obtain ⟨hdollars, hamounts⟩ := ih hrest
        have hfree : SlotFree (Counts F) data offset := fun _ hne => absurd hzero hne
        exact ⟨hdollars, hamounts.trans (and_iff_right hfree).symm⟩
      · obtain ⟨⟨hdeposits, hborrows⟩, hamounts⟩ := ih hrest
        have hslot : SlotFree (Counts F) data offset ↔
            ¬Counts F (sharesAt data (offset + 40)) ∧ ¬Counts F (sharesAt data (offset + 56)) :=
          ⟨fun hfree => hfree hroom hactive, fun hnot _ _ => hnot⟩
        refine ⟨⟨forall_mem_pushed hdollars hdeposits, forall_mem_pushed hdollars' hborrows⟩, ?_⟩
        rw [pushed_zero hdeposit, pushed_zero hborrow, and_and_and_comm, hamounts, hslot]
        rfl

/-- Marginfi's totals are those of its positions. -/
theorem marginfi_positions (address : Pubkey) (data : List UInt8) :
    Yields (fun o => TotalsOf (F := F) (·.depositedAmount) (·.borrowedAmount) o ∧
        Marginfi.parseBalances F data 16 72 = .ok (o.deposits, o.borrows))
      (Marginfi.decodeObligation address data) := by
  refine Yields.ite Yields.none ?_
  refine Yields.bind fun owner => Yields.read fun parsed hparsed => ?_
  obtain ⟨deposits, borrows⟩ := parsed
  exact Yields.some ⟨⟨rfl, rfl⟩, hparsed⟩

/-- The balance loop never reads past the end. -/
theorem parseBalances_returns (data : List UInt8) (count offset : Nat) :
    Returns (Marginfi.parseBalances F data count offset) := by
  induction count generalizing offset with
  | zero => exact Returns.pure _
  | succ count ih =>
      refine Returns.guard (Returns.pure _) fun hroom => ?_
      rw [Marginfi.BALANCE_SIZE] at hroom
      have hshares : ∀ {field}, field + 16 ≤ 104 →
          Returns (Marginfi.readI80F48 F data (offset + field)) := fun hfield =>
        Returns.bind (Returns.bind ⟨_, slice_in_range (by omega)⟩ fun _ => Returns.pure _)
          fun _ => Returns.pure _
      refine Returns.bind (readU8_returns (by omega)) fun active => Returns.ite (ih _) ?_
      refine Returns.bind (readPubkey_returns (by omega)) fun bankPk => ?_
      refine Returns.bind (hshares (by decide)) fun assets => ?_
      refine Returns.bind (hshares (by decide)) fun liabilities => ?_
      exact Returns.bind (ih _) fun rest => Returns.pure _

/-- Marginfi decodes every account that is long enough. -/
theorem marginfi_decodes (address : Pubkey) {data : List UInt8}
    (h : Marginfi.MARGINFI_ACCOUNT_MIN_SIZE ≤ data.length) :
    ∃ o : ObligationState F, Marginfi.decodeObligation address data = .ok (some o) := by
  obtain ⟨owner, howner⟩ : Returns (readPubkey data Marginfi.AUTHORITY_OFFSET) :=
    readPubkey_returns (Nat.le_trans (by decide) h)
  obtain ⟨⟨deposits, borrows⟩, hparsed⟩ :=
    parseBalances_returns (F := F) data Marginfi.MAX_BALANCES Marginfi.BALANCES_OFFSET
  rw [Marginfi.decodeObligation, if_neg (Nat.not_lt.mpr h), howner, hparsed]
  exact ⟨_, rfl⟩

/-! ## The theorem -/

/-- What a decoder reports as dollars are the dollars of its positions, exactly, and adding
    them up overflows nowhere. -/
def SumsExactly (debug : Debug (Option (ObligationState F)))
    (release : Rust (Option (ObligationState F))) : Prop :=
  ∀ o, release = .ok (some o) → debug = .ok (some o) ∧
    o.totalDepositUsd.toNat = exactSum (o.deposits.map (·.marketValueUsd)) ∧
    o.totalBorrowUsd.toNat = exactSum (o.borrows.map (·.marketValueUsd))

/-- Kamino's sums always fit. -/
theorem kamino_sumsExactly (address : Pubkey) (data : List UInt8) :
    SumsExactly (F := F) (kaminoDebug address data) (Kamino.decodeObligation address data) := by
  intro o ho
  obtain ⟨htotals, hfit⟩ := kamino_sumsFit address data o ho
  refine ⟨(kaminoDebug_follows address data o).mpr ⟨ho, hfit⟩, ?_, ?_⟩
  · rw [htotals.deposits, foldl_exact hfit.1]
  · rw [htotals.borrows, foldl_exact hfit.2]

/-- Amounts that add up to the dollars of positions without any are all zero. -/
theorem amounts_zero_iff {positions : List LendingPosition} {amount : LendingPosition → UInt64}
    {total : UInt64} (hdollars : ∀ p ∈ positions, p.marketValueUsd = 0)
    (htotal : total = (positions.map amount).foldl (· + ·) 0) :
    (exactSum (positions.map amount) < 2 ^ 64 ∧
        total.toNat = exactSum (positions.map (·.marketValueUsd))) ↔
      ∀ p ∈ positions, amount p = 0 := by
  rw [exactSum_eq_zero.mpr (List.forall_mem_map.mpr hdollars), htotal]
  constructor
  · rintro ⟨hfit, hzero⟩
    rw [foldl_exact hfit] at hzero
    exact List.forall_mem_map.mp (exactSum_eq_zero.mp hzero)
  · intro hzero
    have hsum := exactSum_eq_zero.mpr (List.forall_mem_map.mpr hzero)
    have hfit : exactSum (positions.map amount) < 2 ^ 64 := by
      rw [hsum]
      decide
    exact ⟨hfit, (foldl_exact hfit).trans hsum⟩

/-- Marginfi's do when both lists of amounts fit. -/
theorem marginfi_sumsExactly_iff (address : Pubkey) (data : List UInt8) :
    SumsExactly (F := F) (marginfiDebug address data) (Marginfi.decodeObligation address data) ↔
      (Marginfi.MARGINFI_ACCOUNT_MIN_SIZE ≤ data.length → SlotsFree (Counts F) data 16 72) := by
  have hzero : ∀ o : ObligationState F, Marginfi.decodeObligation address data = .ok (some o) →
      ((marginfiDebug address data = .ok (some o) ∧
          o.totalDepositUsd.toNat = exactSum (o.deposits.map (·.marketValueUsd)) ∧
          o.totalBorrowUsd.toNat = exactSum (o.borrows.map (·.marketValueUsd))) ↔
        SlotsFree (Counts F) data 16 72) := by
    intro o ho
    obtain ⟨htotals, hparsed⟩ := marginfi_positions address data o ho
    obtain ⟨⟨hdeposits, hborrows⟩, hamounts⟩ := parseBalances_amounts hparsed
    rw [marginfiDebug_follows address data o, and_iff_right ho, SumsFit, ← hamounts,
      ← amounts_zero_iff hdeposits htotals.deposits, ← amounts_zero_iff hborrows htotals.borrows]
    exact and_and_and_comm
  constructor
  · intro hsums hlen
    obtain ⟨o, ho⟩ := marginfi_decodes (F := F) address hlen
    exact (hzero o ho).mp (hsums o ho)
  · intro hfree o ho
    refine (hzero o ho).mpr (hfree ?_)
    by_contra hshort
    rw [Marginfi.decodeObligation, if_pos (Nat.not_le.mp hshort)] at ho
    cases ho

/-! ## Fixed-point numbers -/

variable (F) in
/-- What `f64` arithmetic makes of a signed 128-bit fixed-point number: it keeps the sign,
    and truncates to zero just the numbers below one. -/
structure ReadsFixedPoint : Prop where
  positive : ∀ raw : Int, -2 ^ 127 ≤ raw → raw < 2 ^ 127 →
    (F64.lt 0.0 (F64.ofInt raw / F64.ofInt (2 ^ 48) : F) = true ↔ 0 < raw)
  truncated : ∀ raw : Int, 0 < raw → raw < 2 ^ 127 →
    (F64.toU64 (F64.ofInt raw / F64.ofInt (2 ^ 48) : F) = 0 ↔ raw < 2 ^ 48)

/-- A share count is a position when it comes to a whole unit. -/
theorem counts_iff (hF : ReadsFixedPoint F) (data : List UInt8) (offset : Nat) :
    Counts F (sharesAt data offset) ↔ 2 ^ 48 ≤ sharesAt data offset := by
  have hlow : -2 ^ 127 ≤ sharesAt data offset := Int.le_bmod (by decide)
  have hhigh : sharesAt data offset < 2 ^ 127 := Int.bmod_lt (by decide)
  rw [Counts, hF.positive _ hlow hhigh]
  constructor
  · rintro ⟨hpos, hwhole⟩
    exact Int.not_lt.mp fun hlt => hwhole ((hF.truncated _ hpos hhigh).mpr hlt)
  · intro hwhole
    have hpos : 0 < sharesAt data offset := by omega
    exact ⟨hpos, fun hzero => Int.not_lt.mpr hwhole ((hF.truncated _ hpos hhigh).mp hzero)⟩

/-- No active balance slot of the account holds a whole unit of its token. -/
def NoWholeUnits (data : List UInt8) : Prop :=
  Marginfi.MARGINFI_ACCOUNT_MIN_SIZE ≤ data.length →
    SlotsFree (fun raw => 2 ^ 48 ≤ raw) data 16 72

/-- So it does for a number of slots. -/
theorem slotsFree_iff (hF : ReadsFixedPoint F) (data : List UInt8) (count offset : Nat) :
    SlotsFree (Counts F) data count offset ↔
      SlotsFree (fun raw => 2 ^ 48 ≤ raw) data count offset := by
  refine forall_congr' fun i => imp_congr_right fun _ => ?_
  refine imp_congr_right fun _ => imp_congr_right fun _ => ?_
  rw [counts_iff hF, counts_iff hF]

/-- **WHEN THE TOTALS ARE DOLLARS**, for every account: always for Kamino, and for Marginfi
    as long as no active slot holds a whole unit. -/
theorem sumsExactly_iff (hF : ReadsFixedPoint F) {adapter : LendingAdapter F}
    (h : adapter ∈ [KaminoAdapter F, MarginfiAdapter F]) (address : Pubkey) (data : List UInt8) :
    SumsExactly (decodeObligationDebug adapter.protocol address data)
        (adapter.decodeObligation address data) ↔
      (adapter.protocol = .marginfi → NoWholeUnits data) := by
  rcases List.mem_pair.mp h with rfl | rfl
  · have hkamino : ¬LendingProtocol.kamino = .marginfi := by decide
    exact iff_of_true (kamino_sumsExactly address data) fun hmarginfi => absurd hmarginfi hkamino
  · refine (marginfi_sumsExactly_iff address data).trans ?_
    rw [slotsFree_iff hF]
    exact ⟨fun hfree _ => hfree, fun hfree => hfree rfl⟩

end Totals

/-! ## Two Marginfi accounts -/

section Accounts

open MevExact ExactF64

/-- A number is truncated to zero below one. -/
theorem exact_truncated {x : ℝ} : F64.toU64 (fin x) = 0 ↔ x < 1 := by
  change UInt64.ofNat (min ⌊x⌋₊ (2 ^ 64 - 1)) = 0 ↔ x < 1
  rw [← Nat.floor_eq_zero, ← UInt64.toNat_inj,
    UInt64.toNat_ofNat_of_lt' (Nat.lt_of_le_of_lt (Nat.min_le_right _ _) (by decide))]
  change min ⌊x⌋₊ (2 ^ 64 - 1) = 0 ↔ ⌊x⌋₊ = 0
  omega

/-- The unit of the fixed-point numbers. -/
theorem unit_pos : (0 : ℝ) < ((2 ^ 48 : Int) : ℝ) := by norm_num

/-- A share count is divided without rounding. -/
theorem exact_quotient (raw : Int) :
    (F64.ofInt raw / F64.ofInt (2 ^ 48) : ExactF64) = fin (raw / ((2 ^ 48 : Int) : ℝ)) :=
  fin_div _ (ne_of_gt unit_pos)

/-- Exact reals read fixed-point numbers. -/
theorem exact_readsFixedPoint : ReadsFixedPoint ExactF64 := by
  refine ⟨fun raw _ _ => ?_, fun raw _ _ => ?_⟩
  · rw [exact_quotient, fin_zero, lt_fin, div_pos_iff_of_pos_right unit_pos, Int.cast_pos]
  · rw [exact_quotient, exact_truncated, div_lt_one unit_pos, Int.cast_lt]

/-- An account whose first two slots hold `first` and `second` parts of `2 ^ -48` units, of
    two banks. -/
def marginfiAccount (first second : Nat) : List UInt8 :=
  List.replicate 72 0 ++ (1 :: List.replicate 39 1) ++ toLeBytes 16 first ++ List.replicate 48 0 ++
    (1 :: List.replicate 39 2) ++ toLeBytes 16 second ++ List.replicate 68 0

/-- Less than a unit in each slot. -/
theorem dust_sumsExactly :
    SumsExactly
      (decodeObligationDebug (MarginfiAdapter ExactF64).protocol Pubkey.default
        (marginfiAccount 5 7))
      ((MarginfiAdapter ExactF64).decodeObligation Pubkey.default (marginfiAccount 5 7)) := by
  refine (sumsExactly_iff exact_readsFixedPoint ?_ Pubkey.default _).mpr fun _ _ => ?_
  · exact List.mem_pair.mpr (Or.inr rfl)
  · decide +kernel

/-- Whole share counts are whole numbers. -/
theorem exact_whole (k : Nat) :
    (F64.ofInt (k * 2 ^ 48) / F64.ofInt (2 ^ 48) : ExactF64) = fin (k : ℝ) := by
  rw [exact_quotient, Int.cast_mul, mul_div_assoc, div_self (ne_of_gt unit_pos), mul_one,
    Int.cast_natCast]

/-- Whole numbers that fit are kept by the conversion. -/
theorem exact_toU64 {k : Nat} (hk : k < 2 ^ 64) :
    F64.toU64 (fin (k : ℝ)) = UInt64.ofNat k := by
  change UInt64.ofNat (min ⌊(k : ℝ)⌋₊ (2 ^ 64 - 1)) = UInt64.ofNat k
  rw [Nat.floor_natCast, Nat.min_eq_left (by omega)]

/-- A slot with `k` whole units deposited and nothing borrowed. -/
theorem parse_wholeSlot {data : List UInt8} {count offset k : Nat}
    {deposits borrows : List LendingPosition} (hroom : offset + 104 ≤ data.length)
    (hactive : readU8 data offset = .ok 1) (hk : 0 < k) (hk' : k < 2 ^ 64)
    (hassets : readI128 data (offset + 40) = .ok (k * 2 ^ 48))
    (hliabilities : readI128 data (offset + 56) = .ok 0)
    (hrest : Marginfi.parseBalances ExactF64 data count (offset + 104) = .ok (deposits, borrows)) :
    ∃ d, Marginfi.parseBalances ExactF64 data (count + 1) offset = .ok (d :: deposits, borrows) ∧
      d.depositedAmount = UInt64.ofNat k ∧ d.marketValueUsd = 0 := by
  obtain ⟨bankPk, hbank⟩ : Returns (readPubkey data (offset + 1)) :=
    readPubkey_returns (by omega)
  have hassets' : Marginfi.readI80F48 ExactF64 data (offset + 40) = .ok (fin (k : ℝ)) := by
    rw [Marginfi.readI80F48, hassets, ← exact_whole]
    rfl
  have hliabilities' : Marginfi.readI80F48 ExactF64 data (offset + 56) = .ok (fin 0) := by
    have hzero : (F64.ofInt 0 / F64.ofInt (2 ^ 48) : ExactF64) = fin 0 := by
      rw [exact_quotient, Int.cast_zero, zero_div]
    rw [Marginfi.readI80F48, hliabilities, ← hzero]
    rfl
  have hdeposit : F64.lt (0.0 : ExactF64) (fin (k : ℝ)) = true := by
    rw [fin_zero, lt_fin]
    exact Nat.cast_pos.mpr hk
  have hborrow : ¬F64.lt (0.0 : ExactF64) (fin 0) = true := by
    rw [fin_zero, lt_fin]
    exact lt_irrefl 0
  rw [Marginfi.parseBalances, Marginfi.BALANCE_SIZE, if_neg (Nat.not_lt.mpr hroom), hactive,
    hbank, hassets', hliabilities', hrest]
  simp only [bind, Except.bind, if_neg (show ¬(1 : UInt8) = 0 by decide), if_pos hdeposit,
    if_neg hborrow]
  exact ⟨_, rfl, exact_toU64 hk', rfl⟩

/-- What the Marginfi decoder reads of such an account. -/
def ReadsSlots (data : List UInt8) (first second : Int) : Prop :=
  data.length = 300 ∧
    (readU8 data 72 = .ok 1 ∧ readI128 data 112 = .ok first ∧ readI128 data 128 = .ok 0) ∧
    (readU8 data 176 = .ok 1 ∧ readI128 data 216 = .ok second ∧ readI128 data 232 = .ok 0)

/-- The two slots of the sample account. -/
theorem twoTokens_reads :
    ReadsSlots (marginfiAccount (5 * 2 ^ 48) (7 * 2 ^ 48)) (5 * 2 ^ 48) (7 * 2 ^ 48) := by
  rw [ReadsSlots]
  decide +kernel

/-- **UNITS OF TWO TOKENS, ADDED UP AS DOLLARS**: five units of one bank and seven of another
    are reported as twelve dollars deposited, of positions without any. -/
theorem twoTokens_added :
    (∃ o, (MarginfiAdapter ExactF64).decodeObligation Pubkey.default
        (marginfiAccount (5 * 2 ^ 48) (7 * 2 ^ 48)) = .ok (some o) ∧
      o.totalDepositUsd = 12 ∧ exactSum (o.deposits.map (·.marketValueUsd)) = 0) ∧
      ¬∀ adapter ∈ [KaminoAdapter ExactF64, MarginfiAdapter ExactF64], ∀ address data,
        SumsExactly (decodeObligationDebug adapter.protocol address data)
          (adapter.decodeObligation address data) := by
  obtain ⟨hlen, ⟨hactive, hassets, hliabilities⟩, hactive', hassets', hliabilities'⟩ :=
    twoTokens_reads
  generalize hdata : marginfiAccount (5 * 2 ^ 48) (7 * 2 ^ 48) = data at *
  have hend : Marginfi.parseBalances ExactF64 data 14 280 = .ok ([], []) := by
    rw [Marginfi.parseBalances, if_pos (by rw [hlen]; decide)]
  obtain ⟨d', hparse, hamount', hdollars'⟩ := parse_wholeSlot (k := 7) (by omega) hactive'
    (by decide) (by decide) hassets' hliabilities' hend
  obtain ⟨d, hparse, hamount, hdollars⟩ := parse_wholeSlot (k := 5) (by omega) hactive
    (by decide) (by decide) hassets hliabilities hparse
  obtain ⟨o, ho⟩ := marginfi_decodes (F := ExactF64) Pubkey.default
    (show Marginfi.MARGINFI_ACCOUNT_MIN_SIZE ≤ data.length by rw [hlen]; decide)
  obtain ⟨htotals, hparsed⟩ := marginfi_positions Pubkey.default data o ho
  obtain ⟨hdeposits, -⟩ := Prod.mk.inj (Except.ok.inj (hparse.symm.trans hparsed))
  have htotal : o.totalDepositUsd = 12 := by
    rw [htotals.deposits, ← hdeposits, List.map_cons, List.map_cons, hamount, hamount']
    decide
  have hmarket : exactSum (o.deposits.map (·.marketValueUsd)) = 0 := by
    rw [← hdeposits, List.map_cons, List.map_cons, hdollars, hdollars']
    decide
  rw [show Marginfi.decodeObligation = (MarginfiAdapter ExactF64).decodeObligation from rfl] at ho
  refine ⟨⟨o, ho, htotal, hmarket⟩, fun hall => ?_⟩
  obtain ⟨-, hsum, -⟩ := hall _ (List.mem_pair.mpr (Or.inr rfl)) Pubkey.default data o ho
  rw [htotal, hmarket] at hsum
  exact absurd hsum (by decide)

end Accounts

end MevObligationTotals
