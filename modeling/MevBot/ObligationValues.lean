import MevBot.AdapterFacts
import MevBot.ExactReal
import MevBot.LendingAdapters

/-! # What an obligation is worth

    Kamino and Save keep market values as 128-bit fractions with twenty
    fraction bits, and the adapters bring them down to 64 bits: Kamino cuts a
    value off at `2 ^ 64` and then divides, Save divides first, so its cut is at
    `2 ^ 84`.  What is cut off is worth `2 ^ 44`, or `2 ^ 64`, dollars a unit of
    the high part.  An obligation reported as liquidatable owes more than it
    holds exactly when what the deposits lose to the cut is covered by what the
    borrows lose and the shortfall reported (`noFalseLiquidation_iff`). -/

namespace MevObligationValues

open MevMachine MevTypes MevLending MevAdapterFacts MevExact

/-! ## Values on the account -/

/-- The little-endian number of `n` bytes at `offset`. -/
def numberAt (data : List UInt8) (offset n : Nat) : Nat :=
  fromLeBytes ((data.drop offset).take n)

theorem slice_ok {data bs : List UInt8} {offset n : Nat} (h : slice data offset n = .ok bs) :
    bs = (data.drop offset).take n := by
  rw [slice] at h
  split at h
  · exact (Except.ok.inj h).symm
  · cases h

theorem readU128_ok {data : List UInt8} {offset v : Nat} (h : readU128 data offset = .ok v) :
    v = numberAt data offset 16 := by
  rw [readU128] at h
  obtain ⟨bs, hslice, h⟩ := bind_ok h
  obtain rfl := slice_ok hslice
  exact (Except.ok.inj h).symm

/-- The values of up to `count` records of `size` bytes from `offset` on, each
    `field` bytes into its record; a record cut off by the end of the data ends them. -/
def marketValues (size field : Nat) (data : List UInt8) : Nat → Nat → List Nat
  | 0, _ => []
  | count + 1, offset =>
      if offset + size > data.length then []
      else numberAt data (offset + field) 16 :: marketValues size field data count (offset + size)

theorem marketValues_length_le (size field : Nat) (data : List UInt8) (count offset : Nat) :
    (marketValues size field data count offset).length ≤ count := by
  induction count generalizing offset with
  | zero => exact Nat.le_refl 0
  | succ count ih =>
      rw [marketValues]
      split
      · exact Nat.zero_le _
      · exact Nat.succ_le_succ (ih _)

/-- The deposits parsed carry the values of the collateral records, and end behind them. -/
theorem parseCollateral_values {usd : Nat → UInt64} {data : List UInt8} {count offset : Nat}
    {deposits : List LendingPosition} {endOffset : Nat}
    (h : parseCollateral usd data count offset = .ok (deposits, endOffset)) :
    deposits.map (·.marketValueUsd) = (marketValues 56 40 data count offset).map usd ∧
      endOffset = offset + 56 * (marketValues 56 40 data count offset).length := by
  induction count generalizing offset deposits with
  | zero =>
      obtain ⟨rfl, rfl⟩ := Prod.mk.inj (Except.ok.inj h)
      exact ⟨rfl, rfl⟩
  | succ count ih =>
      rw [parseCollateral] at h
      rw [marketValues]
      split at h
      · rename_i hshort
        obtain ⟨rfl, rfl⟩ := Prod.mk.inj (Except.ok.inj h)
        rw [if_pos hshort]
        exact ⟨rfl, rfl⟩
      · rename_i hroom
        obtain ⟨reserve, -, h⟩ := bind_ok h
        obtain ⟨amount, -, h⟩ := bind_ok h
        obtain ⟨marketValue, hvalue, h⟩ := bind_ok h
        obtain ⟨⟨rest, restEnd⟩, hrest, h⟩ := bind_ok h
        obtain ⟨rfl, rfl⟩ := Prod.mk.inj (Except.ok.inj h)
        obtain ⟨hvalues, hend⟩ := ih hrest
        obtain rfl := readU128_ok hvalue
        rw [if_neg hroom, List.map_cons, List.map_cons, hvalues, List.length_cons, hend]
        exact ⟨rfl, by omega⟩

/-- The borrows parsed carry the values of the liquidity records. -/
theorem parseLiquidity_values {usd : Nat → UInt64} {data : List UInt8} {count offset : Nat}
    {borrows : List LendingPosition} (h : parseLiquidity usd data count offset = .ok borrows) :
    borrows.map (·.marketValueUsd) = (marketValues 80 64 data count offset).map usd := by
  induction count generalizing offset borrows with
  | zero =>
      obtain rfl := Except.ok.inj h
      rfl
  | succ count ih =>
      rw [parseLiquidity] at h
      rw [marketValues]
      split at h
      · rename_i hshort
        obtain rfl := Except.ok.inj h
        rw [if_pos hshort]
        rfl
      · rename_i hroom
        obtain ⟨reserve, -, h⟩ := bind_ok h
        obtain ⟨borrowedSf, -, h⟩ := bind_ok h
        obtain ⟨marketValue, hvalue, h⟩ := bind_ok h
        obtain ⟨rest, hrest, h⟩ := bind_ok h
        obtain rfl := Except.ok.inj h
        obtain rfl := readU128_ok hvalue
        rw [if_neg hroom, List.map_cons, List.map_cons, ih hrest]

/-! ## The two protocols -/

/-- The protocols whose accounts carry scaled fractions. -/
inductive ScaledProtocol where
  | kamino
  | save
deriving DecidableEq, Repr

variable {F : Type} [F64 F]

/-- `decode_obligation` of the protocol's adapter. -/
def ScaledProtocol.decodeObligation :
    ScaledProtocol → Pubkey → List UInt8 → Rust (Option (ObligationState F))
  | .kamino => Kamino.decodeObligation
  | .save => Save.decodeObligation

/-- How the protocol's adapter brings a value down to 64 bits. -/
def ScaledProtocol.usd : ScaledProtocol → Nat → UInt64
  | .kamino => Kamino.usd
  | .save => Save.usd

/-- The 128-bit values an obligation is judged by. -/
structure RawValues where
  deposits : List Nat
  borrows : List Nat
deriving DecidableEq, Repr

/-- The market values of a Kamino account: those of its deposit records, and of the
    borrow records behind them. -/
def kaminoValues (data : List UInt8) : RawValues :=
  let deposits := marketValues 56 40 data (numberAt data Kamino.DEPOSITS_LEN_OFFSET 4)
    (Kamino.DEPOSITS_LEN_OFFSET + 4)
  let offset := Kamino.DEPOSITS_LEN_OFFSET + 4 + 56 * deposits.length
  ⟨deposits, marketValues 80 64 data (min (numberAt data offset 4) 10) (offset + 4)⟩

/-- The values of a Save account: the two of its header. -/
def saveValues (data : List UInt8) : RawValues :=
  ⟨[numberAt data Save.DEPOSITED_VALUE_OFFSET 16], [numberAt data Save.BORROWED_VALUE_OFFSET 16]⟩

/-- The values of an account of the protocol. -/
def ScaledProtocol.values : ScaledProtocol → List UInt8 → RawValues
  | .kamino => kaminoValues
  | .save => saveValues

/-- Where the protocol's adapter cuts a value off. -/
def ScaledProtocol.cut : ScaledProtocol → Nat
  | .kamino => 2 ^ 64
  | .save => 2 ^ 84

/-- Exact dollars: the whole parts of the fractions, added up. -/
def exactUsd (values : List Nat) : Nat := (values.map (· / 2 ^ 20)).sum

/-- The dollars below the cut, which the adapter keeps. -/
def keptUsd (p : ScaledProtocol) (values : List Nat) : Nat :=
  (values.map fun v => v % p.cut / 2 ^ 20).sum

/-- The dollars above the cut, which it loses. -/
def lostUsd (p : ScaledProtocol) (values : List Nat) : Nat :=
  (values.map fun v => v / p.cut * (p.cut / 2 ^ 20)).sum

theorem exactUsd_eq (p : ScaledProtocol) (values : List Nat) :
    exactUsd values = keptUsd p values + lostUsd p values := by
  induction values with
  | nil => rfl
  | cons v values ih =>
      rw [exactUsd, keptUsd, lostUsd] at *
      simp only [List.map_cons, List.sum_cons]
      have hsplit : v / 2 ^ 20 = v % p.cut / 2 ^ 20 + v / p.cut * (p.cut / 2 ^ 20) := by
        cases p with
        | kamino =>
            rw [ScaledProtocol.cut]
            omega
        | save =>
            rw [ScaledProtocol.cut]
            omega
      omega

theorem usd_toNat (p : ScaledProtocol) (v : Nat) : (p.usd v).toNat = v % p.cut / 2 ^ 20 := by
  cases p with
  | kamino =>
      rw [ScaledProtocol.usd, Kamino.usd, UInt64.toNat_div, UInt64.toNat_ofNat']
      rfl
  | save =>
      rw [ScaledProtocol.usd, Save.usd, UInt64.toNat_ofNat', Nat.shiftRight_eq_div_pow,
        ScaledProtocol.cut]
      omega

/-! ## The totals -/

theorem fromLeBytes_lt (bs : List UInt8) : fromLeBytes bs < 256 ^ bs.length := by
  induction bs with
  | nil => exact Nat.one_pos
  | cons b bs ih =>
      have hb := b.toNat_lt
      rw [fromLeBytes, List.length_cons, Nat.pow_succ']
      omega

theorem readU32_ok {data : List UInt8} {offset : Nat} {x : UInt32}
    (h : readU32 data offset = .ok x) : x.toNat = numberAt data offset 4 := by
  rw [readU32] at h
  obtain ⟨bs, hslice, h⟩ := bind_ok h
  obtain rfl := Except.ok.inj h
  obtain rfl := slice_ok hslice
  have hlt := fromLeBytes_lt ((data.drop offset).take 4)
  have hlen : 256 ^ ((data.drop offset).take 4).length ≤ 256 ^ 4 :=
    Nat.pow_le_pow_right (by decide) (List.length_take_le _ _)
  exact UInt32.toNat_ofNat_of_lt' (Nat.lt_of_lt_of_le hlt hlen)

/-- A sum of words, wrapping. -/
theorem foldl_add_toNat (xs : List UInt64) (acc : UInt64) :
    (xs.foldl (· + ·) acc).toNat = (acc.toNat + (xs.map UInt64.toNat).sum) % 2 ^ 64 := by
  induction xs generalizing acc with
  | nil =>
      rw [List.foldl_nil, List.map_nil, List.sum_nil, Nat.add_zero, Nat.mod_eq_of_lt acc.toNat_lt]
  | cons x xs ih =>
      rw [List.foldl_cons, ih, List.map_cons, List.sum_cons, UInt64.toNat_add, Nat.mod_add_mod,
        Nat.add_assoc]

/-- What Kamino keeps of a value is below `2 ^ 44`. -/
theorem keptUsd_kamino_le (values : List Nat) :
    keptUsd .kamino values ≤ values.length * 2 ^ 44 := by
  induction values with
  | nil => exact Nat.zero_le _
  | cons v values ih =>
      rw [keptUsd] at ih ⊢
      rw [List.map_cons, List.sum_cons, List.length_cons, Nat.succ_mul]
      have hv : v % ScaledProtocol.cut .kamino / 2 ^ 20 < 2 ^ 44 := by
        rw [ScaledProtocol.cut]
        omega
      omega

/-- The dollars of up to ten Kamino positions do not wrap. -/
theorem kamino_total {positions : List LendingPosition} {values : List Nat}
    (hvalues : positions.map LendingPosition.marketValueUsd = values.map Kamino.usd)
    (hlen : values.length ≤ 10) :
    ((positions.map LendingPosition.marketValueUsd).foldl (· + ·) 0).toNat =
      keptUsd .kamino values := by
  have hsum : ((values.map Kamino.usd).map UInt64.toNat).sum = keptUsd .kamino values := by
    rw [keptUsd, List.map_map]
    exact congrArg List.sum (List.map_congr_left fun v _ => usd_toNat .kamino v)
  have hbound := keptUsd_kamino_le values
  rw [hvalues, foldl_add_toNat, hsum]
  change (0 + keptUsd .kamino values) % 2 ^ 64 = keptUsd .kamino values
  rw [Nat.zero_add, Nat.mod_eq_of_lt (by omega)]

/-- What the decoded record says about the account. -/
structure Reports (p : ScaledProtocol) (values : RawValues) (o : ObligationState F) : Prop where
  deposit : o.totalDepositUsd.toNat = keptUsd p values.deposits
  borrow : o.totalBorrowUsd.toNat = keptUsd p values.borrows
  health : o.healthFactor = healthFactor o.totalDepositUsd o.totalBorrowUsd

/-- Data that end before the first record hold no values. -/
theorem marketValues_short {size field : Nat} {data : List UInt8} {offset : Nat}
    (h : data.length < offset + size) (count : Nat) :
    marketValues size field data count offset = [] := by
  cases count with
  | zero => rfl
  | succ count => rw [marketValues, if_pos h]

theorem kamino_reports (address : Pubkey) (data : List UInt8) :
    Yields (Reports .kamino (kaminoValues data))
      (Kamino.decodeObligation address data : Rust (Option (ObligationState F))) := by
  rw [Kamino.decodeObligation_eq]
  refine Yields.ite Yields.none ?_
  refine Yields.bind fun owner => Yields.read fun depositsLen hlen => ?_
  split
  · exact Yields.none
  · rename_i hten
    refine Yields.read fun parsed hdeposits => ?_
    obtain ⟨deposits, offset⟩ := parsed
    obtain ⟨hvalues, hoffset⟩ := parseCollateral_values hdeposits
    rw [readU32_ok hlen] at hvalues hoffset
    have hdepositsTen : (kaminoValues data).deposits.length ≤ 10 := by
      refine (marketValues_length_le _ _ _ _ _).trans ?_
      rw [← readU32_ok hlen]
      exact UInt32.le_iff_toNat_le.mp (UInt32.not_lt.mp hten)
    have hborrowsTen : (kaminoValues data).borrows.length ≤ 10 :=
      (marketValues_length_le _ _ _ _ _).trans (Nat.min_le_right _ _)
    have hbehind : (kaminoValues data).borrows =
        marketValues 80 64 data (min (numberAt data offset 4) 10) (offset + 4) := by
      rw [hoffset]
      rfl
    dsimp only
    split
    · refine Yields.read fun borrowsLen hborrowsLen => Yields.read fun borrows hborrows => ?_
      refine Yields.some ⟨kamino_total hvalues hdepositsTen, ?_, rfl⟩
      refine kamino_total ?_ hborrowsTen
      rw [parseLiquidity_values hborrows, hbehind, readU32_ok hborrowsLen]
    · rename_i hshort
      refine Yields.read fun borrowsLen hborrowsLen => Yields.read fun borrows hborrows => ?_
      refine Yields.some ⟨kamino_total hvalues hdepositsTen, ?_, rfl⟩
      refine kamino_total ?_ hborrowsTen
      -- no room for the count, so none for a record behind it
      rw [parseLiquidity_values hborrows, hbehind, marketValues_short (by omega),
        marketValues_short (by omega)]

/-- The positions of a Save account do not enter its totals. -/
theorem save_reports (address : Pubkey) (data : List UInt8) :
    Yields (Reports .save (saveValues data))
      (Save.decodeObligation address data : Rust (Option (ObligationState F))) := by
  refine Yields.ite Yields.none ?_
  refine Yields.bind fun version => Yields.ite Yields.none ?_
  refine Yields.bind fun owner => ?_
  refine Yields.read fun depositedValue hdeposited => ?_
  refine Yields.read fun borrowedValue hborrowed => ?_
  obtain rfl := readU128_ok hdeposited
  obtain rfl := readU128_ok hborrowed
  have hdeposit := (usd_toNat .save (numberAt data Save.DEPOSITED_VALUE_OFFSET 16)).trans
    (Nat.add_zero _).symm
  have hborrow := (usd_toNat .save (numberAt data Save.BORROWED_VALUE_OFFSET 16)).trans
    (Nat.add_zero _).symm
  dsimp only
  split
  · refine Yields.bind fun depositsLen => Yields.bind fun parsed => ?_
    refine Yields.ite (Yields.bind fun borrowsLen => Yields.bind fun borrows => ?_) ?_
    · exact Yields.bind fun _ => Yields.some ⟨hdeposit, hborrow, rfl⟩
    · exact Yields.bind fun _ => Yields.bind fun _ => Yields.some ⟨hdeposit, hborrow, rfl⟩
  · exact Yields.bind fun _ => Yields.some ⟨hdeposit, hborrow, rfl⟩

/-- **WHAT THE TWO ADAPTERS REPORT**: the dollars kept of deposits and of borrows, and
    their quotient. -/
theorem decode_reports {p : ScaledProtocol} {address : Pubkey} {data : List UInt8}
    {o : ObligationState F} (h : p.decodeObligation address data = .ok (some o)) :
    Reports p (p.values data) o := by
  cases p with
  | kamino => exact kamino_reports address data o h
  | save => exact save_reports address data o h

/-! ## False liquidations -/

/-- With the division taken exactly, an obligation is liquidatable when the deposits
    reported are below the borrows reported. -/
theorem isLiquidatable_iff {o : ObligationState ExactF64}
    (hhealth : o.healthFactor = healthFactor o.totalDepositUsd o.totalBorrowUsd) :
    o.isLiquidatable = true ↔ o.totalDepositUsd.toNat < o.totalBorrowUsd.toNat := by
  rw [ObligationState.isLiquidatable, hhealth, healthFactor, Bool.and_eq_true, decide_eq_true_iff]
  constructor
  · rintro ⟨hlt, hpos⟩
    have hborrow : (0 : ℝ) < o.totalBorrowUsd.toNat :=
      Nat.cast_pos.mpr (UInt64.lt_iff_toNat_lt.mp hpos)
    rw [if_pos hpos, ExactF64.ofNat_eq, ExactF64.ofNat_eq, ExactF64.fin_div _ (ne_of_gt hborrow),
      ExactF64.fin_one, ExactF64.lt_fin, div_lt_one hborrow] at hlt
    exact_mod_cast hlt
  · intro hlt
    have hpos : o.totalBorrowUsd > 0 := UInt64.lt_iff_toNat_lt.mpr (Nat.zero_lt_of_lt hlt)
    have hborrow : (0 : ℝ) < o.totalBorrowUsd.toNat := Nat.cast_pos.mpr (Nat.zero_lt_of_lt hlt)
    rw [if_pos hpos, ExactF64.ofNat_eq, ExactF64.ofNat_eq, ExactF64.fin_div _ (ne_of_gt hborrow),
      ExactF64.fin_one, ExactF64.lt_fin, div_lt_one hborrow]
    exact ⟨by exact_mod_cast hlt, hpos⟩

/-- Reported as liquidatable, the obligation owes more than it holds, exactly. -/
def NoFalseLiquidation (values : RawValues) (o : ObligationState ExactF64) : Prop :=
  o.isLiquidatable = true → exactUsd values.deposits < exactUsd values.borrows

/-- What the deposits lose to the cut is below what the borrows lose and the shortfall of
    the parts kept, where there is one. -/
def LossCovered (p : ScaledProtocol) (values : RawValues) : Prop :=
  keptUsd p values.deposits < keptUsd p values.borrows →
    lostUsd p values.deposits <
      lostUsd p values.borrows + (keptUsd p values.borrows - keptUsd p values.deposits)

instance (p : ScaledProtocol) (values : RawValues) : Decidable (LossCovered p values) :=
  inferInstanceAs (Decidable (_ → _))

/-- Deposits below the cut lose nothing. -/
theorem lossCovered_of_small {p : ScaledProtocol} {values : RawValues}
    (h : ∀ v ∈ values.deposits, v < p.cut) : LossCovered p values := by
  have hzero : lostUsd p values.deposits = 0 := by
    refine List.sum_eq_zero ?_
    intro x hx
    obtain ⟨v, hv, rfl⟩ := List.mem_map.mp hx
    rw [Nat.div_eq_of_lt (h v hv), Nat.zero_mul]
  intro hshort
  omega

/-- **WHEN NO OBLIGATION IS FALSELY LIQUIDATED**, for all account data the Kamino or the
    Save adapter decodes: just when the borrows' loss and the shortfall cover what the
    deposits lose, and always when no deposit reaches the cut. -/
theorem noFalseLiquidation_iff {p : ScaledProtocol} {address : Pubkey} {data : List UInt8}
    {o : ObligationState ExactF64} (h : p.decodeObligation address data = .ok (some o)) :
    (NoFalseLiquidation (p.values data) o ↔ LossCovered p (p.values data)) ∧
      ((∀ v ∈ (p.values data).deposits, v < p.cut) → NoFalseLiquidation (p.values data) o) := by
  have hiff : NoFalseLiquidation (p.values data) o ↔ LossCovered p (p.values data) := by
    obtain ⟨hdeposit, hborrow, hhealth⟩ := decode_reports h
    rw [NoFalseLiquidation, isLiquidatable_iff hhealth, hdeposit, hborrow, LossCovered,
      exactUsd_eq p, exactUsd_eq p]
    refine imp_congr_right fun hshort => ?_
    omega
  exact ⟨hiff, fun hsmall => hiff.mpr (lossCovered_of_small hsmall)⟩

/-! ## Accounts -/

/-- A Kamino account with one deposit and one borrow of the given values. -/
def kaminoAccount (deposit borrow : Nat) : List UInt8 :=
  List.replicate 96 0 ++ toLeBytes 4 1 ++ List.replicate 40 0 ++ toLeBytes 16 deposit ++
    toLeBytes 4 1 ++ List.replicate 64 0 ++ toLeBytes 16 borrow ++ List.replicate 160 0

/-- What `decode_obligation` reads of such an account. -/
def ReadsPair (data : List UInt8) (deposit borrow : Nat) : Prop :=
  data.length = 400 ∧ readPubkey data 64 = .ok Pubkey.default ∧
    readU32 data 96 = .ok 1 ∧ readPubkey data 100 = .ok Pubkey.default ∧
    readU64 data 132 = .ok 0 ∧ readU128 data 140 = .ok deposit ∧
    readU32 data 156 = .ok 1 ∧ readPubkey data 160 = .ok Pubkey.default ∧
    readU128 data 208 = .ok 0 ∧ readU128 data 224 = .ok borrow

theorem ReadsPair.decodes {data : List UInt8} {deposit borrow : Nat}
    (h : ReadsPair data deposit borrow) :
    ∃ o : ObligationState F, Kamino.decodeObligation Pubkey.default data = .ok (some o) := by
  obtain ⟨hlen, howner, hdeposits, hreserve, hamount, hvalue, hborrows, hreserve', hborrowed,
    hvalue'⟩ := h
  simp [Kamino.decodeObligation_eq, bind, Except.bind, pure, Except.pure,
    Kamino.OBLIGATION_MIN_SIZE, Kamino.OWNER_OFFSET, Kamino.DEPOSITS_LEN_OFFSET,
    parseCollateral, parseLiquidity, hlen, howner, hdeposits, hreserve, hamount, hvalue,
    hborrows, hreserve', hborrowed, hvalue']

/-- A deposit of one dollar against a borrow of two. -/
def poorAccount : List UInt8 := kaminoAccount (2 ^ 20) (2 ^ 21)

/-- A deposit of `2 ^ 44` dollars against a borrow of one. -/
def richAccount : List UInt8 := kaminoAccount (2 ^ 64) (2 ^ 20)

theorem poorAccount_reads : ReadsPair poorAccount (2 ^ 20) (2 ^ 21) := by
  rw [ReadsPair]
  decide +kernel

theorem richAccount_reads : ReadsPair richAccount (2 ^ 64) (2 ^ 20) := by
  rw [ReadsPair]
  decide +kernel

theorem poorAccount_values : kaminoValues poorAccount = ⟨[2 ^ 20], [2 ^ 21]⟩ := by
  decide +kernel

theorem richAccount_values : kaminoValues richAccount = ⟨[2 ^ 64], [2 ^ 20]⟩ := by
  decide +kernel

/-- The poor account is liquidatable, and rightly so. -/
theorem poorAccount_rightly :
    ∃ o : ObligationState ExactF64,
      Kamino.decodeObligation Pubkey.default poorAccount = .ok (some o) ∧
        NoFalseLiquidation (kaminoValues poorAccount) o := by
  obtain ⟨o, ho⟩ := poorAccount_reads.decodes (F := ExactF64)
  refine ⟨o, ho, ?_⟩
  have hdecode : ScaledProtocol.kamino.decodeObligation Pubkey.default poorAccount =
      .ok (some o) := ho
  refine (noFalseLiquidation_iff hdecode).1.mpr ?_
  show LossCovered .kamino (kaminoValues poorAccount)
  rw [poorAccount_values]
  decide

/-- **THE RICH ACCOUNT IS FALSELY LIQUIDATABLE**: its deposit is cut off to nothing. -/
theorem richAccount_falsely :
    ∃ o : ObligationState ExactF64,
      Kamino.decodeObligation Pubkey.default richAccount = .ok (some o) ∧
        o.isLiquidatable = true ∧
        exactUsd (kaminoValues richAccount).deposits = 2 ^ 44 ∧
        exactUsd (kaminoValues richAccount).borrows = 1 ∧
        ¬NoFalseLiquidation (kaminoValues richAccount) o := by
  obtain ⟨o, ho⟩ := richAccount_reads.decodes (F := ExactF64)
  obtain ⟨hdeposit, hborrow, hhealth⟩ := kamino_reports _ _ o ho
  rw [richAccount_values] at hdeposit hborrow ⊢
  have hliquidatable : o.isLiquidatable = true := by
    rw [isLiquidatable_iff hhealth, hdeposit, hborrow]
    decide
  refine ⟨o, ho, hliquidatable, by decide, by decide, ?_⟩
  intro hno
  exact absurd (hno hliquidatable) (by decide)

end MevObligationValues
