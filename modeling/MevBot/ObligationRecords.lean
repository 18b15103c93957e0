import MevBot.DecoderOverflow
import MevBot.Library.FixedRecords
import MevBot.ObligationValues

/-! # The records of an obligation

    A Kamino or Save account lists its deposits and then its borrows, each list
    behind its own count.  Kamino turns an account with more than ten deposits
    away, so where it reads the borrow count all deposits lie before it, or so
    little is left that no borrow fits.  It asks for room for every borrow declared
    before it cuts their number down to ten, so an account can bring it down that it
    would otherwise decode (`kamino_records`).  Save steps over ten
    deposits at most and reads the borrow count there, whatever was declared: in
    an account with eleven the count is taken from the eleventh deposit
    (`alignedBorrows_iff`). -/

namespace MevObligationRecords

open MevMachine MevTypes MevLending MevAdapterFacts MevDecoderOverflow MevObligationValues
open FixedRecords

variable {F : Type} [F64 F]

/-! ## One record -/

/-- Thirty-two bytes as a key. -/
def pubkeyAt (data : List UInt8) (offset : Nat) : Pubkey :=
  ⟨Vector.ofFn fun i => ((data.drop offset).take 32).getD i.val 0⟩

/-- The position of the collateral record at `offset`. -/
def collateralAt (usd : Nat → UInt64) (data : List UInt8) (offset : Nat) : LendingPosition :=
  { reserve := pubkeyAt data offset, mint := Pubkey.default,
    depositedAmount := wordAt data (offset + 32), borrowedAmount := 0,
    marketValueUsd := usd (numberAt data (offset + 40) 16) }

/-- The position of the liquidity record at `offset`. -/
def liquidityAt (usd : Nat → UInt64) (data : List UInt8) (offset : Nat) : LendingPosition :=
  { reserve := pubkeyAt data offset, mint := Pubkey.default, depositedAmount := 0,
    borrowedAmount := UInt64.ofNat (numberAt data (offset + 48) 16 >>> 20),
    marketValueUsd := usd (numberAt data (offset + 64) 16) }

section Readers

variable {data : List UInt8} {offset : Nat}

/-- A key that fits is the bytes there. -/
theorem readPubkey_in_range (h : offset + 32 ≤ data.length) :
    readPubkey data offset = .ok (pubkeyAt data offset) := by
  rw [readPubkey, slice_in_range h]
  rfl

/-- A wide number that fits is that of the bytes there. -/
theorem readU128_in_range (h : offset + 16 ≤ data.length) :
    readU128 data offset = .ok (numberAt data offset 16) := by
  rw [readU128, slice_in_range h]
  rfl

/-- A count that fits is that of the bytes there. -/
theorem readU32_in_range (h : offset + 4 ≤ data.length) :
    readU32 data offset = .ok (UInt32.ofNat (numberAt data offset 4)) := by
  rw [readU32, slice_in_range h]
  rfl

/-- A count that fits can be read. -/
theorem readU32_returns (h : offset + 4 ≤ data.length) : Returns (readU32 data offset) :=
  ⟨_, readU32_in_range h⟩

end Readers

/-! ## The two loops -/

section Loops

variable (usd : Nat → UInt64) (data : List UInt8)

/-- The deposits are those of the records found, and end behind them. -/
theorem parseCollateral_scan (count offset : Nat) :
    parseCollateral usd data count offset =
      .ok ((scan 56 data.length count offset).map (collateralAt usd data),
        offset + 56 * (scan 56 data.length count offset).length) := by
  induction count generalizing offset with
  | zero => rfl
  | succ count ih =>
      rw [parseCollateral, scan]
      split
      · rfl
      · rename_i hroom
        rw [readPubkey_in_range (by omega), readU64_in_range (by omega),
          readU128_in_range (by omega)]
        simp only [bind, Except.bind, ih]
        rw [List.map_cons, List.length_cons, Nat.mul_succ, Nat.add_comm (56 * _), ← Nat.add_assoc]
        rfl

/-- The borrows are those of the records found. -/
theorem parseLiquidity_scan (count offset : Nat) :
    parseLiquidity usd data count offset =
      .ok ((scan 80 data.length count offset).map (liquidityAt usd data)) := by
  induction count generalizing offset with
  | zero => rfl
  | succ count ih =>
      rw [parseLiquidity, scan]
      split
      · rfl
      · rename_i hroom
        rw [readPubkey_in_range (by omega), readU128_in_range (by omega),
          readU128_in_range (by omega)]
        simp only [bind, Except.bind, ih]
        rfl

/-- The collateral loop stops before a record that does not fit. -/
theorem parseCollateral_returns (count offset : Nat) :
    Returns (parseCollateral usd data count offset) :=
  ⟨_, parseCollateral_scan usd data count offset⟩

/-- The liquidity loop stops so as well. -/
theorem parseLiquidity_returns (count offset : Nat) :
    Returns (parseLiquidity usd data count offset) := ⟨_, parseLiquidity_scan usd data count offset⟩

end Loops

/-! ## Kamino -/

/-- What the account declares and what is decoded of it: the complete deposit
    records, and behind all of them the complete borrow records, ten at most. -/
structure KaminoRecords (data : List UInt8) (o : ObligationState F) : Prop where
  deposits : o.deposits =
    (complete 56 data.length (numberAt data 96 4) 100).map (collateralAt Kamino.usd data)
  borrows : 100 + 56 * numberAt data 96 4 + 4 ≤ data.length →
    o.borrows = (complete 80 data.length (min (numberAt data (100 + 56 * numberAt data 96 4) 4) 10)
      (100 + 56 * numberAt data 96 4 + 4)).map (liquidityAt Kamino.usd data)
  cutOff : data.length < 100 + 56 * numberAt data 96 4 + 4 →
    o.borrows = [] ∧ o.isLiquidatable = false

/-- `m` does what `m'` does, or the allocator has refused it the room for some `u32` count. -/
def SameUnlessRefused {α : Type} (allocates : Nat → Bool) (m m' : Rust α) : Prop :=
  m = m' ∨ m = .error .allocationFailed ∧ ∃ n < 2 ^ 32, allocates n = false

section SameUnlessRefused

variable {α β : Type} {allocates : Nat → Bool}

/-- No room is asked for. -/
theorem SameUnlessRefused.refl (m : Rust α) : SameUnlessRefused allocates m m := Or.inl rfl

/-- Both branches of a test. -/
theorem SameUnlessRefused.ite {c : Prop} [Decidable c] {m₁ m₁' m₂ m₂' : Rust α}
    (h₁ : SameUnlessRefused allocates m₁ m₁') (h₂ : SameUnlessRefused allocates m₂ m₂') :
    SameUnlessRefused allocates (if c then m₁ else m₂) (if c then m₁' else m₂') := by
  split
  · exact h₁
  · exact h₂

/-- One step after the other: the first refusal ends both. -/
theorem SameUnlessRefused.bind {m m' : Rust α} {f f' : α → Rust β}
    (h : SameUnlessRefused allocates m m') (hf : ∀ a, SameUnlessRefused allocates (f a) (f' a)) :
    SameUnlessRefused allocates (m >>= f) (m' >>= f') := by
  rcases h with rfl | ⟨rfl, hrefused⟩
  · cases m with
    | error e => exact .refl _
    | ok a => exact hf a
  · exact Or.inr ⟨rfl, hrefused⟩

/-- The only step that an allocator decides. -/
theorem withCapacity_same (n : UInt32) :
    SameUnlessRefused allocates (withCapacity allocates n.toNat)
      (withCapacity (fun _ => true) n.toNat) := by
  cases hn : allocates n.toNat with
  | true => exact Or.inl (if_pos hn)
  | false =>
      refine Or.inr ⟨if_neg ?_, n.toNat, n.toNat_lt, hn⟩
      rw [hn]
      decide

end SameUnlessRefused

/-- The room the adapter asks for is all that an allocator decides. -/
theorem kamino_same (allocates : Nat → Bool) (address : Pubkey) (data : List UInt8) :
    SameUnlessRefused allocates
      (Kamino.decodeObligationIn allocates address data : Rust (Option (ObligationState F)))
      (Kamino.decodeObligation address data) := by
  refine .ite (.refl _) (.bind (.refl _) fun owner => .bind (.refl _) fun depositsLen => ?_)
  refine .ite (.refl _) (.bind (withCapacity_same _) fun _ => .bind (.refl _) fun parsed => ?_)
  obtain ⟨deposits, offset⟩ := parsed
  dsimp only
  split
  · exact .bind (.refl _) fun borrowsLen => .bind (withCapacity_same _) fun _ => .refl _
  · exact .bind (.refl _) fun borrowsLen => .bind (withCapacity_same _) fun _ => .refl _

/-- Where all room is granted the adapter returns, whatever the data. -/
theorem kamino_returns (address : Pubkey) (data : List UInt8) :
    Returns (Kamino.decodeObligation address data : Rust (Option (ObligationState F))) := by
  rw [Kamino.decodeObligation_eq]
  refine Returns.guard (Returns.pure _) fun hshort => ?_
  have hlen : Kamino.OBLIGATION_MIN_SIZE ≤ data.length := Nat.not_lt.mp hshort
  refine Returns.bind (readPubkey_returns (Nat.le_trans (by decide) hlen)) fun owner => ?_
  refine Returns.bind (readU32_returns (Nat.le_trans (by decide) hlen)) fun depositsLen => ?_
  refine Returns.ite (Returns.pure _) ?_
  refine Returns.bind (parseCollateral_returns _ _ _ _) fun parsed => ?_
  obtain ⟨deposits, offset⟩ := parsed
  dsimp only
  split
  · rename_i hcount
    refine Returns.bind (readU32_returns hcount) fun borrowsLen => ?_
    exact Returns.bind (parseLiquidity_returns _ _ _ _) fun borrows => Returns.pure _
  · refine Returns.bind (Returns.pure _) fun borrowsLen => ?_
    exact Returns.bind (parseLiquidity_returns _ _ _ _) fun borrows => Returns.pure _

/-- Behind the deposits found there are all of them, or too few bytes for a count and a
    borrow. -/
theorem behind_deposits {len n offset : Nat} (h : offset = 100 + 56 * (scan 56 len n 100).length) :
    offset = 100 + 56 * n ∨ len < offset + 4 + 80 ∧ len < 100 + 56 * n + 4 := by
  rw [length_scan (by decide)] at h
  omega

/-- What it returns are the records. -/
theorem kamino_parse (address : Pubkey) (data : List UInt8) :
    Yields (KaminoRecords data)
      (Kamino.decodeObligation address data : Rust (Option (ObligationState F))) := by
  rw [Kamino.decodeObligation_eq]
  refine Yields.ite Yields.none ?_
  refine Yields.bind fun owner => Yields.read fun depositsLen hlen => ?_
  refine Yields.ite Yields.none (Yields.read fun parsed hparsed => ?_)
  rw [parseCollateral_scan, readU32_ok hlen] at hparsed
  obtain ⟨deposits, offset⟩ := parsed
  obtain ⟨rfl, hoffset⟩ := Prod.mk.inj (Except.ok.inj hparsed)
  have hdeposits : scan 56 data.length (numberAt data 96 4) 100 =
      complete 56 data.length (numberAt data 96 4) 100 := scan_eq_complete ..
  have hbehind := behind_deposits (n := numberAt data 96 4) hoffset.symm
  have hnone : data.length < 100 + 56 * numberAt data 96 4 + 4 →
      ∀ count, scan 80 data.length count (offset + 4) = [] := by
    intro hcut count
    rcases hbehind with rfl | ⟨hshort, -⟩
    · exact scan_short (by omega) _
    · exact scan_short hshort _
  dsimp only
  split
  · rename_i hroom
    refine Yields.read fun borrowsLen hborrowsLen => Yields.read fun borrows hborrows => ?_
    rw [parseLiquidity_scan, readU32_ok hborrowsLen] at hborrows
    obtain rfl := Except.ok.inj hborrows
    refine Yields.some ⟨congrArg (List.map _) hdeposits, fun hcount => ?_, fun hcut => ?_⟩
    · obtain rfl : offset = 100 + 56 * numberAt data 96 4 := by omega
      exact congrArg (List.map _) (scan_eq_complete _ _)
    · dsimp only
      rw [hnone hcut]
      exact ⟨rfl, Bool.and_false _⟩
  · rename_i hroom
    refine Yields.read fun borrowsLen hborrowsLen => Yields.read fun borrows hborrows => ?_
    rw [parseLiquidity_scan, scan_short (by omega)] at hborrows
    obtain rfl := Except.ok.inj hborrows
    refine Yields.some ⟨congrArg (List.map _) hdeposits, fun hcount => ?_, fun _ => ?_⟩
    · omega
    · exact ⟨rfl, Bool.and_false _⟩

/-- **WHAT THE KAMINO ADAPTER PARSES**, for every byte string and every allocator: it fails
    only where the allocator refuses it room, never by reading past the end, and what it
    decodes are the complete records of both lists, with no borrows where a deposit or the
    borrow count is cut off. -/
theorem kamino_records (allocates : Nat → Bool) (address : Pubkey) (data : List UInt8) :
    (∀ e, (Kamino.decodeObligationIn allocates address data :
        Rust (Option (ObligationState F))) = .error e →
      e = .allocationFailed ∧ ∃ n < 2 ^ 32, allocates n = false) ∧
    ∀ o, Kamino.decodeObligationIn allocates address data = .ok (some o) →
      (KaminoAdapter F).decodeObligation address data = .ok (some o) ∧ KaminoRecords data o := by
  rcases kamino_same (F := F) allocates address data with hsame | ⟨herr, hrefused⟩
  · rw [hsame]
    obtain ⟨r, hr⟩ := kamino_returns (F := F) address data
    refine ⟨fun e he => ?_, fun o ho => ⟨ho, kamino_parse address data o ho⟩⟩
    rw [hr] at he
    cases he
  · rw [herr]
    refine ⟨fun e he => ?_, fun o ho => ?_⟩
    · cases he
      exact ⟨rfl, hrefused⟩
    · cases ho

/-- An allocator with room for a thousand positions. -/
def thousand (n : Nat) : Bool := decide (n ≤ 1000)

/-- An account without deposits that declares `2 ^ 32 - 1` borrows. -/
def hugeCount : List UInt8 := List.replicate 100 0 ++ List.replicate 4 255 ++ List.replicate 296 0

/-- A decoding that ends in a value. -/
theorem decodes_of_isSome {α : Type} {m : Rust (Option α)}
    (h : m.toOption.join.isSome = true) : ∃ a, m = .ok (some a) := by
  match m with
  | .ok (some a) => exact ⟨a, rfl⟩
  | .ok none => cases h
  | .error e => cases h

/-- A computation that ends in an error. -/
theorem fails_of_toBool {α : Type} {m : Rust α} (h : m.toBool = false) : ∃ e, m = .error e := by
  cases m with
  | ok a => cases h
  | error e => exact ⟨e, rfl⟩

/-- There the account with one deposit and one borrow is decoded, and the count of the
    other is more than the allocator grants. -/
theorem poorAccount_records :
    (∃ o, (Kamino.decodeObligationIn thousand Pubkey.default poorAccount :
        Rust (Option (ObligationState Float))) = .ok (some o) ∧ KaminoRecords poorAccount o) ∧
      (Kamino.decodeObligationIn thousand Pubkey.default hugeCount :
        Rust (Option (ObligationState Float))) = .error .allocationFailed := by
  constructor
  · obtain ⟨o, ho⟩ : ∃ o, (Kamino.decodeObligationIn thousand Pubkey.default poorAccount :
        Rust (Option (ObligationState Float))) = .ok (some o) :=
      decodes_of_isSome (by decide +kernel)
    exact ⟨o, ho, ((kamino_records thousand Pubkey.default poorAccount).2 o ho).2⟩
  · obtain ⟨e, he⟩ : ∃ e, (Kamino.decodeObligationIn thousand Pubkey.default hugeCount :
        Rust (Option (ObligationState Float))) = .error e := fails_of_toBool (by decide +kernel)
    obtain ⟨rfl, -⟩ := (kamino_records thousand Pubkey.default hugeCount).1 e he
    exact he

/-! ## Save -/

/-- Where `decode_obligation` takes the deposits, the borrow count and the borrows from. -/
structure SaveReads where
  deposits : List Nat
  borrowCount : Option Nat
  borrows : List Nat
deriving DecidableEq, Repr

/-- The deposit records read: ten at most. -/
def saveDeposits (data : List UInt8) : List Nat :=
  scan 56 data.length (min (numberAt data 657 4) 10) 661

/-- Where the loop over the deposits stops. -/
def saveOffset (data : List UInt8) : Nat := 661 + 56 * (saveDeposits data).length

/-- The offsets of `SaveAdapter::decode_obligation`, as it moves along the account. -/
def saveReads (data : List UInt8) : SaveReads :=
  if 657 + 4 ≤ data.length then
    if saveOffset data + 4 ≤ data.length then
      { deposits := saveDeposits data
        borrowCount := some (saveOffset data)
        borrows := scan 80 data.length (min (numberAt data (saveOffset data) 4) 10)
          (saveOffset data + 4) }
    else ⟨saveDeposits data, none, []⟩
  else ⟨[], none, []⟩

/-- The positions of the account are decoded at these offsets. -/
structure SaveRecords (data : List UInt8) (o : ObligationState F) : Prop where
  deposits : o.deposits = (saveReads data).deposits.map (collateralAt Save.usd data)
  borrows : o.borrows = (saveReads data).borrows.map (liquidityAt Save.usd data)

/-- The byte read is the byte there. -/
theorem readU8_ok {data : List UInt8} {offset : Nat} {x : UInt8} (h : readU8 data offset = .ok x) :
    x.toNat = numberAt data offset 1 := by
  rw [readU8] at h
  obtain ⟨bs, hslice, h⟩ := bind_ok h
  obtain rfl := Except.ok.inj h
  obtain rfl := slice_ok hslice
  have hlt := fromLeBytes_lt ((data.drop offset).take 1)
  have hlen : 256 ^ ((data.drop offset).take 1).length ≤ 256 ^ 1 :=
    Nat.pow_le_pow_right (by decide) (List.length_take_le _ _)
  exact UInt8.toNat_ofNat_of_lt' (Nat.lt_of_lt_of_le hlt hlen)

/-- The computation returns a value that satisfies `P`. -/
def ReturnsWith {α : Type} (P : α → Prop) (m : Rust α) : Prop := ∃ a, m = .ok a ∧ P a

/-- A value that satisfies the predicate. -/
theorem ReturnsWith.pure {α : Type} {P : α → Prop} {a : α} (h : P a) : ReturnsWith P (pure a) :=
  ⟨a, rfl, h⟩

/-- What follows a read is judged by the value read. -/
theorem ReturnsWith.read {α β : Type} {P : β → Prop} {m : Rust α} {f : α → Rust β}
    (h : Returns m) (hf : ∀ a, m = .ok a → ReturnsWith P (f a)) : ReturnsWith P (m >>= f) := by
  obtain ⟨a, rfl⟩ := h
  exact hf a rfl

/-- The account is long enough and initialized. -/
def Initialized (data : List UInt8) : Prop := 300 ≤ data.length ∧ numberAt data 0 1 ≠ 0

instance (data : List UInt8) : Decidable (Initialized data) :=
  inferInstanceAs (Decidable (_ ∧ _))

/-- Save decodes every account that is. -/
theorem save_decodes (address : Pubkey) (data : List UInt8) :
    ReturnsWith (fun r => Initialized data → ∃ o, r = some o)
      (Save.decodeObligation address data : Rust (Option (ObligationState F))) := by
  rw [Save.decodeObligation]
  split
  · rename_i hshort
    exact ReturnsWith.pure fun hinit => absurd hshort (Nat.not_lt.mpr hinit.1)
  rename_i hshort
  have hlen : Save.OBLIGATION_MIN_SIZE ≤ data.length := Nat.not_lt.mp hshort
  have hversion : Returns (readU8 data 0) := readU8_returns (Nat.le_trans (by decide) hlen)
  refine ReturnsWith.read hversion fun version hversion => ?_
  split
  · rename_i hzero
    have hread : version.toNat = numberAt data 0 1 := readU8_ok hversion
    refine ReturnsWith.pure fun hinit => absurd ?_ hinit.2
    rw [← hread, hzero]
    rfl
  have hdone : ∀ o : ObligationState F,
      ReturnsWith (fun r => Initialized data → ∃ o, r = some o) (pure (some o) : Rust _) :=
    fun o => ReturnsWith.pure fun _ => ⟨o, rfl⟩
  refine ReturnsWith.read (readPubkey_returns (Nat.le_trans (by decide) hlen)) fun owner _ => ?_
  refine ReturnsWith.read (readU128_returns (Nat.le_trans (by decide) hlen)) fun deposited _ => ?_
  refine ReturnsWith.read (readU128_returns (Nat.le_trans (by decide) hlen)) fun borrowed _ => ?_
  dsimp only
  split
  · rename_i hcount
    refine ReturnsWith.read (readU32_returns hcount) fun depositsLen _ => ?_
    refine ReturnsWith.read (parseCollateral_returns _ _ _ _) fun parsed _ => ?_
    obtain ⟨deposits, offset⟩ := parsed
    dsimp only
    split
    · rename_i hcount'
      refine ReturnsWith.read (readU32_returns hcount') fun borrowsLen _ => ?_
      refine ReturnsWith.read (parseLiquidity_returns _ _ _ _) fun borrows _ => ?_
      exact ReturnsWith.read (Returns.pure _) fun _ _ => hdone _
    · refine ReturnsWith.read (Returns.pure _) fun borrows _ => ?_
      exact ReturnsWith.read (Returns.pure _) fun _ _ => hdone _
  · exact ReturnsWith.read (Returns.pure _) fun _ _ => hdone _

/-- The Save adapter returns, whatever the data. -/
theorem save_returns (address : Pubkey) (data : List UInt8) :
    Returns (Save.decodeObligation address data : Rust (Option (ObligationState F))) := by
  obtain ⟨r, hr, -⟩ := save_decodes (F := F) address data
  exact ⟨r, hr⟩

/-- Only accounts that are initialized are decoded. -/
theorem save_initialized (address : Pubkey) (data : List UInt8) :
    Yields (fun _ => Initialized data)
      (Save.decodeObligation address data : Rust (Option (ObligationState F))) := by
  rw [Save.decodeObligation]
  split
  · exact Yields.none
  rename_i hshort
  refine Yields.read fun version hversion => ?_
  split
  · exact Yields.none
  rename_i hversion'
  intro o _
  refine ⟨Nat.not_lt.mp hshort, fun hzero => hversion' ?_⟩
  exact UInt8.toNat_inj.mp ((readU8_ok hversion).trans hzero)

/-- What it returns are the records at the offsets it reads. -/
theorem save_parse (address : Pubkey) (data : List UInt8) :
    Yields (SaveRecords data)
      (Save.decodeObligation address data : Rust (Option (ObligationState F))) := by
  refine Yields.ite Yields.none ?_
  refine Yields.bind fun version => Yields.ite Yields.none ?_
  refine Yields.bind fun owner => Yields.bind fun deposited => Yields.bind fun borrowed => ?_
  dsimp only
  split
  · rename_i hcount
    refine Yields.read fun depositsLen hlen => Yields.read fun parsed hparsed => ?_
    rw [parseCollateral_scan, readU32_ok hlen] at hparsed
    obtain rfl := Except.ok.inj hparsed
    dsimp only
    split
    · rename_i hroom
      have hreads : saveReads data = _ := (if_pos hcount).trans (if_pos hroom)
      refine Yields.read fun borrowsLen hborrowsLen => Yields.read fun borrows hborrows => ?_
      rw [parseLiquidity_scan, readU32_ok hborrowsLen] at hborrows
      obtain rfl := Except.ok.inj hborrows
      refine Yields.read fun parsed hparsed => ?_
      obtain rfl := Except.ok.inj hparsed
      exact Yields.some ⟨by rw [hreads]; rfl, by rw [hreads]; rfl⟩
    · rename_i hroom
      have hreads : saveReads data = _ := (if_pos hcount).trans (if_neg hroom)
      refine Yields.read fun borrows hborrows => ?_
      obtain rfl := Except.ok.inj hborrows
      refine Yields.read fun parsed hparsed => ?_
      obtain rfl := Except.ok.inj hparsed
      exact Yields.some ⟨by rw [hreads]; rfl, by rw [hreads]; rfl⟩
  · rename_i hcount
    have hreads : saveReads data = _ := if_neg hcount
    refine Yields.read fun parsed hparsed => ?_
    obtain rfl := Except.ok.inj hparsed
    exact Yields.some ⟨by rw [hreads]; rfl, by rw [hreads]; rfl⟩

/-- Every borrow decoded is read from the borrow list, and nothing before that list is
    read as its count. -/
structure AlignedBorrows (data : List UInt8) (o : ObligationState F) : Prop where
  count : ∀ c, (saveReads data).borrowCount = some c → 661 + 56 * numberAt data 657 4 ≤ c
  borrows : ∀ j b, o.borrows[j]? = some b →
    (saveReads data).borrows[j]? = some (661 + 56 * numberAt data 657 4 + 4 + 80 * j) ∧
      b = liquidityAt Save.usd data (661 + 56 * numberAt data 657 4 + 4 + 80 * j)

/-- The deposits the loop steps over: those declared, complete, and among the first ten. -/
def stepped (data : List UInt8) : Nat :=
  min (min (numberAt data 657 4) 10) ((data.length - 661) / 56)

/-- All declared deposits are stepped over, or no count fits behind those that are. -/
def StepsOverDeposits (data : List UInt8) : Prop :=
  661 ≤ data.length →
    stepped data = numberAt data 657 4 ∨ data.length < 661 + 56 * stepped data + 4

instance (data : List UInt8) : Decidable (StepsOverDeposits data) :=
  inferInstanceAs (Decidable (_ → _))

/-- Behind the deposits stepped over. -/
theorem saveOffset_eq (data : List UInt8) : saveOffset data = 661 + 56 * stepped data := by
  rw [saveOffset, saveDeposits, length_scan (by decide), stepped]

/-- The borrow count is read behind the deposits stepped over. -/
theorem borrowCount_eq {data : List UInt8} (h : 661 ≤ data.length) :
    (saveReads data).borrowCount =
      if 661 + 56 * stepped data + 4 ≤ data.length then some (661 + 56 * stepped data)
      else none := by
  rw [saveReads, if_pos h, saveOffset_eq]
  split
  · rfl
  · rfl

/-- The borrows are read one behind the other, behind the count. -/
theorem borrow_read {data : List UInt8} {j pos : Nat}
    (h : (saveReads data).borrows[j]? = some pos) :
    661 ≤ data.length ∧ pos = 661 + 56 * stepped data + 4 + 80 * j ∧ pos + 80 ≤ data.length := by
  rw [saveReads, saveOffset_eq] at h
  split at h
  · rename_i hcount
    split at h
    · exact ⟨hcount, scan_getElem h⟩
    · cases h
  · cases h

/-- **WHERE SAVE FINDS THE BORROWS**, for every byte string: it never reads past the end,
    and reads the borrow list, exactly when the account is turned away or all its deposits
    are stepped over, or nothing is left behind those that are. -/
theorem alignedBorrows_iff (address : Pubkey) (data : List UInt8) :
    (Returns ((SaveAdapter F).decodeObligation address data) ∧
      ∀ o, (SaveAdapter F).decodeObligation address data = .ok (some o) → AlignedBorrows data o) ↔
        (Initialized data → StepsOverDeposits data) := by
  constructor
  · rintro ⟨-, haligned⟩ hinit hlen
    obtain ⟨r, hr, hsome⟩ := save_decodes (F := F) address data
    obtain ⟨o, rfl⟩ := hsome hinit
    have hcount := (haligned o hr).count
    rw [borrowCount_eq hlen] at hcount
    by_cases hroom : 661 + 56 * stepped data + 4 ≤ data.length
    · have hle := hcount _ (if_pos hroom)
      have hstepped : stepped data ≤ numberAt data 657 4 :=
        (Nat.min_le_left _ _).trans (Nat.min_le_left _ _)
      left
      omega
    · exact Or.inr (Nat.not_le.mp hroom)
  · intro hsteps
    refine ⟨save_returns address data, fun o ho => ?_⟩
    have hsteps := hsteps (save_initialized address data o ho)
    obtain ⟨-, hborrows⟩ := save_parse address data o ho
    refine ⟨fun c hc => ?_, fun j b hb => ?_⟩
    · have hlen : 661 ≤ data.length := by
        by_contra hshort
        rw [saveReads, if_neg hshort] at hc
        cases hc
      rw [borrowCount_eq hlen] at hc
      split at hc
      · obtain rfl := Option.some.inj hc
        have := hsteps hlen
        omega
      · cases hc
    · rw [hborrows, List.getElem?_map] at hb
      obtain ⟨pos, hpos, rfl⟩ := Option.map_eq_some_iff.mp hb
      obtain ⟨hlen, hread, hin⟩ := borrow_read hpos
      have hsteps := hsteps hlen
      obtain rfl : pos = 661 + 56 * numberAt data 657 4 + 4 + 80 * j := by omega
      exact ⟨hpos, rfl⟩

/-! ## An account with eleven deposits -/

/-- Eleven deposits and no borrows; the key of the eleventh reserve begins with a one. -/
def elevenDeposits : List UInt8 :=
  1 :: List.replicate 656 0 ++ toLeBytes 4 11 ++ List.replicate 560 0 ++
    (1 :: List.replicate 55 0) ++ toLeBytes 4 0 ++ List.replicate 80 0

/-- **THE ELEVENTH DEPOSIT IS READ AS THE BORROW COUNT**: the account declares no borrows,
    and one is decoded. -/
theorem elevenDeposits_misread :
    numberAt elevenDeposits (661 + 56 * 11) 4 = 0 ∧
      (saveReads elevenDeposits).borrowCount = some (661 + 56 * 10) ∧
      (∃ o, (SaveAdapter Float).decodeObligation Pubkey.default elevenDeposits = .ok (some o) ∧
        o.borrows.length = 1 ∧ ¬AlignedBorrows elevenDeposits o) ∧
      ¬∀ address data, Returns ((SaveAdapter Float).decodeObligation address data) ∧
        ∀ o, (SaveAdapter Float).decodeObligation address data = .ok (some o) →
          AlignedBorrows data o := by
  have hreads : (saveReads elevenDeposits).borrowCount = some (661 + 56 * 10) ∧
      (saveReads elevenDeposits).borrows.length = 1 := by decide +kernel
  have hdeclared : numberAt elevenDeposits 657 4 = 11 := by decide +kernel
  obtain ⟨r, hr, hsome⟩ := save_decodes (F := Float) Pubkey.default elevenDeposits
  obtain ⟨o, rfl⟩ := hsome (by decide +kernel)
  have hborrows := (save_parse Pubkey.default elevenDeposits o hr).borrows
  rw [show Save.decodeObligation = (SaveAdapter Float).decodeObligation from rfl] at hr
  have hmisread : ¬AlignedBorrows elevenDeposits o := by
    intro haligned
    have hcount := haligned.count _ hreads.1
    rw [hdeclared] at hcount
    omega
  refine ⟨by decide +kernel, hreads.1, ⟨o, hr, ?_, hmisread⟩, ?_⟩
  · rw [hborrows, List.length_map]
    exact hreads.2
  · intro hall
    exact hmisread ((hall Pubkey.default elevenDeposits).2 o hr)

end MevObligationRecords
