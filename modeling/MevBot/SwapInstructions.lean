import MevBot.DecoderOverflow
import MevBot.VaultReserves

/-! # Building swap instructions

    `build_swap_ix` of the five adapters.  Each has its own encoding of the
    direction of a swap, and only the two Raydium builders look at the input
    mint: Orca instructions always sell token A, Phoenix instructions always buy
    the base token, and no builder rejects a foreign mint, as `quote` does
    (`encodesTrade_iff`). -/

namespace MevSwapIx

open MevMachine MevTypes MevDex MevRates MevDecoderOverflow

/-- What the builders use of the Solana crates. -/
structure SolanaSdk where
  /-- `spl_token::id()`. -/
  splTokenId : Pubkey
  /-- `Pubkey::find_program_address`. -/
  findProgramAddress : List (List UInt8) → Pubkey → Pubkey × UInt8

/-- `AccountMeta::new`. -/
def AccountMeta.new (pubkey : Pubkey) (isSigner : Bool) : AccountMeta := ⟨pubkey, isSigner, true⟩

/-- `AccountMeta::new_readonly`. -/
def AccountMeta.newReadonly (pubkey : Pubkey) (isSigner : Bool) : AccountMeta :=
  ⟨pubkey, isSigner, false⟩

/-! ## The builders -/

section Builders

variable (sdk : SolanaSdk) (pool : PoolState) (inputMint : Pubkey) (amountIn minAmountOut : UInt64)
  (userWallet userSourceAta userDestAta : Pubkey)

/-- The vaults in the direction of the input mint, as the Raydium builders take them. -/
def orderedVaults : Pubkey × Pubkey :=
  if inputMint = pool.tokenAMint then (pool.tokenAVault, pool.tokenBVault)
  else (pool.tokenBVault, pool.tokenAVault)

/-- "amm authority". -/
def AMM_AUTHORITY : List UInt8 := [97, 109, 109, 32, 97, 117, 116, 104, 111, 114, 105, 116, 121]

/-- `RaydiumAmmAdapter::build_swap_ix`. -/
def RaydiumAmm.buildSwapIx : Except QuoteError (List Instruction) :=
  let ixData := [9] ++ toLeBytes 8 amountIn.toNat ++ toLeBytes 8 minAmountOut.toNat
  let (sourceVault, destVault) := orderedVaults pool inputMint
  let (authority, _nonce) := sdk.findProgramAddress [AMM_AUTHORITY] RAYDIUM_AMM_V4
  let accounts :=
    [AccountMeta.newReadonly sdk.splTokenId false, AccountMeta.new pool.address false,
      AccountMeta.newReadonly authority false, AccountMeta.new sourceVault false,
      AccountMeta.new destVault false, AccountMeta.new userSourceAta false,
      AccountMeta.new userDestAta false, AccountMeta.newReadonly userWallet true]
  .ok [{ programId := RAYDIUM_AMM_V4, accounts, data := ixData }]

/-- `RaydiumClmmAdapter::build_swap_ix`: the amount is the input, without a price limit. -/
def RaydiumClmm.buildSwapIx : Except QuoteError (List Instruction) :=
  let ixData := [43, 4, 237, 11, 26, 201, 30, 98] ++ toLeBytes 8 amountIn.toNat
    ++ toLeBytes 8 minAmountOut.toNat ++ toLeBytes 16 0 ++ [1]
  let (inputVault, outputVault) := orderedVaults pool inputMint
  let accounts :=
    [AccountMeta.newReadonly userWallet true, AccountMeta.new pool.address false,
      AccountMeta.new userSourceAta false, AccountMeta.new userDestAta false,
      AccountMeta.new inputVault false, AccountMeta.new outputVault false,
      AccountMeta.newReadonly sdk.splTokenId false]
  .ok [{ programId := RAYDIUM_CLMM, accounts, data := ixData }]

/-- `OrcaWhirlpoolAdapter::build_swap_ix`: the direction flag is always `a_to_b`. -/
def OrcaWhirlpool.buildSwapIx : Except QuoteError (List Instruction) :=
  let ixData := [248, 198, 158, 145, 225, 117, 135, 200] ++ toLeBytes 8 amountIn.toNat
    ++ toLeBytes 8 minAmountOut.toNat ++ [1] ++ toLeBytes 16 0
  let accounts :=
    [AccountMeta.newReadonly sdk.splTokenId false, AccountMeta.newReadonly userWallet true,
      AccountMeta.new pool.address false, AccountMeta.new userSourceAta false,
      AccountMeta.new pool.tokenAVault false, AccountMeta.new userDestAta false,
      AccountMeta.new pool.tokenBVault false]
  .ok [{ programId := ORCA_WHIRLPOOL, accounts, data := ixData }]

/-- `MeteoraDlmmAdapter::build_swap_ix`: no direction is encoded. -/
def MeteoraDlmm.buildSwapIx : Except QuoteError (List Instruction) :=
  let ixData := [65, 75, 63, 76, 235, 91, 91, 136] ++ toLeBytes 8 amountIn.toNat
    ++ toLeBytes 8 minAmountOut.toNat
  let accounts :=
    [AccountMeta.new pool.address false, AccountMeta.newReadonly sdk.splTokenId false,
      AccountMeta.new userSourceAta false, AccountMeta.new userDestAta false,
      AccountMeta.new pool.tokenAVault false, AccountMeta.new pool.tokenBVault false,
      AccountMeta.newReadonly userWallet true]
  .ok [{ programId := METEORA_DLMM, accounts, data := ixData }]

/-- `PhoenixAdapter::build_swap_ix`: the side is always 0, a bid; 1 would be an ask. -/
def Phoenix.buildSwapIx : Except QuoteError (List Instruction) :=
  let ixData := [0xf8, 0xc6, 0x9e, 0x91, 0xe1, 0x75, 0x87, 0xc8] ++ toLeBytes 8 amountIn.toNat
    ++ toLeBytes 8 minAmountOut.toNat ++ [0]
  let accounts :=
    [AccountMeta.new pool.address false, AccountMeta.newReadonly userWallet true,
      AccountMeta.new userSourceAta false, AccountMeta.new userDestAta false,
      AccountMeta.new pool.tokenAVault false, AccountMeta.new pool.tokenBVault false,
      AccountMeta.newReadonly sdk.splTokenId false]
  .ok [{ programId := PHOENIX, accounts, data := ixData }]

/-- `build_swap_ix` of the adapter of a DEX. -/
def buildSwapIx : DexType → Except QuoteError (List Instruction)
  | .raydiumAmm =>
      RaydiumAmm.buildSwapIx sdk pool inputMint amountIn minAmountOut userWallet userSourceAta
        userDestAta
  | .raydiumClmm =>
      RaydiumClmm.buildSwapIx sdk pool inputMint amountIn minAmountOut userWallet userSourceAta
        userDestAta
  | .orcaWhirlpool =>
      OrcaWhirlpool.buildSwapIx sdk pool amountIn minAmountOut userWallet userSourceAta userDestAta
  | .meteoraDlmm =>
      MeteoraDlmm.buildSwapIx sdk pool amountIn minAmountOut userWallet userSourceAta userDestAta
  | .phoenix =>
      Phoenix.buildSwapIx sdk pool amountIn minAmountOut userWallet userSourceAta userDestAta

end Builders

/-! ## The encoded trade -/

/-- The length of the discriminator; the two amounts follow it. -/
def discriminatorLength : DexType → Nat
  | .raydiumAmm => 1
  | _ => 8

/-- The instruction carries both amounts. -/
def CarriesAmounts (dexType : DexType) (amountIn minAmountOut : UInt64) (ix : Instruction) : Prop :=
  readU64 ix.data (discriminatorLength dexType) = .ok amountIn ∧
    readU64 ix.data (discriminatorLength dexType + 8) = .ok minAmountOut

/-- The account at the place is the vault of the input mint. -/
def VaultAt (place : Nat) (pool : PoolState) (inputMint : Pubkey) (ix : Instruction) : Prop :=
  ∃ vault, ix.accounts[place]? = some vault ∧
    (inputMint = pool.tokenAMint → vault.pubkey = pool.tokenAVault) ∧
    (inputMint = pool.tokenBMint → vault.pubkey = pool.tokenBVault)

/-- The direction the instruction encodes is that of the input mint: by the place of a
    vault, or by a flag behind the amounts.  Meteora has neither. -/
def FollowsMint (pool : PoolState) (inputMint : Pubkey) (ix : Instruction) : DexType → Prop
  | .raydiumAmm => VaultAt 3 pool inputMint ix
  | .raydiumClmm => VaultAt 4 pool inputMint ix
  | .orcaWhirlpool => ix.data[24]? = some 1 ↔ inputMint = pool.tokenAMint
  | .phoenix => ix.data[24]? = some 1 ↔ inputMint = pool.tokenAMint
  | .meteoraDlmm => True

/-- A word written behind a prefix is read back. -/
theorem readU64_written (before after : List UInt8) (x : UInt64) :
    readU64 (before ++ (toLeBytes 8 x.toNat ++ after)) before.length = .ok x := by
  have hlen : before.length + 8 ≤ (before ++ (toLeBytes 8 x.toNat ++ after)).length := by
    rw [List.length_append, List.length_append, toLeBytes_length]
    omega
  have hx : x.toNat % 256 ^ 8 = x.toNat := Nat.mod_eq_of_lt x.toNat_lt
  rw [readU64_in_range hlen, wordAt, List.drop_left, List.take_left' (toLeBytes_length 8 _),
    fromLeBytes_toLeBytes, hx, UInt64.ofNat_toNat]

/-- Every builder writes the amounts behind its discriminator. -/
theorem carriesAmounts {dexType : DexType} (discriminator after : List UInt8) {ix : Instruction}
    {amountIn minAmountOut : UInt64} (hlen : discriminator.length = discriminatorLength dexType)
    (hdata : ix.data = discriminator ++ (toLeBytes 8 amountIn.toNat ++
      (toLeBytes 8 minAmountOut.toNat ++ after))) :
    CarriesAmounts dexType amountIn minAmountOut ix := by
  rw [CarriesAmounts, ← hlen, hdata]
  refine ⟨readU64_written _ _ amountIn, ?_⟩
  have hprefix : (discriminator ++ toLeBytes 8 amountIn.toNat).length =
      discriminator.length + 8 := by
    rw [List.length_append, toLeBytes_length]
  rw [← hprefix, ← List.append_assoc]
  exact readU64_written _ _ minAmountOut

section Trade

variable (sdk : SolanaSdk) (adapter : DexAdapter) (pool : PoolState)
  (inputMint : Pubkey) (amountIn minAmountOut : UInt64)
  (userWallet userSourceAta userDestAta : Pubkey)

/-- **THE TRADE THAT WAS QUOTED**: a mint that is not the pool's fails as it does in `quote`;
    otherwise one instruction carries the amounts in the direction of the mint. -/
def EncodesTrade : Prop :=
  (inputMint ≠ pool.tokenAMint → inputMint ≠ pool.tokenBMint →
    ∃ e, adapter.quote pool inputMint amountIn = .error e ∧
      buildSwapIx sdk pool inputMint amountIn minAmountOut userWallet userSourceAta userDestAta
        adapter.dexType = .error e) ∧
  (inputMint = pool.tokenAMint ∨ inputMint = pool.tokenBMint →
    ∃ ix, buildSwapIx sdk pool inputMint amountIn minAmountOut userWallet userSourceAta userDestAta
        adapter.dexType = .ok [ix] ∧
      CarriesAmounts adapter.dexType amountIn minAmountOut ix ∧
      FollowsMint pool inputMint ix adapter.dexType)

variable {pool inputMint}

theorem orderedVaults_fst (hmint : inputMint = pool.tokenAMint ∨ inputMint = pool.tokenBMint)
    (hdistinct : pool.tokenAMint ≠ pool.tokenBMint) :
    (inputMint = pool.tokenAMint → (orderedVaults pool inputMint).1 = pool.tokenAVault) ∧
      (inputMint = pool.tokenBMint → (orderedVaults pool inputMint).1 = pool.tokenBVault) := by
  rw [orderedVaults]
  rcases hmint with rfl | rfl
  · rw [if_pos rfl]
    exact ⟨fun _ => rfl, fun h => absurd h hdistinct⟩
  · rw [if_neg hdistinct.symm]
    exact ⟨fun h => absurd h.symm hdistinct, fun _ => rfl⟩

/-- **ONE INSTRUCTION EACH**, with the amounts; Orca's follows token A only, Phoenix's only
    the quote token. -/
theorem buildSwapIx_ok (dexType : DexType)
    (hmint : inputMint = pool.tokenAMint ∨ inputMint = pool.tokenBMint)
    (hdistinct : pool.tokenAMint ≠ pool.tokenBMint) :
    ∃ ix, buildSwapIx sdk pool inputMint amountIn minAmountOut userWallet userSourceAta userDestAta
        dexType = .ok [ix] ∧
      CarriesAmounts dexType amountIn minAmountOut ix ∧
      (FollowsMint pool inputMint ix dexType ↔
        (dexType = .orcaWhirlpool → inputMint = pool.tokenAMint) ∧
          (dexType = .phoenix → inputMint = pool.tokenBMint)) := by
  have hvault := orderedVaults_fst hmint hdistinct
  cases dexType with
  | raydiumAmm =>
      refine ⟨_, rfl, carriesAmounts [9] [] rfl ?_, iff_of_true ⟨_, rfl, hvault⟩ ⟨nofun, nofun⟩⟩
      simp only [List.append_assoc, List.append_nil]
  | raydiumClmm =>
      refine ⟨_, rfl,
        carriesAmounts [43, 4, 237, 11, 26, 201, 30, 98] (toLeBytes 16 0 ++ [1]) rfl ?_,
        iff_of_true ⟨_, rfl, hvault⟩ ⟨nofun, nofun⟩⟩
      simp only [List.append_assoc]
  | orcaWhirlpool =>
      refine ⟨_, rfl,
        carriesAmounts [248, 198, 158, 145, 225, 117, 135, 200] ([1] ++ toLeBytes 16 0) rfl ?_, ?_⟩
      · simp only [List.append_assoc]
      · -- the flag says token A, whatever the mint
        change ((some 1 : Option UInt8) = some 1 ↔ inputMint = pool.tokenAMint) ↔ _
        rw [iff_true_left rfl]
        exact ⟨fun h => ⟨fun _ => h, nofun⟩, fun h => h.1 rfl⟩
  | meteoraDlmm =>
      refine ⟨_, rfl, carriesAmounts [65, 75, 63, 76, 235, 91, 91, 136] [] rfl ?_,
        iff_of_true trivial ⟨nofun, nofun⟩⟩
      simp only [List.append_assoc, List.append_nil]
  | phoenix =>
      refine ⟨_, rfl,
        carriesAmounts [0xf8, 0xc6, 0x9e, 0x91, 0xe1, 0x75, 0x87, 0xc8] [0] rfl ?_, ?_⟩
      · simp only [List.append_assoc]
      · -- the side says bid, whatever the mint
        have hbid : ¬(some 0 : Option UInt8) = some 1 := by decide
        change ((some 0 : Option UInt8) = some 1 ↔ inputMint = pool.tokenAMint) ↔ _
        rw [iff_false_left hbid]
        constructor
        · intro hA
          exact ⟨nofun, fun _ => hmint.resolve_left hA⟩
        · rintro ⟨-, hB⟩ rfl
          exact hdistinct (hB rfl)

/-- No builder fails. -/
theorem buildSwapIx_ne_error (dexType : DexType) (e : QuoteError) :
    buildSwapIx sdk pool inputMint amountIn minAmountOut userWallet userSourceAta userDestAta
      dexType ≠ .error e := by
  intro h
  cases dexType with
  | raydiumAmm => cases h
  | raydiumClmm => cases h
  | orcaWhirlpool => cases h
  | meteoraDlmm => cases h
  | phoenix => cases h

/-- **WHEN AN INSTRUCTION ENCODES THE QUOTED TRADE**, for all amounts and accounts: the input
    mint is the pool's, on Orca its token A, on Phoenix its quote token. -/
theorem encodesTrade_iff (hdistinct : pool.tokenAMint ≠ pool.tokenBMint) :
    EncodesTrade sdk adapter pool inputMint amountIn minAmountOut userWallet userSourceAta
        userDestAta ↔
      (inputMint = pool.tokenAMint ∨ inputMint = pool.tokenBMint) ∧
        (adapter.dexType = .orcaWhirlpool → inputMint = pool.tokenAMint) ∧
        (adapter.dexType = .phoenix → inputMint = pool.tokenBMint) := by
  constructor
  · rintro ⟨hforeign, hown⟩
    have hmint : inputMint = pool.tokenAMint ∨ inputMint = pool.tokenBMint := by
      by_contra hnot
      obtain ⟨hA, hB⟩ := not_or.mp hnot
      obtain ⟨e, -, herror⟩ := hforeign hA hB
      exact buildSwapIx_ne_error sdk _ _ _ _ _ adapter.dexType e herror
    obtain ⟨ix, hok, -, hfollows⟩ := hown hmint
    obtain ⟨ix', hok', -, hiff⟩ := buildSwapIx_ok sdk amountIn minAmountOut userWallet
      userSourceAta userDestAta adapter.dexType hmint hdistinct
    obtain rfl := (List.cons.inj (Except.ok.inj (hok.symm.trans hok'))).1
    exact ⟨hmint, hiff.mp hfollows⟩
  · rintro ⟨hmint, hdirection⟩
    refine ⟨fun hA hB => absurd hmint (not_or.mpr ⟨hA, hB⟩), fun _ => ?_⟩
    obtain ⟨ix, hok, hamounts, hiff⟩ := buildSwapIx_ok sdk amountIn minAmountOut userWallet
      userSourceAta userDestAta adapter.dexType hmint hdistinct
    exact ⟨ix, hok, hamounts, hiff.mpr hdirection⟩

end Trade

/-- The token program, and the one address the builders derive. -/
def mainnetSdk : SolanaSdk :=
  { splTokenId := MevVaults.SPL_TOKEN
    findProgramAddress := fun _ _ =>
      (⟨#v[65, 87, 176, 88, 15, 49, 197, 252, 228, 74, 98, 88, 45, 188, 249, 215,
        142, 231, 89, 67, 160, 132, 163, 147, 179, 80, 54, 141, 34, 137, 147, 8]⟩, 254) }

def tradedPool : PoolState :=
  { samplePool 101 1 2 1000000000 2000000000 1 with tokenAVault := keyOf 5, tokenBVault := keyOf 6 }

/-- Raydium sells either token. -/
theorem raydium_encodes :
    EncodesTrade mainnetSdk RaydiumAmmAdapter tradedPool (keyOf 2) 1000 900 (keyOf 7) (keyOf 8)
      (keyOf 9) :=
  (encodesTrade_iff mainnetSdk RaydiumAmmAdapter 1000 900 (keyOf 7) (keyOf 8) (keyOf 9)
    (by decide)).mpr ⟨Or.inr rfl, nofun, nofun⟩

/-- **THE WRONG WAY**: an Orca instruction for token B says token A, a Phoenix instruction for
    the base token says bid, and a mint the pool does not have gets an instruction. -/
theorem wrong_directions :
    ¬EncodesTrade mainnetSdk (OrcaWhirlpoolAdapter Float) tradedPool (keyOf 2) 1000 900 (keyOf 7)
        (keyOf 8) (keyOf 9) ∧
      ¬EncodesTrade mainnetSdk PhoenixAdapter tradedPool (keyOf 1) 1000 900 (keyOf 7) (keyOf 8)
        (keyOf 9) ∧
      ¬EncodesTrade mainnetSdk RaydiumAmmAdapter tradedPool (keyOf 3) 1000 900 (keyOf 7) (keyOf 8)
        (keyOf 9) := by
  refine ⟨?_, ?_, ?_⟩
  · rintro ⟨-, hown⟩
    obtain ⟨ix, hok, -, hfollows⟩ := hown (Or.inr rfl)
    obtain rfl := (List.cons.inj (Except.ok.inj hok)).1
    exact absurd (hfollows.mp rfl) (by decide)
  · rintro ⟨-, hown⟩
    obtain ⟨ix, hok, -, hfollows⟩ := hown (Or.inl rfl)
    obtain rfl := (List.cons.inj (Except.ok.inj hok)).1
    have hask : (some 0 : Option UInt8) = some 1 := hfollows.mpr rfl
    cases hask
  · rintro ⟨hforeign, -⟩
    obtain ⟨e, -, herror⟩ := hforeign (by decide) (by decide)
    exact buildSwapIx_ne_error _ _ _ _ _ _ _ _ herror

end MevSwapIx
