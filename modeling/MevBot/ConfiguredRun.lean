import MevBot.BlacklistReload
import MevBot.BreakerLaws
import MevBot.BundleAccounts
import MevBot.CycleSimulation
import MevBot.ExecutedTrades

/-! # The bot of a configuration

    How `main` turns a loaded configuration into the pipeline, and what a
    configuration promises of the bundles a session executes
    (`configured_limits`).  The thresholds of the file are unsigned and the code
    compares signed numbers: from `2 ^ 63` on they turn around
    (`configured_thresholds`). -/

namespace MevConfigured

open MevMachine MevTypes MevDex MevLending MevCache MevStrategy MevRisk MevPipeline MevLedger
open MevDelivery MevExecuted MevOpportunity MevBreaker MevSimulation MevReload MevConfig
open MevHistory hiding run_concat

/-! ## From the file to the tasks -/

def SOL_MINT : Pubkey :=
  ⟨#v[6, 155, 136, 87, 254, 171, 129, 132, 251, 104, 127, 99, 70, 24, 192, 53, 218, 196, 57, 220,
    26, 235, 59, 85, 152, 160, 240, 0, 0, 0, 0, 1]⟩

def USDC_MINT : Pubkey :=
  ⟨#v[198, 250, 122, 243, 190, 219, 173, 58, 61, 101, 243, 106, 171, 201, 116, 49, 177, 187, 228,
    194, 210, 246, 224, 228, 124, 166, 2, 3, 69, 47, 93, 97]⟩

section Wiring

variable {F : Type} (parse : String → Option Pubkey) (sdk : SolanaSdk) (payer : Pubkey)
  (config : BotConfig F Plain)

/-- The minimum profit, before its cast to `i64`; the liquidation task has no other. -/
def minProfitLamports : UInt64 :=
  (config.strategies.dexArb.map (·.minProfitLamports)).getD 50000

/-- The limits `main` gives to both strategy tasks and the executor. -/
def riskLimits : RiskLimits F :=
  { maxPositionLamports := config.risk.maxPositionLamports
    minProfitLamports := (minProfitLamports config).toInt64
    maxTipLamports := config.risk.maxTipLamports
    tipFraction := config.risk.tipFraction }

/-- The anchors of the DEX strategy: the mints of its section that parse. -/
def anchorMints : List Pubkey :=
  (config.strategies.dexArb.map fun c => parsedKeys parse c.anchorMints).getD
    [SOL_MINT, USDC_MINT]

/-- `main`, up to the tasks it spawns. -/
def pipelineOf : PipelineConfig F :=
  { sdk, payer
    risk := riskLimits config
    blacklist := fromConfig parse config.risk.blacklist
    maxHops := (config.strategies.dexArb.map (·.maxHops.toNat)).getD 3
    anchorMints := anchorMints parse config
    -- of the strategies listed as enabled, this one only is looked for
    liquidationEnabled := config.strategies.enabled.contains "liquidation"
    liquidation := ⟨(config.strategies.liquidation.map (·.minBonusBps)).getD 200, 100000⟩
    circuitBreakerWindowSecs := config.risk.circuitBreakerWindowSecs.toNat
    circuitBreakerMaxLossLamports := config.risk.circuitBreakerMaxLossLamports.toInt64
    dryRun := config.runtime.dryRun }

end Wiring

/-! ## Thresholds -/

theorem toInt64_exact {x : UInt64} (h : x.toNat < 2 ^ 63) : x.toInt64.toInt = x.toNat := by
  rw [toInt64_toInt]
  exact bmod_fits ⟨by omega, by omega⟩

/-- From `2 ^ 63` on a cast threshold is negative. -/
theorem toInt64_wraps {x : UInt64} (h : 2 ^ 63 ≤ x.toNat) :
    x.toInt64.toInt = (x.toNat : Int) - 2 ^ 64 := by
  have hlt : x.toNat < 2 ^ 64 := x.toNat_lt
  rw [toInt64_toInt, Int.bmod_def]
  omega

/-- The breaker's limit turns around: a limit above `2 ^ 63` is one that a bundle which
    lost nothing exceeds. -/
theorem zero_trips_iff (windowSecs : Nat) (limit : UInt64) (now : Nat) :
    ((CircuitBreaker.new windowSecs limit.toInt64).recordTrade 0 now).tripped = true ↔
      2 ^ 63 < limit.toNat := by
  have hlt : limit.toNat < 2 ^ 64 := limit.toNat_lt
  have hsum : (((CircuitBreaker.new windowSecs limit.toInt64).recordTrade 0 now).trades.map
      fun x => x.2).sum = 0 := by
    rw [recordTrade_trades]
    show ((([(now, 0)] : List (Nat × Int64)).dropWhile _).map fun x => x.2).sum = 0
    rw [List.dropWhile_cons]
    split
    · rfl
    · rfl
  rw [recordTrade_tripped, hsum]
  show (false = true ∨ (0 : Int64) < -limit.toInt64) ↔ _
  rw [Int64.lt_iff_toInt_lt, Int64.toInt_neg, show (0 : Int64).toInt = 0 from rfl]
  constructor
  · rintro (h | h)
    · cases h
    · by_contra hsmall
      rcases Nat.lt_or_ge limit.toNat (2 ^ 63) with hfits | hwraps
      · rw [toInt64_exact hfits, bmod_fits ⟨by omega, by omega⟩] at h
        omega
      -- the negation of the least `i64` is itself
      · rw [toInt64_wraps hwraps, show limit.toNat = 2 ^ 63 by omega] at h
        exact absurd h (by decide)
  · intro h
    right
    rw [toInt64_wraps (Nat.le_of_lt h), bmod_fits ⟨by omega, by omega⟩]
    omega

section Thresholds

variable {F : Type} (parse : String → Option Pubkey) (sdk : SolanaSdk) (payer : Pubkey)
  (config : BotConfig F Plain)

/-- What the filters accept reaches the minimum profit, while an `i64` holds that. -/
theorem accepts_floor {opp : Opportunity}
    (h : (pipelineOf parse sdk payer config).accepts opp = true)
    (hfloor : (minProfitLamports config).toNat < 2 ^ 63) :
    ((minProfitLamports config).toNat : Int) ≤ opp.expectedProfitLamports.toInt := by
  obtain ⟨-, hprofit, -⟩ := (accepts_iff _ opp).mp h
  rw [← toInt64_exact hfloor]
  exact Int64.le_iff_toInt_le.mp hprofit

/-- **THE THRESHOLDS OF THE FILE HOLD BELOW `2 ^ 63`**: the filters accept no opportunity
    below the configured minimum profit exactly when that is below `2 ^ 63`, and a bundle
    that lost nothing trips the fresh breaker exactly when the configured loss limit is
    above `2 ^ 63`. -/
theorem configured_thresholds (parse : String → Option Pubkey) (sdk : SolanaSdk)
    (payer : Pubkey) (config : BotConfig F Plain) (now : Nat) :
    let cfg := pipelineOf parse sdk payer config
    ((∀ opp, cfg.accepts opp = true →
        ((minProfitLamports config).toNat : Int) ≤ opp.expectedProfitLamports.toInt) ↔
      (minProfitLamports config).toNat < 2 ^ 63) ∧
    (((CircuitBreaker.new cfg.circuitBreakerWindowSecs cfg.circuitBreakerMaxLossLamports)
        |>.recordTrade 0 now).tripped = true ↔
      2 ^ 63 < config.risk.circuitBreakerMaxLossLamports.toNat) := by
  intro cfg
  refine ⟨⟨?_, ?_⟩, zero_trips_iff _ _ now⟩
  · intro h
    by_contra hwraps
    -- an opportunity that trades nothing and loses as much as the wrapped floor
    have haccepted : cfg.accepts
        { strategy := "dex_arb", path := []
          expectedProfitLamports := (minProfitLamports config).toInt64
          estimatedComputeUnits := 0, detectedAtSlot := 0 } = true := by
      refine (accepts_iff cfg _).mpr ⟨?_, Int64.le_refl _, ?_⟩
      · intro step hstep
        exact absurd hstep List.not_mem_nil
      · intro step hstep
        cases hstep
    have hle := h _ haccepted
    have hlt := (minProfitLamports config).toInt64.toInt_lt
    change _ ≤ (minProfitLamports config).toInt64.toInt at hle
    omega
  · intro hfloor opp hopp
    exact accepts_floor parse sdk payer config hopp hfloor

end Thresholds

/-! ## What a configuration promises -/

section Promises

variable {F : Type} [F64 F]

/-- An executed opportunity within the limits of the file. -/
structure WithinConfig (parse : String → Option Pubkey) (config : BotConfig F Plain)
    (opp : Opportunity) : Prop where
  profit : (minProfitLamports config).toNat < 2 ^ 63 →
    ((minProfitLamports config).toNat : Int) ≤ opp.expectedProfitLamports.toInt
  position : ∀ step, opp.path.head? = some step →
    step.amountIn ≤ config.risk.maxPositionLamports
  /-- No listed pool, for every listed text that is a key. -/
  pools : ∀ text ∈ config.risk.blacklist.poolAddresses, ∀ step ∈ opp.path,
    parse text ≠ some step.poolAddress
  mints : ∀ text ∈ config.risk.blacklist.tokenMints, ∀ step ∈ opp.path,
    parse text ≠ some step.inputMint ∧ parse text ≠ some step.outputMint
  /-- A closed trade from an anchor, whatever is listed as enabled, or a liquidation. -/
  origin :
    (∃ cache, WellFormedTrade F cache (anchorMints parse config)
      ((config.strategies.dexArb.map (·.maxHops.toNat)).getD 3)
      (minProfitLamports config).toInt64 opp) ∨
    "liquidation" ∈ config.strategies.enabled ∧ ∃ update, Liquidates F
      ⟨(config.strategies.liquidation.map (·.minBonusBps)).getD 200, 100000⟩ update opp

/-- **WHAT THE FILE SAYS HOLDS OF ALL THAT IS EXECUTED**, liquidations and DEX trades alike,
    in every interleaving of the tasks that `main` sets up from it. -/
theorem configured_limits (parse : String → Option Pubkey) (sdk : SolanaSdk) (payer : Pubkey)
    (config : BotConfig F Plain) (cache : AccountCache) (events : List PipelineEvent)
    (p : Opportunity × JitoBundle)
    (hp : p ∈ (run (pipelineOf parse sdk payer config)
      (PipelineState.init (pipelineOf parse sdk payer config) cache) events).executed) :
    WithinConfig parse config p.1 := by
  obtain ⟨haccepted, lane, hfound⟩ := executed_found _ cache events hp
  obtain ⟨hchecked, -, hposition⟩ := (accepts_iff _ p.1).mp haccepted
  refine ⟨accepts_floor parse sdk payer config haccepted, hposition, ?_, ?_, ?_⟩
  · intro text htext step hstep hparse
    exact (hchecked step hstep).1 (List.mem_filterMap.mpr ⟨text, htext, hparse⟩)
  · intro text htext step hstep
    refine ⟨?_, ?_⟩
    · intro hparse
      exact (hchecked step hstep).2.1 (List.mem_filterMap.mpr ⟨text, htext, hparse⟩)
    · intro hparse
      exact (hchecked step hstep).2.2 (List.mem_filterMap.mpr ⟨text, htext, hparse⟩)
  · obtain ⟨before, event, after, rfl, hmem⟩ := mem_collect hfound
    obtain ⟨batch, hbatch, hopp⟩ := mem_foundBy hmem
    obtain ⟨update, hheld, ⟨rfl, rfl, rfl⟩ | ⟨rfl, rfl, rfl⟩⟩ := found_cases hbatch
    · left
      obtain ⟨us, hus, -⟩ := run_dexArb (pipelineOf parse sdk payer config) cache before
      rw [hus] at hopp
      exact ⟨_, emitted_wellFormed (u := (_, update)) hopp⟩
    · right
      exact ⟨List.contains_iff_mem.mp (run_received hheld).1, update,
        processUpdate_liquidates (Option.mem_toList.mp hopp)⟩

end Promises

/-! ## A sample file -/

section Sample

open MevExact MevAccounts MevRates MevSubmitted

/-- A file that enables liquidations and nothing else. -/
noncomputable def sampleFile : BotConfig ExactF64 Plain :=
  { helius := ⟨"https://rpc", "https://laserstream"⟩, jito := ⟨"https://block-engine", true⟩
    wallet := ⟨"bot-keypair.json"⟩
    strategies := { enabled := ["liquidation"], dexArb := some ⟨1, 4, ["mint", "typo"]⟩,
                    backrun := none, liquidation := some ⟨200, ["kamino"]⟩ }
    risk := { maxPositionLamports := 10000000000, maxTipLamports := 10000, tipFraction := 0.5
              dailyLossLimitLamports := 0, circuitBreakerWindowSecs := 300
              circuitBreakerMaxLossLamports := 1000000000, blacklist := ⟨[], ["typo"]⟩ }
    metrics := ⟨9090⟩, runtime := ⟨4, false, "info"⟩ }

/-- One text is a key. -/
def sampleParse (text : String) : Option Pubkey :=
  if text = "mint" then some (keyOf 1) else none

theorem sampleFile_pipeline :
    pipelineOf sampleParse solanaSdk (keyOf 7) sampleFile = liquidationConfig 1000000000 := by
  have hanchors : anchorMints sampleParse sampleFile = [keyOf 1] := rfl
  have hblacklist : fromConfig sampleParse sampleFile.risk.blacklist = ⟨[], []⟩ := rfl
  rw [pipelineOf, hanchors, hblacklist]
  rfl

/-- The sample liquidation is executed within the limits of the file. -/
theorem sampleFile_limits :
    ∃ p ∈ (run (pipelineOf sampleParse solanaSdk (keyOf 7) sampleFile)
      (PipelineState.init (pipelineOf sampleParse solanaSdk (keyOf 7) sampleFile)
        AccountCache.new) (submission obligationUpdate (.ok "a"))).executed,
      WithinConfig sampleParse sampleFile p.1 := by
  have hexecuted : (run (pipelineOf sampleParse solanaSdk (keyOf 7) sampleFile)
      (PipelineState.init (pipelineOf sampleParse solanaSdk (keyOf 7) sampleFile)
        AccountCache.new) (submission obligationUpdate (.ok "a"))).executed ≠ [] := by
    have henabled : (liquidationConfig 1000000000).liquidationEnabled = true := rfl
    rw [sampleFile_pipeline, submission_run henabled obligationUpdate_found
      (liquidationConfig_accepts _) (ready_init _)]
    exact List.cons_ne_nil _ _
  obtain ⟨p, hp⟩ := List.exists_mem_of_ne_nil _ hexecuted
  exact ⟨p, hp, configured_limits sampleParse solanaSdk (keyOf 7) sampleFile AccountCache.new
    _ p hp⟩

end Sample

end MevConfigured
