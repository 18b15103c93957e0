import MevBot.Library.LayeredDocuments

/-! # The configuration file

    The sections of `config.rs` and how one is deserialized.  With `f` the plain
    type a section is a loaded configuration; with `f` an `Option` it is what a
    document says, where any key may be left out. -/

namespace MevConfig

open LayeredDocuments

/-! ## The sections -/

/-- A key that is there. -/
abbrev Plain (α : Type) : Type := α

/-- Where accounts and blockhashes are asked for, and where the stream comes from. -/
structure HeliusConfig (f : Type → Type) where
  rpcEndpoint : f String
  laserstreamEndpoint : f String

/-- Where bundles are submitted, directly or through the Helius proxy. -/
structure JitoConfig (f : Type → Type) where
  blockEngineUrl : f String
  useHeliusProxy : f Bool

/-- The file with the payer's key. -/
structure WalletConfig (f : Type → Type) where
  keypairPath : f String

/-- The bounds of the DEX search, and the mints it starts from. -/
structure DexArbConfig (f : Type → Type) where
  minProfitLamports : f UInt64
  maxHops : f UInt8
  anchorMints : f (List String)

/-- From which size on a swap is run after, and how much slippage a step allows. -/
structure BackrunConfig (f : Type → Type) where
  minTradeSizeLamports : f UInt64
  maxSlippageBps : f UInt16

/-- The smallest bonus, and the lending protocols to watch. -/
structure LiquidationConfig (f : Type → Type) where
  minBonusBps : f UInt16
  protocols : f (List String)

/-- The enabled strategies by name, and a section for each that has one. -/
structure StrategiesConfig (f : Type → Type) where
  enabled : f (List String)
  dexArb : Option (DexArbConfig f)
  backrun : Option (BackrunConfig f)
  liquidation : Option (LiquidationConfig f)

/-- The listed mints and pools, as base58 texts. -/
structure BlacklistConfig (f : Type → Type) where
  tokenMints : f (List String)
  poolAddresses : f (List String)

/-- The limits a trade is checked against, in lamports, and the breaker's window in seconds. -/
structure RiskConfig (F : Type) (f : Type → Type) where
  maxPositionLamports : f UInt64
  maxTipLamports : f UInt64
  tipFraction : f F
  dailyLossLimitLamports : f UInt64
  circuitBreakerWindowSecs : f UInt64
  circuitBreakerMaxLossLamports : f UInt64
  blacklist : f (BlacklistConfig f)

/-- The port the counters are served on. -/
structure MetricsConfig (f : Type → Type) where
  prometheusPort : f UInt16

/-- The worker threads, whether bundles are only logged, and the log filter. -/
structure RuntimeConfig (f : Type → Type) where
  workerThreads : f UInt64
  dryRun : f Bool
  logLevel : f String

/-- The whole file.  Every section is mandatory. -/
structure BotConfig (F : Type) (f : Type → Type) where
  helius : f (HeliusConfig f)
  jito : f (JitoConfig f)
  wallet : f (WalletConfig f)
  strategies : f (StrategiesConfig f)
  risk : f (RiskConfig F f)
  metrics : f (MetricsConfig f)
  runtime : f (RuntimeConfig f)

/-! ## Deserializing

    A section is read key by key.  A key that is not an `Option` is mandatory. -/

section Keys

variable {F : Type} {f : Type → Type}

/-- The keys of `[helius]`, in the order of the struct. -/
def HeliusConfig.keys : HeliusConfig f ≃ f String × f String where
  toFun c := (c.rpcEndpoint, c.laserstreamEndpoint)
  invFun := fun (rpcEndpoint, laserstreamEndpoint) =>
    { rpcEndpoint, laserstreamEndpoint }

/-- The keys of `[jito]`. -/
def JitoConfig.keys : JitoConfig f ≃ f String × f Bool where
  toFun c := (c.blockEngineUrl, c.useHeliusProxy)
  invFun := fun (blockEngineUrl, useHeliusProxy) =>
    { blockEngineUrl, useHeliusProxy }

/-- The one key of `[wallet]`. -/
def WalletConfig.keys : WalletConfig f ≃ f String where
  toFun c := c.keypairPath
  invFun keypairPath := { keypairPath }

/-- The keys of `[strategies.dex_arb]`. -/
def DexArbConfig.keys : DexArbConfig f ≃ f UInt64 × f UInt8 × f (List String) where
  toFun c := (c.minProfitLamports, c.maxHops, c.anchorMints)
  invFun := fun (minProfitLamports, maxHops, anchorMints) =>
    { minProfitLamports, maxHops, anchorMints }

/-- The keys of `[strategies.backrun]`. -/
def BackrunConfig.keys : BackrunConfig f ≃ f UInt64 × f UInt16 where
  toFun c := (c.minTradeSizeLamports, c.maxSlippageBps)
  invFun := fun (minTradeSizeLamports, maxSlippageBps) =>
    { minTradeSizeLamports, maxSlippageBps }

/-- The keys of `[strategies.liquidation]`. -/
def LiquidationConfig.keys : LiquidationConfig f ≃ f UInt16 × f (List String) where
  toFun c := (c.minBonusBps, c.protocols)
  invFun := fun (minBonusBps, protocols) =>
    { minBonusBps, protocols }

/-- The key of `[strategies]` and its three subsections, any of which may be missing. -/
def StrategiesConfig.keys : StrategiesConfig f ≃ f (List String) × Option (DexArbConfig f) ×
    Option (BackrunConfig f) × Option (LiquidationConfig f) where
  toFun c := (c.enabled, c.dexArb, c.backrun, c.liquidation)
  invFun := fun (enabled, dexArb, backrun, liquidation) =>
    { enabled, dexArb, backrun, liquidation }

/-- The keys of `[risk.blacklist]`. -/
def BlacklistConfig.keys : BlacklistConfig f ≃ f (List String) × f (List String) where
  toFun c := (c.tokenMints, c.poolAddresses)
  invFun := fun (tokenMints, poolAddresses) =>
    { tokenMints, poolAddresses }

/-- The keys of `[risk]`, its subsection last. -/
def RiskConfig.keys : RiskConfig F f ≃ f UInt64 × f UInt64 × f F × f UInt64 × f UInt64 ×
    f UInt64 × f (BlacklistConfig f) where
  toFun c := (c.maxPositionLamports, c.maxTipLamports, c.tipFraction, c.dailyLossLimitLamports,
    c.circuitBreakerWindowSecs, c.circuitBreakerMaxLossLamports, c.blacklist)
  invFun := fun (maxPositionLamports, maxTipLamports, tipFraction, dailyLossLimitLamports,
      circuitBreakerWindowSecs, circuitBreakerMaxLossLamports, blacklist) =>
    { maxPositionLamports, maxTipLamports, tipFraction, dailyLossLimitLamports,
      circuitBreakerWindowSecs, circuitBreakerMaxLossLamports, blacklist }

/-- The one key of `[metrics]`. -/
def MetricsConfig.keys : MetricsConfig f ≃ f UInt16 where
  toFun c := c.prometheusPort
  invFun prometheusPort := { prometheusPort }

/-- The keys of `[runtime]`. -/
def RuntimeConfig.keys : RuntimeConfig f ≃ f UInt64 × f Bool × f String where
  toFun c := (c.workerThreads, c.dryRun, c.logLevel)
  invFun := fun (workerThreads, dryRun, logLevel) =>
    { workerThreads, dryRun, logLevel }

/-- The seven sections. -/
def BotConfig.keys : BotConfig F f ≃ f (HeliusConfig f) × f (JitoConfig f) ×
    f (WalletConfig f) × f (StrategiesConfig f) × f (RiskConfig F f) × f (MetricsConfig f) ×
    f (RuntimeConfig f) where
  toFun c := (c.helius, c.jito, c.wallet, c.strategies, c.risk, c.metrics, c.runtime)
  invFun := fun (helius, jito, wallet, strategies, risk, metrics, runtime) =>
    { helius, jito, wallet, strategies, risk, metrics, runtime }

end Keys

/-- How `[helius]` is read: both keys must be there. -/
def heliusTable : Table (HeliusConfig Option) (HeliusConfig Plain) :=
  .record HeliusConfig.keys HeliusConfig.keys (.both .key .key)

/-- How `[jito]` is read. -/
def jitoTable : Table (JitoConfig Option) (JitoConfig Plain) :=
  .record JitoConfig.keys JitoConfig.keys (.both .key .key)

/-- How `[wallet]` is read. -/
def walletTable : Table (WalletConfig Option) (WalletConfig Plain) :=
  .record WalletConfig.keys WalletConfig.keys .key

/-- How `[strategies.dex_arb]` is read, once it is there. -/
def dexArbTable : Table (DexArbConfig Option) (DexArbConfig Plain) :=
  .record DexArbConfig.keys DexArbConfig.keys (.both .key (.both .key .key))

/-- How `[strategies.backrun]` is read, once it is there. -/
def backrunTable : Table (BackrunConfig Option) (BackrunConfig Plain) :=
  .record BackrunConfig.keys BackrunConfig.keys (.both .key .key)

/-- How `[strategies.liquidation]` is read, once it is there. -/
def liquidationTable : Table (LiquidationConfig Option) (LiquidationConfig Plain) :=
  .record LiquidationConfig.keys LiquidationConfig.keys (.both .key .key)

/-- How `[strategies]` is read: the only section whose parts may be missing. -/
def strategiesTable : Table (StrategiesConfig Option) (StrategiesConfig Plain) :=
  .record StrategiesConfig.keys StrategiesConfig.keys <| .both .key <|
    .both dexArbTable.optional <| .both backrunTable.optional liquidationTable.optional

/-- How `[risk.blacklist]` is read. -/
def blacklistTable : Table (BlacklistConfig Option) (BlacklistConfig Plain) :=
  .record BlacklistConfig.keys BlacklistConfig.keys (.both .key .key)

/-- How `[risk]` is read: six keys and the blacklist, all mandatory. -/
def riskTable (F : Type) : Table (RiskConfig F Option) (RiskConfig F Plain) :=
  .record RiskConfig.keys RiskConfig.keys <| .both .key <| .both .key <| .both .key <|
    .both .key <| .both .key <| .both .key blacklistTable.required

/-- How `[metrics]` is read. -/
def metricsTable : Table (MetricsConfig Option) (MetricsConfig Plain) :=
  .record MetricsConfig.keys MetricsConfig.keys .key

/-- How `[runtime]` is read. -/
def runtimeTable : Table (RuntimeConfig Option) (RuntimeConfig Plain) :=
  .record RuntimeConfig.keys RuntimeConfig.keys (.both .key (.both .key .key))

/-- How the file is read: every section must be there. -/
def botTable (F : Type) : Table (BotConfig F Option) (BotConfig F Plain) :=
  .record BotConfig.keys BotConfig.keys <| .both heliusTable.required <|
    .both jitoTable.required <| .both walletTable.required <| .both strategiesTable.required <|
      .both (riskTable F).required <| .both metricsTable.required runtimeTable.required

/-! ## Complete sections

    A section without optional keys hides the one below it. -/

theorem heliusTable_full : heliusTable.Full :=
  (Table.key_full.both Table.key_full).record

theorem jitoTable_full : jitoTable.Full :=
  (Table.key_full.both Table.key_full).record

theorem walletTable_full : walletTable.Full := Table.key_full.record

theorem dexArbTable_full : dexArbTable.Full :=
  (Table.key_full.both (Table.key_full.both Table.key_full)).record

theorem backrunTable_full : backrunTable.Full :=
  (Table.key_full.both Table.key_full).record

theorem liquidationTable_full : liquidationTable.Full :=
  (Table.key_full.both Table.key_full).record

theorem blacklistTable_full : blacklistTable.Full :=
  (Table.key_full.both Table.key_full).record

/-- Also the section that has a section of its own. -/
theorem riskTable_full (F : Type) : (riskTable F).Full :=
  Table.Full.record <| Table.key_full.both <| Table.key_full.both <| Table.key_full.both <|
    Table.key_full.both <| Table.key_full.both <| Table.key_full.both blacklistTable_full.required

theorem metricsTable_full : metricsTable.Full := Table.key_full.record

theorem runtimeTable_full : runtimeTable.Full :=
  (Table.key_full.both (Table.key_full.both Table.key_full)).record

end MevConfig
