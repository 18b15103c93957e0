import MevBot.Configuration

/-! # A configuration and its overlay

    `load_with_overlay` loads the base file, loads the overlay file with the same
    deserializer, and copies three sections of the second over the first.  An
    overlay that leaves a mandatory key out, as the shipped `devnet.toml` does,
    fails to load (`devnet_fails`); what a complete one says about the block
    engine, the wallet, the strategies or the metrics is dropped.  So the bot runs
    with the overlay over the base exactly when the overlay is complete and says
    nothing new there (`overlay_iff`). -/

namespace MevConfig

open LayeredDocuments

variable {F : Type}

/-- `BotConfig::load`, from the document the file holds. -/
def load (content : BotConfig F Option) : Option (BotConfig F Plain) := (botTable F).load content

/-- `BotConfig::merge`. -/
def merge (self other : BotConfig F Plain) : BotConfig F Plain :=
  { self with
    helius := other.helius
    risk := other.risk
    runtime := other.runtime }

/-- `BotConfig::load_with_overlay`; no overlay stands for no path and for a path
    where no file exists. -/
def loadWithOverlay (base : BotConfig F Option) (overlay : Option (BotConfig F Option)) :
    Option (BotConfig F Plain) := do
  let base ← load base
  match overlay with
  | none => return base
  | some overlay =>
      let overlayConfig ← load overlay
      return merge base overlayConfig

/-- What the operator wrote: the overlay's keys over the base's. -/
def overlaid (base : BotConfig F Plain) (overlay : BotConfig F Option) : BotConfig F Option :=
  (botTable F).override ((botTable F).document base) overlay

/-- A complete overlay that says nothing new in the sections `merge` does not copy. -/
structure SaysNothingNew (base overlay : BotConfig F Plain) : Prop where
  jito : overlay.jito = base.jito
  wallet : overlay.wallet = base.wallet
  enabled : overlay.strategies.enabled = base.strategies.enabled
  dexArb : ∀ c, overlay.strategies.dexArb = some c → base.strategies.dexArb = some c
  backrun : ∀ c, overlay.strategies.backrun = some c → base.strategies.backrun = some c
  liquidation :
    ∀ c, overlay.strategies.liquidation = some c → base.strategies.liquidation = some c
  metrics : overlay.metrics = base.metrics

/-! ## What the code yields -/

theorem loadWithOverlay_document {base c : BotConfig F Plain} {overlay : BotConfig F Option} :
    loadWithOverlay ((botTable F).document base) (some overlay) = some c ↔
      ∃ other, overlay = (botTable F).document other ∧ c = merge base other := by
  show ((load ((botTable F).document base)).bind fun b => (load overlay).bind fun o =>
    some (merge b o)) = some c ↔ _
  rw [load, Table.load_document, Option.bind_some, Option.bind_eq_some_iff]
  constructor
  · rintro ⟨other, h, hc⟩
    exact ⟨other, (botTable F).load_iff.mp h, (Option.some.inj hc).symm⟩
  · rintro ⟨other, h, rfl⟩
    exact ⟨other, (botTable F).load_iff.mpr h, rfl⟩

/-! ## What the operator wrote -/

theorem strategies_overlaid (base overlay : StrategiesConfig Plain) :
    strategiesTable.override (strategiesTable.document base) (strategiesTable.document overlay) =
        strategiesTable.document base ↔
      overlay.enabled = base.enabled ∧ (∀ c, overlay.dexArb = some c → base.dexArb = some c) ∧
        (∀ c, overlay.backrun = some c → base.backrun = some c) ∧
          ∀ c, overlay.liquidation = some c → base.liquidation = some c := by
  rw [← dexArbTable_full.optional_unchanged, ← backrunTable_full.optional_unchanged,
    ← liquidationTable_full.optional_unchanged]
  constructor
  · intro h
    injection h with h₁ h₂ h₃ h₄
    exact ⟨Option.some.inj h₁, h₂, h₃, h₄⟩
  · rintro ⟨h₁, h₂, h₃, h₄⟩
    exact StrategiesConfig.keys.injective
      (Prod.ext (congrArg some h₁) (Prod.ext h₂ (Prod.ext h₃ h₄)))

/-- A complete overlay shows through everywhere but in the strategies it leaves out. -/
theorem overlaid_document (base overlay : BotConfig F Plain) :
    overlaid base ((botTable F).document overlay) =
      { (botTable F).document overlay with
        strategies := some (strategiesTable.override (strategiesTable.document base.strategies)
          (strategiesTable.document overlay.strategies)) } := by
  have h : ∀ {D C : Type} {t : Table D C}, t.Full → ∀ b o : C,
      t.required.override (t.required.document b) (t.required.document o) =
        t.required.document o :=
    fun full b o => full.required _ o
  apply BotConfig.keys.injective
  refine Prod.ext (h heliusTable_full ..) (Prod.ext (h jitoTable_full ..) (Prod.ext
    (h walletTable_full ..) (Prod.ext rfl (Prod.ext (h (riskTable_full F) ..) (Prod.ext
      (h metricsTable_full ..) (h runtimeTable_full ..))))))

/-- The merged configuration is the overlay over the base just when the sections
    left out of the merge say nothing new. -/
theorem merge_eq_overlaid (base overlay : BotConfig F Plain) :
    (botTable F).document (merge base overlay) = overlaid base ((botTable F).document overlay) ↔
      SaysNothingNew base overlay := by
  rw [overlaid_document]
  have strategies := strategies_overlaid base.strategies overlay.strategies
  constructor
  · intro h
    injection h with _ jito wallet strat _ metrics _
    obtain ⟨enabled, dexArb, backrun, liquidation⟩ := strategies.mp (Option.some.inj strat).symm
    exact
      { jito := (jitoTable.required.document_inj.mp jito).symm
        wallet := (walletTable.required.document_inj.mp wallet).symm
        enabled, dexArb, backrun, liquidation
        metrics := (metricsTable.required.document_inj.mp metrics).symm }
  · rintro ⟨jito, wallet, enabled, dexArb, backrun, liquidation, metrics⟩
    rw [strategies.mpr ⟨enabled, dexArb, backrun, liquidation⟩]
    have h : merge base overlay =
        { overlay with strategies := base.strategies } := by
      rw [merge, ← jito, ← wallet, ← metrics]
    rw [h]
    rfl

/-- Starting on a base and an overlay gives the overlay's value of every key it
    has and the base's value of the others just when the overlay is complete and
    says nothing new outside the merged sections. -/
theorem overlay_iff (base : BotConfig F Plain) (overlay : BotConfig F Option) :
    (∃ c, loadWithOverlay ((botTable F).document base) (some overlay) = some c ∧
        (botTable F).document c = overlaid base overlay) ↔
      ∃ other, overlay = (botTable F).document other ∧ SaysNothingNew base other := by
  constructor
  · rintro ⟨c, hc, hd⟩
    obtain ⟨other, rfl, rfl⟩ := loadWithOverlay_document.mp hc
    exact ⟨other, rfl, (merge_eq_overlaid base other).mp hd⟩
  · rintro ⟨other, rfl, h⟩
    exact ⟨merge base other, loadWithOverlay_document.mpr ⟨other, rfl, rfl⟩,
      (merge_eq_overlaid base other).mpr h⟩

/-! ## The shipped files -/

/-- `default.toml`; `half` is its tip fraction `0.50`. -/
def defaultToml (half : F) : BotConfig F Plain where
  helius :=
    { rpcEndpoint := "https://mainnet.helius-rpc.com"
      laserstreamEndpoint := "https://laserstream-mainnet.helius-rpc.com" }
  jito := { blockEngineUrl := "https://mainnet.block-engine.jito.wtf", useHeliusProxy := true }
  wallet := { keypairPath := "./bot-keypair.json" }
  strategies :=
    { enabled := ["dex_arb", "backrun", "liquidation"]
      dexArb := some
        { minProfitLamports := (50000 : UInt64)
          maxHops := (3 : UInt8)
          anchorMints := ["So11111111111111111111111111111111111111112",
            "EPjFWdd5AufqSSqeM2qN1xzybapC8G4wEGGkZwyTDt1v",
            "Es9vMFrzaCERmJfrF4H2FYD4KCoNkY11McCe8BenwNYB"] }
      backrun := some
        { minTradeSizeLamports := (100000000000 : UInt64), maxSlippageBps := (50 : UInt16) }
      liquidation := some
        { minBonusBps := (200 : UInt16), protocols := ["kamino", "marginfi", "save"] } }
  risk :=
    { maxPositionLamports := (10000000000 : UInt64)
      maxTipLamports := (5000000 : UInt64)
      tipFraction := half
      dailyLossLimitLamports := (1000000000 : UInt64)
      circuitBreakerWindowSecs := (300 : UInt64)
      circuitBreakerMaxLossLamports := (500000000 : UInt64)
      blacklist := { tokenMints := ([] : List String), poolAddresses := ([] : List String) } }
  metrics := { prometheusPort := (9090 : UInt16) }
  runtime := { workerThreads := (4 : UInt64), dryRun := false, logLevel := "info" }

/-- `devnet.toml`. -/
def devnetToml (F : Type) : BotConfig F Option where
  helius := some
    { rpcEndpoint := some "https://devnet.helius-rpc.com"
      laserstreamEndpoint := some "https://laserstream-devnet.helius-rpc.com" }
  jito := none
  wallet := none
  strategies := none
  risk := some
    { maxPositionLamports := some 1000000000
      maxTipLamports := none
      tipFraction := none
      dailyLossLimitLamports := some 500000000
      circuitBreakerWindowSecs := none
      circuitBreakerMaxLossLamports := none
      blacklist := none }
  metrics := none
  runtime := some { workerThreads := none, dryRun := some true, logLevel := some "debug" }

/-- The shipped overlay does not load over the shipped base. -/
theorem devnet_fails :
    ¬ ∃ c, loadWithOverlay ((botTable Float).document (defaultToml 0.50))
        (some (devnetToml Float)) = some c ∧
      (botTable Float).document c = overlaid (defaultToml 0.50) (devnetToml Float) := by
  rintro ⟨c, h, -⟩
  cases h

end MevConfig
