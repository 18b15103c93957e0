import MevBot.Types

/-! # Risk controls and accounting

    The per-opportunity limits, the blacklist, the rolling-loss circuit
    breaker and the session P&L counters. -/

namespace MevRisk

open MevMachine MevTypes

variable {F : Type}

/-! ## Limits -/

inductive RiskCheckResult where
  | approved
  | rejected (reason : String)
deriving DecidableEq, Repr

/-- `RiskCheckResult::is_approved`. -/
def RiskCheckResult.isApproved : RiskCheckResult → Bool
  | .approved => true
  | .rejected _ => false

structure RiskLimits (F : Type) where
  maxPositionLamports : UInt64
  minProfitLamports : Int64
  maxTipLamports : UInt64
  tipFraction : F

/-- `RiskLimits::check`: minimum profit, then the position size of the first
    hop. -/
def RiskLimits.check (r : RiskLimits F) (opportunity : Opportunity) : RiskCheckResult :=
  if opportunity.expectedProfitLamports < r.minProfitLamports then
    .rejected "Below min profit threshold"
  else
    match opportunity.path.head? with
    | some firstStep =>
        if firstStep.amountIn > r.maxPositionLamports then .rejected "Exceeds max position size"
        else .approved
    | none => .approved

/-- `RiskLimits::calculate_tip`: a fraction of the profit, floored at the
    minimum tip and capped last. -/
def RiskLimits.calculateTip [F64 F] (r : RiskLimits F) (profitLamports : Int64) : UInt64 :=
  if profitLamports ≤ 0 then MIN_TIP_LAMPORTS
  else
    let tip := F64.toU64 (F64.ofInt profitLamports.toInt * r.tipFraction)
    min (max tip MIN_TIP_LAMPORTS) r.maxTipLamports

/-! ## Blacklist -/

/-- The two blacklists, each a set of keys. -/
structure Blacklist where
  tokenMints : List Pubkey
  poolAddresses : List Pubkey

/-- `Blacklist::is_token_blacklisted`. -/
def Blacklist.isTokenBlacklisted (b : Blacklist) (mint : Pubkey) : Bool :=
  decide (mint ∈ b.tokenMints)

/-- `Blacklist::is_pool_blacklisted`. -/
def Blacklist.isPoolBlacklisted (b : Blacklist) (address : Pubkey) : Bool :=
  decide (address ∈ b.poolAddresses)

/-- `Blacklist::check_opportunity`: false when any step is blacklisted. -/
def Blacklist.checkOpportunity (b : Blacklist) (opportunity : Opportunity) : Bool :=
  opportunity.path.all fun step =>
    !(b.isPoolBlacklisted step.poolAddress
      || (b.isTokenBlacklisted step.inputMint || b.isTokenBlacklisted step.outputMint))

/-! ## Circuit breaker -/

/-- `CircuitBreaker`; clock readings and the window are nanoseconds. -/
structure CircuitBreaker where
  trades : List (Nat × Int64)
  tripped : Bool
  trippedAt : Option Nat
  window : Nat
  maxLossLamports : Int64

/-- `CircuitBreaker::new`. -/
def CircuitBreaker.new (windowSecs : Nat) (maxLossLamports : Int64) : CircuitBreaker :=
  ⟨[], false, none, windowSecs * 1000000000, maxLossLamports⟩

/-- `CircuitBreaker::record_trade`: only the OLDEST trades are evicted, while
    they are outside the window. -/
def CircuitBreaker.recordTrade (c : CircuitBreaker) (profitLamports : Int64) (now : Nat) :
    CircuitBreaker :=
  let trades := (c.trades ++ [(now, profitLamports)]).dropWhile
    fun t => decide (now - t.1 > c.window)
  let cumulative := (trades.map (·.2)).sum
  if cumulative < -c.maxLossLamports ∧ c.tripped = false then
    { c with trades, tripped := true, trippedAt := some now }
  else { c with trades }

/-- `CircuitBreaker::is_allowed`. -/
def CircuitBreaker.isAllowed (c : CircuitBreaker) : Bool := !c.tripped

/-- `CircuitBreaker::reset`. -/
def CircuitBreaker.reset (c : CircuitBreaker) : CircuitBreaker :=
  { c with trades := [], tripped := false, trippedAt := none }

/-- `CircuitBreaker::rolling_pnl`. -/
def CircuitBreaker.rollingPnl (c : CircuitBreaker) (now : Nat) : Int64 :=
  ((c.trades.filter fun t => decide (now - t.1 ≤ c.window)).map (·.2)).sum

/-! ## Profit and loss -/

/-- `PnlTracker`: five wrapping counters. -/
structure PnlTracker where
  totalProfitLamports : Int64
  totalTipLamports : UInt64
  totalOpportunities : UInt64
  totalBundlesSubmitted : UInt64
  totalBundlesLanded : UInt64
deriving DecidableEq, Repr

/-- `PnlTracker::new`. -/
def PnlTracker.new : PnlTracker := ⟨0, 0, 0, 0, 0⟩

/-- `PnlTracker::record_opportunity`. -/
def PnlTracker.recordOpportunity (p : PnlTracker) : PnlTracker :=
  { p with totalOpportunities := p.totalOpportunities + 1 }

/-- `PnlTracker::record_bundle_submitted`. -/
def PnlTracker.recordBundleSubmitted (p : PnlTracker) : PnlTracker :=
  { p with totalBundlesSubmitted := p.totalBundlesSubmitted + 1 }

/-- `PnlTracker::record_bundle_landed`. -/
def PnlTracker.recordBundleLanded (p : PnlTracker) (profitLamports : Int64)
    (tipLamports : UInt64) : PnlTracker :=
  { p with
    totalBundlesLanded := p.totalBundlesLanded + 1
    totalProfitLamports := p.totalProfitLamports + profitLamports
    totalTipLamports := p.totalTipLamports + tipLamports }

end MevRisk
