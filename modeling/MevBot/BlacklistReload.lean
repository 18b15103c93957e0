import MevBot.Configuration
import MevBot.Library.RollingUpdate
import MevBot.RiskControls

/-! # Reloading the blacklist under a check

    `check_opportunity` takes a read lock for every single lookup, and `reload`
    replaces the tokens under one write lock and the pools under another.  So a
    check that runs through a reload sees the tokens and the pools of different
    configurations, and passes an opportunity that both configurations block
    (`reload_gap`).  That no interleaving does takes an offending lookup of the
    old configuration with one of the new at or behind it (`safeReload_iff`). -/

namespace MevReload

open MevMachine MevTypes MevRisk RollingUpdate

/-! ## Blacklists from configurations -/

/-- `[risk.blacklist]` as loaded. -/
abbrev BlacklistConfig : Type := MevConfig.BlacklistConfig MevConfig.Plain

section Parse

variable (parse : String → Option Pubkey)

/-- The keys of the strings that `Pubkey::from_str` takes; the others are skipped. -/
def parsedKeys (keys : List String) : List Pubkey := keys.filterMap parse

/-- `Blacklist::from_config`. -/
def fromConfig (config : BlacklistConfig) : Blacklist :=
  ⟨parsedKeys parse config.tokenMints, parsedKeys parse config.poolAddresses⟩

end Parse

/-- The opportunity goes through a listed pool or trades a listed token. -/
def Uses (b : Blacklist) (opportunity : Opportunity) : Prop :=
  ∃ step ∈ opportunity.path, step.poolAddress ∈ b.poolAddresses ∨
    step.inputMint ∈ b.tokenMints ∨ step.outputMint ∈ b.tokenMints

instance (b : Blacklist) (opportunity : Opportunity) : Decidable (Uses b opportunity) :=
  inferInstanceAs (Decidable (∃ step ∈ opportunity.path, _))

/-! ## Lookups -/

/-- What `check_opportunity` looks up. -/
inductive Lookup where
  | pool (address : Pubkey)
  | token (mint : Pubkey)
deriving DecidableEq, Repr

/-- One lookup, under its own read lock. -/
def hits (b : Blacklist) : Lookup → Bool
  | .pool address => b.isPoolBlacklisted address
  | .token mint => b.isTokenBlacklisted mint

/-- The lookups of `check_opportunity` in order. -/
def lookups (path : List SwapStep) : List Lookup :=
  path.flatMap fun step =>
    [.pool step.poolAddress, .token step.inputMint, .token step.outputMint]

theorem uses_iff {b : Blacklist} {opportunity : Opportunity} :
    Uses b opportunity ↔ ∃ l ∈ lookups opportunity.path, hits b l = true := by
  simp only [Uses, lookups, List.mem_flatMap]
  constructor
  · rintro ⟨step, hstep, h | h | h⟩
    · exact ⟨.pool step.poolAddress, ⟨step, hstep, by simp⟩, decide_eq_true h⟩
    · exact ⟨.token step.inputMint, ⟨step, hstep, by simp⟩, decide_eq_true h⟩
    · exact ⟨.token step.outputMint, ⟨step, hstep, by simp⟩, decide_eq_true h⟩
  · rintro ⟨l, ⟨step, hstep, hl⟩, hhit⟩
    refine ⟨step, hstep, ?_⟩
    simp only [List.mem_cons, List.not_mem_nil, or_false] at hl
    rcases hl with rfl | rfl | rfl
    · exact Or.inl (of_decide_eq_true hhit)
    · exact Or.inr (Or.inl (of_decide_eq_true hhit))
    · exact Or.inr (Or.inr (of_decide_eq_true hhit))

/-- **UNDISTURBED**, the check refuses just the opportunities that use a listed key. -/
theorem checkOpportunity_eq_false {b : Blacklist} {opportunity : Opportunity} :
    b.checkOpportunity opportunity = false ↔ Uses b opportunity := by
  simp only [Blacklist.checkOpportunity, Blacklist.isPoolBlacklisted,
    Blacklist.isTokenBlacklisted, List.all_eq_false, Bool.not_eq_true, Bool.not_eq_false',
    Bool.or_eq_true, decide_eq_true_eq]
  rfl

/-- The lookups, one after the other, are the check. -/
theorem scan_check (b : Blacklist) (opportunity : Opportunity) :
    (Scan.step (hits b))^[(lookups opportunity.path).length + 1]
        (.asking (lookups opportunity.path)) = .done (b.checkOpportunity opportunity) := by
  rw [scan_alone _ (Nat.lt_succ_self _)]
  refine congrArg Scan.done (Bool.eq_iff_iff.mpr (not_iff_not.mp ?_))
  rw [Bool.not_eq_true, Bool.not_eq_true, checkOpportunity_eq_false, uses_iff,
    Bool.not_eq_false', List.any_eq_true]

/-! ## The reload -/

/-- Which critical section of `reload` comes next. -/
inductive ReloadStage where
  | tokens
  | pools
  | finished
deriving DecidableEq, Repr

/-- The shared blacklist, a `reload` and a `check_opportunity` in progress. -/
structure Shared where
  blacklist : Blacklist
  reload : ReloadStage
  check : Scan Lookup

section Run

variable (parse : String → Option Pubkey) (config : BlacklistConfig)

/-- The next critical section of `reload`: one set is cleared and filled under its write
    lock. -/
def reloadStep (s : Shared) : Shared :=
  match s.reload with
  | .tokens =>
      { s with
        blacklist := { s.blacklist with tokenMints := parsedKeys parse config.tokenMints }
        reload := .pools }
  | .pools =>
      { s with
        blacklist := { s.blacklist with poolAddresses := parsedKeys parse config.poolAddresses }
        reload := .finished }
  | .finished => s

/-- One atomic step: a lookup, or a critical section of `reload`. -/
def turn (s : Shared) : Turn → Shared
  | .reader => { s with check := s.check.step (hits s.blacklist) }
  | .writer => reloadStep parse config s

/-- The state after an interleaving. -/
def after (s : Shared) (turns : List Turn) : Shared := turns.foldl (turn parse config) s

/-- A check and a reload about to begin. -/
def start (old : BlacklistConfig) (opportunity : Opportunity) : Shared :=
  ⟨fromConfig parse old, .tokens, .asking (lookups opportunity.path)⟩

end Run

/-! ## A rolling update -/

/-- Tokens are replaced first. -/
def rank : Lookup → Nat
  | .token _ => 0
  | .pool _ => 1

/-- How many sets have been replaced. -/
def ReloadStage.replaced : ReloadStage → Nat
  | .tokens => 0
  | .pools => 1
  | .finished => 2

def Shared.view (s : Shared) : State Lookup := ⟨s.reload.replaced, s.check⟩

/-- The blacklist while `reload` stands before a stage. -/
def mixed (old new : Blacklist) : ReloadStage → Blacklist
  | .tokens => old
  | .pools => ⟨new.tokenMints, old.poolAddresses⟩
  | .finished => new

theorem hits_mixed (old new : Blacklist) (stage : ReloadStage) :
    hits (mixed old new stage) = answer (hits old) (hits new) rank stage.replaced := by
  funext l
  cases stage with
  | tokens => rfl
  | pools =>
      cases l with
      | pool address => rfl
      | token mint => rfl
  | finished =>
      cases l with
      | pool address => rfl
      | token mint => rfl

section Simulation

variable {parse : String → Option Pubkey} {old : Blacklist} {new : BlacklistConfig}

/-- **ONE STEP** of either party is a step of the rolling update. -/
theorem turn_view {s : Shared} (h : s.blacklist = mixed old (fromConfig parse new) s.reload)
    (t : Turn) :
    (turn parse new s t).blacklist =
        mixed old (fromConfig parse new) (turn parse new s t).reload ∧
      (turn parse new s t).view =
        step (hits old) (hits (fromConfig parse new)) rank 2 s.view t := by
  obtain ⟨blacklist, stage, check⟩ := s
  dsimp only at h
  subst h
  cases t with
  | reader =>
      refine ⟨rfl, ?_⟩
      rw [step, Shared.view, turn, hits_mixed]
      rfl
  | writer =>
      cases stage with
      | tokens => exact ⟨rfl, rfl⟩
      | pools => exact ⟨rfl, rfl⟩
      | finished => exact ⟨rfl, rfl⟩

/-- An interleaving is one of the rolling update. -/
theorem after_view {s : Shared} (h : s.blacklist = mixed old (fromConfig parse new) s.reload)
    (turns : List Turn) :
    (after parse new s turns).view =
      run (hits old) (hits (fromConfig parse new)) rank 2 s.view turns := by
  induction turns generalizing s with
  | nil => rfl
  | cons t turns ih =>
      obtain ⟨hblacklist, hview⟩ := turn_view h t
      refine (ih hblacklist).trans ?_
      rw [hview]
      rfl

end Simulation

theorem replaced_eq_two {stage : ReloadStage} : stage.replaced = 2 ↔ stage = .finished := by
  cases stage with
  | tokens => decide
  | pools => decide
  | finished => decide

/-! ## The theorem -/

section Safe

variable (parse : String → Option Pubkey) (old new : BlacklistConfig) (opportunity : Opportunity)

/-- An opportunity that either configuration blocks is blocked, however a reload from the
    one to the other interleaves with the check. -/
def SafeReload : Prop :=
  Uses (fromConfig parse old) opportunity → Uses (fromConfig parse new) opportunity →
    ∀ turns, (after parse new (start parse old opportunity) turns).reload = .finished →
      ∀ ok, (after parse new (start parse old opportunity) turns).check = .done ok → ok = false

/-- A lookup that the old configuration blocks comes before, or is, one that the new one
    blocks; a token goes with a token only. -/
def BlockedThroughout : Prop :=
  Overlaps (hits (fromConfig parse old)) (hits (fromConfig parse new)) rank
    (lookups opportunity.path)

/-- **WHEN A RELOAD IS SAFE**, for all configurations and opportunities, over all
    interleavings. -/
theorem safeReload_iff :
    SafeReload parse old new opportunity ↔
      (Uses (fromConfig parse old) opportunity → Uses (fromConfig parse new) opportunity →
        BlockedThroughout parse old new opportunity) := by
  refine imp_congr_right fun _ => imp_congr_right fun _ => ?_
  have hrank : ∀ l ∈ lookups opportunity.path, rank l < 2 := by
    intro l _
    cases l with
    | pool address => exact Nat.lt_succ_self 1
    | token mint => exact Nat.zero_lt_succ 1
  rw [BlockedThroughout, ← never_passes_iff hrank]
  refine forall_congr' fun turns => ?_
  have hview : (after parse new (start parse old opportunity) turns).view =
      run (hits (fromConfig parse old)) (hits (fromConfig parse new)) rank 2
        (start parse old opportunity).view turns := after_view rfl turns
  rw [← show (start parse old opportunity).view = ⟨0, .asking (lookups opportunity.path)⟩ from rfl,
    ← hview]
  refine imp_congr replaced_eq_two.symm ⟨fun hsafe hpassed => ?_, fun hnever ok hok => ?_⟩
  · exact absurd (hsafe true hpassed) (by decide)
  · exact Bool.eq_false_iff.mpr fun htrue => hnever (htrue ▸ hok)

end Safe

/-! ## A gap -/

/-- `Pubkey::from_str` on two of the program ids. -/
def sampleParse (key : String) : Option Pubkey :=
  if key = "675kPX9MHTjS2zt1qfr1NYHuzeLXfQM9H24wFSUt1Mp8" then some RAYDIUM_AMM_V4
  else if key = "whirLbMiicVdio4qvUfM5KAg6Ct8VwpYzGff3uctyCc" then some ORCA_WHIRLPOOL
  else none

/-- A swap through the pool `ORCA_WHIRLPOOL`, of the token `RAYDIUM_AMM_V4`. -/
def sampleStep : SwapStep :=
  { poolAddress := ORCA_WHIRLPOOL, dexType := .orcaWhirlpool, inputMint := RAYDIUM_AMM_V4,
    outputMint := Pubkey.default, amountIn := 1000, minAmountOut := 900, instructions := [] }

def sampleSwap : Opportunity :=
  { strategy := "dex_arb", path := [sampleStep], expectedProfitLamports := 50000,
    estimatedComputeUnits := 200000, detectedAtSlot := 100 }

/-- Blocks the token. -/
def blocksToken : BlacklistConfig := ⟨["675kPX9MHTjS2zt1qfr1NYHuzeLXfQM9H24wFSUt1Mp8"], []⟩

/-- Blocks the pool instead. -/
def blocksPool : BlacklistConfig := ⟨[], ["whirLbMiicVdio4qvUfM5KAg6Ct8VwpYzGff3uctyCc"]⟩

/-- The pool is looked up, the tokens are replaced, and the check goes on. -/
def gapTurns : List Turn := [.reader, .writer, .reader, .reader, .reader, .writer]

/-- **THE GAP**: both configurations block the swap, and the check passes it. -/
theorem reload_gap :
    Uses (fromConfig sampleParse blocksToken) sampleSwap ∧
      Uses (fromConfig sampleParse blocksPool) sampleSwap ∧
      (after sampleParse blocksPool (start sampleParse blocksToken sampleSwap) gapTurns).reload =
        .finished ∧
      (after sampleParse blocksPool (start sampleParse blocksToken sampleSwap) gapTurns).check =
        .done true ∧
      ¬∀ parse old new opportunity, SafeReload parse old new opportunity := by
  have hold : Uses (fromConfig sampleParse blocksToken) sampleSwap := by decide +kernel
  have hnew : Uses (fromConfig sampleParse blocksPool) sampleSwap := by decide +kernel
  have hfinished : (after sampleParse blocksPool (start sampleParse blocksToken sampleSwap)
      gapTurns).reload = .finished := by decide +kernel
  have hpassed : (after sampleParse blocksPool (start sampleParse blocksToken sampleSwap)
      gapTurns).check = .done true := by decide +kernel
  refine ⟨hold, hnew, hfinished, hpassed, fun hall => ?_⟩
  have hfalse := hall sampleParse blocksToken blocksPool sampleSwap hold hnew gapTurns hfinished
    true hpassed
  cases hfalse

end MevReload
