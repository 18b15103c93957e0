import MevBot.Library.TemplateText

/-! # Environment variables in the configuration text

    `substitute_env_vars` replaces the first `${NAME}` of the text by the value of
    the variable and starts over from the beginning, until there is none left.  So
    values are scanned too: a variable whose value is its own pattern keeps the
    loop going for ever (`selfReference_loops`), and other values are expanded
    once more.  Exactly when nothing written before a pattern opens one, and none
    is left in the end, the loop replaces each pattern of the text once
    (`replacesOnce_iff`). -/

namespace MevEnv

open TemplateText

/-! ## The loop -/

/-- `${` and `}`. -/
def pattern : Marks Char := ⟨'$', '{', '}', by decide, by decide, by decide⟩

/-- The environment, by variable name. -/
abbrev Env := List Char → Option (List Char)

/-- `std::env::var(var_name).unwrap_or_default()`. -/
def Env.value (env : Env) (varName : List Char) : List Char := (env varName).getD []

/-- `substitute_env_vars` on the characters of the text, while the loop takes less than
    `fuel` rounds. -/
def substituteEnvVars (env : Env) : Nat → List Char → Option (List Char)
  | 0, _ => none
  | fuel + 1, result =>
      match splitOpen pattern result with
      | none => some result
      | some (before, opened) =>
          match splitClose pattern opened with
          | some (varName, behind) =>
              substituteEnvVars env fuel (before ++ env.value varName ++ behind)
          -- an unclosed pattern ends the loop
          | none => some result

/-- The variables the loop looks up, one a round. -/
def varNames (env : Env) : Nat → List Char → List (List Char)
  | 0, _ => []
  | fuel + 1, result =>
      match splitOpen pattern result with
      | none => []
      | some (before, opened) =>
          match splitClose pattern opened with
          | some (varName, behind) =>
              varName :: varNames env fuel (before ++ env.value varName ++ behind)
          | none => []

variable {env : Env}

/-- **THE LOOP RESCANS** what it has written. -/
theorem substituteEnvVars_eq (fuel : Nat) (content : List Char) :
    substituteEnvVars env fuel content = rescan pattern env.value fuel content ∧
      varNames env fuel content = lookedUp pattern env.value fuel content := by
  induction fuel generalizing content with
  | zero => exact ⟨rfl, rfl⟩
  | succ fuel ih =>
      rw [substituteEnvVars, varNames, rescan, lookedUp, firstPlaceholder]
      cases splitOpen pattern content with
      | none => exact ⟨rfl, rfl⟩
      | some opened =>
          simp only [Option.bind_some]
          cases splitClose pattern opened.2 with
          | none => exact ⟨rfl, rfl⟩
          | some closed => exact ⟨(ih _).1, congrArg (closed.1 :: ·) (ih _).2⟩

/-! ## Each pattern once -/

/-- The loop ends, has looked up the variables of the text in order, each pattern once, and
    leaves the text with each pattern replaced by its value. -/
def ReplacesOnce (env : Env) (content : List Char) : Prop :=
  ∃ fuel, substituteEnvVars env fuel content = some (expand pattern env.value content) ∧
    varNames env fuel content = names pattern content

/-- The text written when a pattern comes up has no `${`, and in the text with all patterns
    replaced no `${` is closed. -/
def NothingReopened (env : Env) (content : List Char) : Prop :=
  (∀ before ∈ written env.value [] (segments pattern content).parts, Unopened pattern before) ∧
    Settled pattern (expand pattern env.value content)

/-- **WHEN EACH PATTERN IS REPLACED ONCE**, for every text and environment. -/
theorem replacesOnce_iff (env : Env) (content : List Char) :
    ReplacesOnce env content ↔ NothingReopened env content := by
  rw [NothingReopened, ← rescan_iff]
  refine exists_congr fun fuel => ?_
  rw [(substituteEnvVars_eq fuel content).1, (substituteEnvVars_eq fuel content).2]

/-! ## Values with patterns -/

/-- An environment with one variable. -/
def oneVariable (name value : List Char) : Env :=
  fun varName => if varName = name then some value else none

/-- `${A}`. -/
def patternA : List Char := ['$', '{', 'A', '}']

theorem selfReference_round (fuel : Nat) :
    substituteEnvVars (oneVariable ['A'] patternA) (fuel + 1) patternA =
      substituteEnvVars (oneVariable ['A'] patternA) fuel patternA := rfl

/-- **A VARIABLE THAT REFERS TO ITSELF** is substituted for ever. -/
theorem selfReference_loops :
    (∀ fuel, substituteEnvVars (oneVariable ['A'] patternA) fuel patternA = none) ∧
      ¬∀ env content, ReplacesOnce env content := by
  have hloops : ∀ fuel, substituteEnvVars (oneVariable ['A'] patternA) fuel patternA = none := by
    intro fuel
    induction fuel with
    | zero => rfl
    | succ fuel ih => rw [selfReference_round, ih]
  refine ⟨hloops, fun hall => ?_⟩
  obtain ⟨fuel, hresult, -⟩ := hall (oneVariable ['A'] patternA) patternA
  rw [hloops] at hresult
  cases hresult

/-- A value with another pattern is expanded once more. -/
example :
    substituteEnvVars (fun name => some (if name = ['A'] then ['$', '{', 'B', '}'] else ['x'])) 3
      patternA = some ['x'] := by
  decide

end MevEnv
