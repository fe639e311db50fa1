import Cellular.Rule.Compilation
import Cellular.Word

/-!
# Automaton configurations

States, neighborhood, extent, rule text and compiler limits of one automaton.
`check` reports the first fault; an accepted extent has an addressable area.
-/

namespace Cellular

inductive LimitsError where
  | emptyLengthRange (least most : Nat)
  | noRules
  deriving DecidableEq, Repr

def LimitsError.message : LimitsError → String
  | .emptyLengthRange least most =>
      "state name length bounds " ++ toString least ++ "..=" ++
        toString most ++ " are empty"
  | .noRules => "rule count limit must be non-zero"

inductive ConfigError where
  | invalidDimensions
  | emptyNeighborhood
  | invalidLimits (error : LimitsError)
  | invalidDelay (millis : Nat)
  | state (error : StateError)
  deriving DecidableEq, Repr

def ConfigError.message : ConfigError → String
  | .invalidDimensions =>
      "Grid dimensions (width, height) must be non-zero and addressable"
  | .emptyNeighborhood => "Neighborhood must contain at least one direction"
  | .invalidLimits error => "Invalid compiler limits: " ++ error.message
  | .invalidDelay millis =>
      "Playback delay must be one of 100, 250, 500, 1000 or 2000 ms (got " ++
        toString millis ++ ")"
  | .state error => error.message

def Limits.check (limits : Limits) : Except LimitsError Unit :=
  if limits.stateCharsMin = 0 ∨ limits.stateCharsMax < limits.stateCharsMin then
    .error (.emptyLengthRange limits.stateCharsMin limits.stateCharsMax)
  else if limits.rulesMax = 0 then .error .noRules
  else .ok ()

structure AutomatonConfig where
  states : StateUniverse
  neighborhood : Neighborhood
  width : Nat
  height : Nat
  rules : String
  limits : Limits

namespace AutomatonConfig

def lifeRules : String :=
  "! birth\n" ++
  "FREE / ALIVE : ( ALL @ = 3#ALIVE ) ;\n" ++
  "! death by isolation or overcrowding\n" ++
  "ALIVE / FREE : ( ALL @ = -2#ALIVE | +3#ALIVE ) ;\n"

def lifeStates : StateUniverse :=
  match StateUniverse.ofNames ["ALIVE"] with
  | .ok states => states
  | .error _ => .freeOnly

def standard : AutomatonConfig :=
  ⟨lifeStates, .moore, 64, 64, lifeRules, .standard⟩

def isAddressable (width height : Nat) : Bool :=
  width ≠ 0 && height ≠ 0 && width * height < Word.signedBound

def refusedName? (config : AutomatonConfig) : Option String :=
  config.states.userNames.find? fun name =>
    !config.limits.admitsLength name.length

def check (config : AutomatonConfig) : Except ConfigError Unit := do
  if !isAddressable config.width config.height then
    .error .invalidDimensions
  else if config.neighborhood.isEmpty then .error .emptyNeighborhood
  else
    match config.limits.check with
    | .error error => .error (.invalidLimits error)
    | .ok () =>
        match config.refusedName? with
        | some name =>
            .error (.state (.invalidLength name config.limits.stateCharsMin
              config.limits.stateCharsMax))
        | none => .ok ()

def compiler (config : AutomatonConfig) : Compiler :=
  ⟨config.states, config.neighborhood, config.limits⟩

def compile (config : AutomatonConfig) : Compilation :=
  config.compiler.compile config.rules

end AutomatonConfig

end Cellular
