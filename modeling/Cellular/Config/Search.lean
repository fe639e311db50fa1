import Cellular.Config.Automaton
import Cellular.Decimal.Shortest

/-!
# Search configurations

Population size, rates, selection method, fitness weights and targets of a
genetic search.  `check` reports the first fault; a rate that is no number is
outside every range.
-/

namespace Cellular

inductive SelectionMethod where
  | rouletteWheel
  | rank
  | steadyState
  | tournament
  | elitism
  | random
  deriving DecidableEq, Repr

namespace SelectionMethod

def all : List SelectionMethod :=
  [rouletteWheel, rank, steadyState, tournament, elitism, random]

def title : SelectionMethod → String
  | rouletteWheel => "Roulette Wheel"
  | rank => "Rank"
  | steadyState => "Steady State"
  | tournament => "Tournament"
  | elitism => "Elitism"
  | random => "Random"

def key : SelectionMethod → String
  | rouletteWheel => "roulette_wheel"
  | rank => "rank"
  | steadyState => "steady_state"
  | tournament => "tournament"
  | elitism => "elitism"
  | random => "random"

def ofKey? (key : String) : Option SelectionMethod :=
  all.find? fun method => method.key = key

end SelectionMethod

structure FitnessWeights where
  generation : Float
  population : Float
  initialSize : Float

def FitnessWeights.standard : FitnessWeights := ⟨1.0, 0.0, 0.0⟩

/-- Where an evaluation and a whole search end.  Zero means no such end. -/
structure Targets where
  generations : Nat
  population : Nat
  epochs : Nat
  deriving DecidableEq, Repr

def Targets.standard : Targets := ⟨100, 0, 10⟩

structure SearchConfig where
  populationSize : Nat
  crossoverRate : Float
  mutationRate : Float
  selection : SelectionMethod
  fitness : FitnessWeights
  targets : Targets
  /-- Chromosomes that elitism keeps as they are. -/
  elites : Nat
  /-- How likely the fitter one of two contenders wins. -/
  tournamentWinRate : Float
  /-- The share of the population that steady state recombines. -/
  unfitFraction : Float
  randomSeed : Option Nat

inductive SearchConfigError where
  | populationTooSmall
  | invalidProbability (name : String) (value : Float)
  | negativeMultiplier (name : String) (value : Float)
  | unboundedEvaluation
  | tooManyElites (elites population : Nat)
  | noLiveStates
  | noRules
  | automaton (error : ConfigError)

def SearchConfigError.message : SearchConfigError → String
  | .populationTooSmall => "Population size must be at least 2"
  | .invalidProbability name value =>
      name ++ " must be within [0, 1] (got " ++ Decimal.shortest value ++ ")"
  | .negativeMultiplier name value =>
      name ++ " multiplier must be non-negative (got " ++
        Decimal.shortest value ++ ")"
  | .unboundedEvaluation =>
      "Generation and population targets cannot both be zero"
  | .tooManyElites elites population =>
      "Elite count " ++ toString elites ++
        " must be below the population size " ++ toString population
  | .noLiveStates => "At least one state besides FREE is required"
  | .noRules => "At least one rule is required"
  | .automaton error => "Automaton config validation failed: " ++ error.message

namespace SearchConfig

def standard : SearchConfig :=
  ⟨30, 0.25, 0.01, .rouletteWheel, .standard, .standard, 2, 0.75, 0.1, none⟩

def checkProbability (name : String) (value : Float) :
    Except SearchConfigError Unit :=
  if 0.0 ≤ value ∧ value ≤ 1.0 then .ok ()
  else .error (.invalidProbability name value)

def checkMultiplier (name : String) (value : Float) :
    Except SearchConfigError Unit :=
  if 0.0 ≤ value then .ok () else .error (.negativeMultiplier name value)

def check (config : SearchConfig) : Except SearchConfigError Unit := do
  if config.populationSize < 2 then .error .populationTooSmall
  checkProbability "Crossover rate" config.crossoverRate
  checkProbability "Mutation rate" config.mutationRate
  checkProbability "Tournament win rate" config.tournamentWinRate
  checkProbability "Unfit fraction" config.unfitFraction
  checkMultiplier "Generation" config.fitness.generation
  checkMultiplier "Population" config.fitness.population
  checkMultiplier "Initial size" config.fitness.initialSize
  if config.targets.generations = 0 ∧ config.targets.population = 0 then
    .error .unboundedEvaluation
  if config.selection = .elitism ∧ config.populationSize ≤ config.elites then
    .error (.tooManyElites config.elites config.populationSize)

end SearchConfig

end Cellular
