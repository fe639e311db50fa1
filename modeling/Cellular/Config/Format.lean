import Cellular.Config.Delay
import Cellular.Config.Search
import Cellular.Json.Printer
import Cellular.Json.Reader

/-!
# Configuration files

Configurations as JSON.  Reading fills in the standard values of fields that are
not given and refuses names that may not be declared; writing states every field
in the order of its declaration.
-/

namespace Cellular

/-! ## Reading -/

namespace StateUniverse

def ofJson? (value : Json) : Option StateUniverse := do
  let names ← value.list? Json.text?
  (ofNames names).toOption

def toJson (states : StateUniverse) : Json :=
  .array (states.userNames.map Json.ofString)

end StateUniverse

namespace Neighborhood

def ofJson? (value : Json) : Option Neighborhood := do
  let directions ← value.list? (Json.variant? Direction.ofName?)
  some (ofList directions)

def toJson (neighborhood : Neighborhood) : Json :=
  .array (neighborhood.names.map Json.ofString)

end Neighborhood

namespace Limits

def fieldNames : List String :=
  ["state_chars_min", "state_chars_max", "rule_chars_max", "rules_max"]

def ofJson? (value : Json) : Option Limits := do
  let record ← value.record? fieldNames
  let standard := Limits.standard
  some {
    stateCharsMin :=
      ← record.optional "state_chars_min" standard.stateCharsMin Json.word?
    stateCharsMax :=
      ← record.optional "state_chars_max" standard.stateCharsMax Json.word?
    ruleCharsMax :=
      ← record.optional "rule_chars_max" standard.ruleCharsMax Json.word?
    rulesMax := ← record.optional "rules_max" standard.rulesMax Json.word? }

def toJson (limits : Limits) : Json :=
  .ofMembers [
    ("state_chars_min", .ofNat limits.stateCharsMin),
    ("state_chars_max", .ofNat limits.stateCharsMax),
    ("rule_chars_max", .ofNat limits.ruleCharsMax),
    ("rules_max", .ofNat limits.rulesMax)]

end Limits

namespace AutomatonConfig

def fieldNames : List String :=
  ["states", "neighborhood", "width", "height", "rules", "limits"]

def ofJson? (value : Json) : Option AutomatonConfig := do
  let record ← value.record? fieldNames
  some {
    states := ← record.required "states" StateUniverse.ofJson?
    neighborhood :=
      ← record.optional "neighborhood" .moore Neighborhood.ofJson?
    width := ← record.required "width" Json.word?
    height := ← record.required "height" Json.word?
    rules := ← record.optional "rules" "" Json.text?
    limits := ← record.optional "limits" .standard Limits.ofJson? }

def parse? (text : String) : Option AutomatonConfig := do
  ofJson? (← Json.parse? text)

def toJson (config : AutomatonConfig) : Json :=
  .ofMembers [
    ("states", config.states.toJson),
    ("neighborhood", config.neighborhood.toJson),
    ("width", .ofNat config.width),
    ("height", .ofNat config.height),
    ("rules", .ofString config.rules),
    ("limits", config.limits.toJson)]

end AutomatonConfig

namespace FitnessWeights

def fieldNames : List String := ["generation", "population", "initial_size"]

def ofJson? (value : Json) : Option FitnessWeights := do
  let record ← value.record? fieldNames
  let standard := FitnessWeights.standard
  some {
    generation := ← record.optional "generation" standard.generation Json.float?
    population := ← record.optional "population" standard.population Json.float?
    initialSize :=
      ← record.optional "initial_size" standard.initialSize Json.float? }

def toJson (weights : FitnessWeights) : Json :=
  .ofMembers [
    ("generation", .ofFloat weights.generation),
    ("population", .ofFloat weights.population),
    ("initial_size", .ofFloat weights.initialSize)]

end FitnessWeights

namespace Targets

def fieldNames : List String := ["generations", "population", "epochs"]

def ofJson? (value : Json) : Option Targets := do
  let record ← value.record? fieldNames
  let standard := Targets.standard
  some {
    generations := ← record.optional "generations" standard.generations Json.word?
    population := ← record.optional "population" standard.population Json.word?
    epochs := ← record.optional "epochs" standard.epochs Json.word? }

def toJson (targets : Targets) : Json :=
  .ofMembers [
    ("generations", .ofNat targets.generations),
    ("population", .ofNat targets.population),
    ("epochs", .ofNat targets.epochs)]

end Targets

namespace SearchConfig

def fieldNames : List String :=
  ["population_size", "crossover_rate", "mutation_rate", "selection", "fitness",
    "targets", "elites", "tournament_win_rate", "unfit_fraction", "random_seed"]

def ofJson? (value : Json) : Option SearchConfig := do
  let record ← value.record? fieldNames
  let standard := SearchConfig.standard
  some {
    populationSize :=
      ← record.optional "population_size" standard.populationSize Json.word?
    crossoverRate :=
      ← record.optional "crossover_rate" standard.crossoverRate Json.float?
    mutationRate :=
      ← record.optional "mutation_rate" standard.mutationRate Json.float?
    selection :=
      ← record.optional "selection" standard.selection
        (Json.variant? SelectionMethod.ofKey?)
    fitness := ← record.optional "fitness" standard.fitness FitnessWeights.ofJson?
    targets := ← record.optional "targets" standard.targets Targets.ofJson?
    elites := ← record.optional "elites" standard.elites Json.word?
    tournamentWinRate :=
      ← record.optional "tournament_win_rate" standard.tournamentWinRate
        Json.float?
    unfitFraction :=
      ← record.optional "unfit_fraction" standard.unfitFraction Json.float?
    randomSeed :=
      ← record.optional "random_seed" standard.randomSeed
        (Json.orNull? Json.word?) }

def parse? (text : String) : Option SearchConfig := do
  ofJson? (← Json.parse? text)

def toJson (config : SearchConfig) : Json :=
  .ofMembers [
    ("population_size", .ofNat config.populationSize),
    ("crossover_rate", .ofFloat config.crossoverRate),
    ("mutation_rate", .ofFloat config.mutationRate),
    ("selection", .ofString config.selection.key),
    ("fitness", config.fitness.toJson),
    ("targets", config.targets.toJson),
    ("elites", .ofNat config.elites),
    ("tournament_win_rate", .ofFloat config.tournamentWinRate),
    ("unfit_fraction", .ofFloat config.unfitFraction),
    ("random_seed", (config.randomSeed.map Json.ofNat).getD .null)]

end SearchConfig

namespace PlaybackDelay

def ofJson? (value : Json) : Option PlaybackDelay := do
  (ofMillis (← value.word?)).toOption

def parse? (text : String) : Option PlaybackDelay := do
  ofJson? (← Json.parse? text)

end PlaybackDelay

end Cellular
