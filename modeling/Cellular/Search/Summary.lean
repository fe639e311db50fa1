import Cellular.Decimal.Fixed
import Cellular.Search.Engine

/-!
# Summaries of searches

What a search came to and how it was configured, as text for people.
-/

namespace Cellular.SearchResult

def summaryParagraphs (result : SearchResult) (config : SearchConfig) :
    List (List (String × String)) :=
  let best := result.best.stats
  let measure := Decimal.fixed 6
  [[("Elapsed", Decimal.fixed 1 result.stats.elapsedSeconds ++ " s"),
      ("Epoch", toString result.stats.epochs)],
    [("Reached generation", toString best.generations),
      ("Reached avg. population", toString best.averagePopulation),
      ("Initial size", toString best.initialSize),
      ("Fitness", measure best.fitness.toFloat)],
    [("Selection Method", config.selection.title),
      ("Population Size", toString config.populationSize),
      ("Probability of Mutation", measure config.mutationRate),
      ("Probability of Crossover", measure config.crossoverRate)],
    [("Generation Multiplier", measure config.fitness.generation),
      ("Population Multiplier", measure config.fitness.population),
      ("Initial Size Multiplier", measure config.fitness.initialSize)],
    [("Epochs Target", toString config.targets.epochs),
      ("Generation Target", toString config.targets.generations),
      ("Population Target", toString config.targets.population)]]

def summary (result : SearchResult) (config : SearchConfig) : String :=
  "\n\n".intercalate
    ((result.summaryParagraphs config).map fun paragraph =>
      "\n".intercalate
        (paragraph.map fun (label, value) => label ++ ": " ++ value))

end Cellular.SearchResult
