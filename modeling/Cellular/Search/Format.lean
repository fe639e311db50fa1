import Cellular.Config.Format
import Cellular.Search.Engine

/-!
# Results of searches as data

Chromosomes and results of searches, read from JSON.
-/

namespace Cellular

namespace StateId

def ofJson? (value : Json) : Option StateId :=
  (value.unsigned? 65535).map ofIndex

end StateId

def Score.ofJson? (value : Json) : Option Score :=
  value.float?.map ofFloat

namespace ChromosomeStats

def ofJson? (value : Json) : Option ChromosomeStats := do
  let record ← value.record?
    ["generations", "average_population", "initial_size", "fitness"]
  some {
    generations := ← record.required "generations" Json.word?
    averagePopulation := ← record.required "average_population" Json.word?
    initialSize := ← record.required "initial_size" Json.word?
    fitness := ← record.required "fitness" Score.ofJson? }

end ChromosomeStats

namespace ChromosomeSnapshot

def ofJson? (value : Json) : Option ChromosomeSnapshot := do
  let record ← value.record? ["epoch", "stats", "width", "height", "pattern"]
  some {
    epoch := ← record.required "epoch" Json.word?
    stats := ← record.required "stats" ChromosomeStats.ofJson?
    width := ← record.required "width" Json.word?
    height := ← record.required "height" Json.word?
    pattern := ← record.required "pattern" (Json.list? StateId.ofJson?) }

end ChromosomeSnapshot

namespace StopReason

def name : StopReason → String
  | .epochTarget => "EpochTarget"
  | .cancelled => "Cancelled"

def ofName? (name : String) : Option StopReason :=
  [epochTarget, cancelled].find? fun reason => reason.name = name

end StopReason

namespace SearchHistory

def ofJson? (value : Json) : Option SearchHistory := do
  let record ← value.record? ["best_fitness", "avg_fitness"]
  some {
    best := ← record.required "best_fitness" (Json.list? Score.ofJson?)
    average := ← record.required "avg_fitness" (Json.list? Json.float?) }

end SearchHistory

namespace SearchStats

/-- The rate of evaluations has to be given and follows from the rest. -/
def ofJson? (value : Json) : Option SearchStats := do
  let record ← value.record?
    ["epochs", "total_evaluations", "best_fitness", "final_avg_fitness",
      "elapsed_seconds", "evaluations_per_second", "stop_reason"]
  let _ ← record.required "evaluations_per_second" Json.float?
  some {
    epochs := ← record.required "epochs" Json.word?
    totalEvaluations := ← record.required "total_evaluations" Json.word?
    bestFitness := ← record.required "best_fitness" Score.ofJson?
    finalAverageFitness := ← record.required "final_avg_fitness" Json.float?
    elapsedSeconds := ← record.required "elapsed_seconds" Json.float?
    stopReason :=
      ← record.required "stop_reason" (Json.variant? StopReason.ofName?) }

end SearchStats

namespace SearchResult

def ofJson? (value : Json) : Option SearchResult := do
  let record ← value.record? ["best", "stats", "history"]
  some {
    best := ← record.required "best" ChromosomeSnapshot.ofJson?
    stats := ← record.required "stats" SearchStats.ofJson?
    history := ← record.required "history" SearchHistory.ofJson? }

end SearchResult

end Cellular
