import Cellular.Search.Selection

/-!
# The search

A search evolves a population of initial grids.  An epoch selects a population,
recombines it, mutates it and evaluates the result; the best chromosome of all
epochs is kept.  A run reports its progress before and after the first
evaluation, after every epoch and at its end.  Each report is an occasion to ask
the search to stop.
-/

namespace Cellular

inductive SearchPhase where
  | initializing
  | evaluating
  | selecting
  | reproducing
  | complete
  | stopped
  deriving DecidableEq, Repr

inductive StopReason where
  | epochTarget
  | cancelled
  deriving DecidableEq, Repr

structure SearchHistory where
  best : List Score
  average : List Float

namespace SearchHistory

def empty : SearchHistory := ⟨[], []⟩

def record (history : SearchHistory) (best : Score) (average : Float) :
    SearchHistory :=
  ⟨history.best ++ [best], history.average ++ [average]⟩

end SearchHistory

structure SearchProgress where
  epoch : Nat
  totalEpochs : Nat
  evaluations : Nat
  last : ChromosomeStats
  best : ChromosomeStats
  averageFitness : Float
  phase : SearchPhase

structure SearchStats where
  epochs : Nat
  totalEvaluations : Nat
  bestFitness : Score
  finalAverageFitness : Float
  elapsedSeconds : Float
  stopReason : StopReason

structure SearchResult where
  best : ChromosomeSnapshot
  stats : SearchStats
  history : SearchHistory

inductive SearchError where
  | config (error : SearchConfigError)
  | invalidRules (diagnostics : List Diagnostic)
  | step (error : StepError)
  | workerPanicked

def SearchError.message : SearchError → String
  | .config error => error.message
  | .invalidRules diagnostics =>
      "Rule text has " ++ toString diagnostics.length ++ " error(s)"
  | .step error => "Evaluation failed: " ++ error.message
  | .workerPanicked => "Search worker panicked"

structure Search (σ : Type) where
  config : SearchConfig
  playOut : PlayOut
  population : List Chromosome
  history : SearchHistory
  epoch : Nat
  evaluations : Nat
  /-- The best chromosome of the epoch evaluated last. -/
  last : ChromosomeStats
  /-- The best chromosome so far and the epoch it was found in. -/
  best : Option (Nat × Chromosome)
  phase : SearchPhase
  cancelled : Bool
  source : σ

namespace Search

variable {σ : Type}

/-! ## Creation -/

def created (config : SearchConfig) (automaton : Automaton) (width height : Nat)
    (source : σ) : Search σ where
  config := config
  playOut := ⟨automaton, config.fitness, config.targets, width, height⟩
  population := []
  history := .empty
  epoch := 0
  evaluations := 0
  last := .unevaluated
  best := none
  phase := .initializing
  cancelled := false
  source := source

def ofAutomaton (config : SearchConfig) (automaton : Automaton)
    (width height : Nat) (source : σ) : Except SearchError (Search σ) := do
  match config.check with
  | .error error => .error (.config error)
  | .ok () =>
      if width = 0 ∨ height = 0 then
        .error (.config (.automaton .invalidDimensions))
      else if automaton.states.userCount = 0 then
        .error (.config .noLiveStates)
      else if automaton.table.isEmpty then .error (.config .noRules)
      else
        .ok (created config automaton width height source)

def ofConfig (config : SearchConfig) (automaton : AutomatonConfig)
    (source : σ) : Except SearchError (Search σ) :=
  match automaton.check with
  | .error error => .error (.config (.automaton error))
  | .ok () =>
      let compilation := automaton.compile
      if compilation.isOk then
        ofAutomaton config
          (.ofTable automaton.states automaton.neighborhood compilation.table)
          automaton.width automaton.height source
      else .error (.invalidRules compilation.diagnostics)

/-! ## Views -/

def states (search : Search σ) : StateUniverse := search.playOut.automaton.states

def area? (search : Search σ) : Option Nat := search.playOut.area?

def averageFitness (search : Search σ) : Float :=
  if search.population.isEmpty then 0.0
  else
    (search.population.map fun chromosome => chromosome.fitness.toFloat).foldl
      (· + ·) 0.0 / floatOfNat search.population.length

def progress (search : Search σ) : SearchProgress where
  epoch := search.epoch
  totalEpochs := search.config.targets.epochs
  evaluations := search.evaluations
  last := search.last
  best := match search.best with
    | none => .unevaluated
    | some (_, chromosome) => chromosome.stats
  averageFitness := search.averageFitness
  phase := search.phase

def bestSnapshot? (search : Search σ) : Option ChromosomeSnapshot :=
  search.best.map fun (epoch, chromosome) =>
    chromosome.snapshot epoch search.playOut.width search.playOut.height

/-! ## Stages -/

def populate (draws : Draws σ) (search : Search σ) : Option (Search σ) := do
  let (population, source) :=
    Chromosome.randomPopulation draws (← search.area?) search.states.userCount
      search.config.populationSize search.source
  some { search with
    population := population
    source := source
    epoch := 0
    evaluations := 0
    best := none
    last := .unevaluated
    history := .empty }

def takeEvaluated (search : Search σ) (population : List Chromosome) : Search σ :=
  { search with
    population := population
    evaluations := search.evaluations + population.length
    phase := .evaluating }

/-- Evaluates every chromosome, each within a number of generations.  A failure
leaves the population as it was. -/
def evaluateWithin (search : Search σ) (budget : Nat) :
    Option (Except StepError (Search σ)) := do
  let population ←
    search.playOut.evaluateAll budget search.cancelled search.population
  some (population.map search.takeEvaluated)

def evaluatePopulation (search : Search σ) : Option (Except StepError (Search σ)) :=
  search.evaluateWithin (PlayOut.budget search.playOut.targets)

/-- Recombines adjacent pairs by chance until there are `size` chromosomes; the
first pair is taken in any case. -/
def recombinePairs (draws : Draws σ) (rate : Float) (size : Nat) :
    Nat → List Chromosome → σ → List Chromosome × σ
  | taken, first :: second :: others, source =>
      let ((first, second), source) :=
        Chromosome.recombine draws rate true source first second
      if size ≤ taken + 2 then ([first, second], source)
      else
        let (others, source) :=
          recombinePairs draws rate size (taken + 2) others source
        (first :: second :: others, source)
  | _, _, source => ([], source)

/-- The elites, then the recombined pairs and an odd last chromosome, cut to the
size of the population. -/
def crossoverStage (draws : Draws σ) (source : σ) (rate : Float) (size : Nat)
    (elites selected : List Chromosome) : List Chromosome × σ :=
  let (pairs, source) :=
    recombinePairs draws rate size elites.length selected source
  let odd :=
    if selected.length % 2 = 1 then selected.getLast?.toList else []
  ((elites ++ pairs ++ odd).take size, source)

def mutateEach (draws : Draws σ) (rate : Float) (states : Nat) :
    List Chromosome → σ → List Chromosome × σ
  | [], source => ([], source)
  | chromosome :: others, source =>
      let (chromosome, source) :=
        Chromosome.mutate draws source rate states chromosome
      let (others, source) := mutateEach draws rate states others source
      (chromosome :: others, source)

def mutationStage (draws : Draws σ) (source : σ) (rate : Float)
    (states spared : Nat) (population : List Chromosome) :
    List Chromosome × σ :=
  let (mutated, source) :=
    mutateEach draws rate states (population.drop spared) source
  (population.take spared ++ mutated, source)

def spared (config : SearchConfig) : Nat :=
  if config.selection = .elitism then config.elites else 0

/-- Recombines and mutates a selected population.  The outcome is still to be
evaluated. -/
def breed (draws : Draws σ) (search : Search σ) (selected : List Chromosome)
    (source : σ) : List Chromosome × σ :=
  let config := search.config
  let elites := Selection.elites search.population (spared config)
  let (crossed, source) :=
    if config.selection = .steadyState then (selected, source)
    else
      crossoverStage draws source config.crossoverRate config.populationSize
        elites selected
  let (mutated, source) :=
    mutationStage draws source config.mutationRate search.states.size
      (spared config) crossed
  (mutated.map fun chromosome => .ofPattern chromosome.pattern, source)

/-- The population of the next epoch; none when a request to stop is noticed. -/
def nextPopulation (draws : Draws σ) (search : Search σ) :
    Option (List Chromosome × σ) := do
  let (selected, source) ←
    Selection.select draws search.source search.config search.cancelled
      search.population
  if search.cancelled then none
  else some (search.breed draws selected source)

def reproduce (draws : Draws σ) (search : Search σ) : Option (Search σ) := do
  let (population, source) ← search.nextPopulation draws
  some { search with
    population := population
    source := source
    phase := .reproducing }

def fittest (first : Chromosome) (others : List Chromosome) : Chromosome :=
  others.foldl
    (fun best chromosome =>
      if chromosome.fitness.exceeds best.fitness then chromosome else best)
    first

def improve (best : Option (Nat × Chromosome)) (epoch : Nat)
    (found : Chromosome) : Option (Nat × Chromosome) :=
  match best with
  | none => some (epoch, found)
  | some (known, chromosome) =>
      if found.fitness.exceeds chromosome.fitness then some (epoch, found)
      else some (known, chromosome)

def bestFitness (best : Option (Nat × Chromosome)) : Score :=
  match best with
  | none => .ofFloat 0.0
  | some (_, chromosome) => chromosome.fitness

def updateBest (search : Search σ) : Search σ :=
  match search.population with
  | [] => search
  | first :: others =>
      let found := fittest first others
      let best := improve search.best search.epoch found
      { search with
        last := found.stats
        best := best
        history :=
          search.history.record (bestFitness best) search.averageFitness }

def stopReason? (search : Search σ) : Option StopReason :=
  let target := search.config.targets.epochs
  if search.cancelled then some .cancelled
  else if target ≠ 0 ∧ target ≤ search.epoch then some .epochTarget
  else none

/-! ## Runs -/

structure Run (σ : Type) where
  search : Search σ
  reports : List SearchProgress

namespace Run

/-- Reports the progress.  The report with the number `cancelAt`, counted from
one, asks the search to stop. -/
def report (run : Run σ) (cancelAt : Option Nat) : Run σ :=
  let reports := run.reports ++ [run.search.progress]
  let cancelled :=
    run.search.cancelled || cancelAt = some reports.length
  ⟨{ run.search with cancelled := cancelled }, reports⟩

/-- How a run ends when one of its stages does not: it was asked to stop.  Without
a request to stop the stage takes more than the budget, and so does the run. -/
def halt (run : Run σ) : Option (Run σ × Except StepError StopReason) :=
  if run.search.cancelled then some (run, .ok .cancelled) else none

def epochs (draws : Draws σ) (cancelAt : Option Nat) (budget : Nat) :
    Nat → Run σ → Option (Run σ × Except StepError StopReason)
  | 0, _ => none
  | fuel + 1, run =>
      match run.search.stopReason? with
      | some reason => some (run, .ok reason)
      | none =>
          match run.search.reproduce draws with
          | none => run.halt
          | some reproduced =>
              match reproduced.evaluateWithin budget with
              | none => none
              | some (.error .cancelled) => halt { run with search := reproduced }
              | some (.error error) =>
                  some ({ run with search := reproduced }, .error error)
              | some (.ok evaluated) =>
                  let search :=
                    { evaluated with epoch := evaluated.epoch + 1 }.updateBest
                  epochs draws cancelAt budget fuel
                    ({ run with search := search }.report cancelAt)

end Run

/-- The best chromosome, or one without live cells if none has been evaluated. -/
def winner? (search : Search σ) : Option ChromosomeSnapshot :=
  match search.bestSnapshot? with
  | some best => some best
  | none => do
      let blank := Chromosome.ofPattern (List.replicate (← search.area?) .free)
      some (blank.snapshot 0 search.playOut.width search.playOut.height)

def result? (search : Search σ) (reason : StopReason) : Option SearchResult := do
  let best ← search.winner?
  some {
    best := best
    stats := {
      epochs := search.epoch
      totalEvaluations := search.evaluations
      bestFitness := best.stats.fitness
      finalAverageFitness := search.averageFitness
      elapsedSeconds := 0.0
      stopReason := reason }
    history := search.history }

def runFrom (draws : Draws σ) (cancelAt : Option Nat) (budget : Nat)
    (run : Run σ) : Option (Run σ × Except StepError StopReason) :=
  match run.search.evaluateWithin budget with
  | none => none
  | some (.error .cancelled) => run.halt
  | some (.error error) => some (run, .error error)
  | some (.ok evaluated) =>
      Run.epochs draws cancelAt budget (budget + 1)
        ({ run with search := evaluated.updateBest }.report cancelAt)

def finalPhase : StopReason → SearchPhase
  | .epochTarget => .complete
  | .cancelled => .stopped

/-- Runs a search from a new population on.  There is no result if a play-out has
more generations than the budget, if there are more epochs, if a draw takes more
rounds than the patience of the draws, or if an area or a coordinate is no word. -/
def runWithin (draws : Draws σ) (search : Search σ) (cancelAt : Option Nat)
    (budget : Nat) : Option (Run σ × Except SearchError SearchResult) := do
  let populated ← { search with phase := .initializing }.populate draws
  let started : Run σ := ⟨populated, []⟩
  match ← runFrom draws cancelAt budget (started.report cancelAt) with
  | (run, .error error) =>
      some ({ run with search := { run.search with phase := .stopped } },
        .error (.step error))
  | (run, .ok reason) => do
      let ended : Run σ :=
        { run with search := { run.search with phase := finalPhase reason } }
      let ended := ended.report cancelAt
      some (ended, .ok (← ended.search.result? reason))

def patience : Nat := 1000000000

/-- An epoch target is a budget of epochs, and a generation target is one of
generations. -/
def budget (targets : Targets) : Nat :=
  max (PlayOut.budget targets)
    (if targets.epochs = 0 then patience else targets.epochs)

def run (draws : Draws σ) (search : Search σ) (cancelAt : Option Nat) :
    Option (Run σ × Except SearchError SearchResult) :=
  search.runWithin draws cancelAt (budget search.config.targets)

/-- A run on a thread of its own.  If it comes to nothing the thread is lost. -/
def spawn (draws : Draws σ) (search : Search σ) (cancelAt : Option Nat) :
    Run σ × Except SearchError SearchResult :=
  (search.run draws cancelAt).getD (⟨search, []⟩, .error .workerPanicked)

end Search

end Cellular
