import Cellular.Cli.Command
import Cellular.Cli.Host
import Cellular.Cli.Path
import Cellular.Config.Format
import Cellular.Decimal.Fixed
import Cellular.Grid.Populate
import Cellular.Pattern.Parser
import Cellular.Pattern.Printer
import Cellular.Playback
import Cellular.Random.Generator
import Cellular.Search.Summary

/-!
# Sessions

A command is carried out on a host.  It either comes to its end or gives up with
complaints and an exit code; lines that were written before that stay written.
-/

namespace Cellular.Cli

open Cellular.Random

structure Failure where
  complaints : List String
  code : UInt32

/-- Work that may give up. -/
abbrev Session (m : Type → Type) := ExceptT Failure m

variable {m : Type → Type} [Monad m]

namespace Session

def giveUp {α : Type} (complaint : String) : Session m α := throw ⟨[complaint], 1⟩

def required {α : Type} : Option α → Session m α
  | some value => pure value
  | none => throw ⟨[], 101⟩

def say (host : Host m) (lines : List String) : Session m Unit :=
  lines.forM fun line => (host.print line : m Unit)

/-! ## Loading -/

def readFile (host : Host m) (path : String) :
    Session m (Except FileError String) :=
  (host.readFile path : m (Except FileError String))

def load {α : Type} (host : Host m) (parse? : String → Option α)
    (path : String) : Session m α := do
  match ← readFile host path with
  | .error error =>
      giveUp ("Error reading " ++ path ++ ": " ++ error.message)
  | .ok text =>
      match parse? text with
      | some value => pure value
      | none => giveUp ("Error parsing " ++ path ++ ": not such a configuration")

def loadAutomaton (host : Host m) (path : String) :
    Session m AutomatonConfig := do
  let config ← load host AutomatonConfig.parse? path
  match config.check with
  | .ok () => pure config
  | .error error =>
      giveUp ("Invalid automaton configuration: " ++ error.message)

def loadPattern (host : Host m) (path : String) : Session m Pattern := do
  match ← readFile host path with
  | .error error =>
      giveUp ("Error loading pattern: I/O error: " ++ error.message)
  | .ok text =>
      match Pattern.parse text with
      | .ok pattern => pure pattern
      | .error error => giveUp ("Error loading pattern: " ++ error.message)

def ruleComplaints (text : String) (diagnostics : List Diagnostic) :
    List String :=
  ("Rule text has " ++ toString diagnostics.length ++ " error(s):") ::
    diagnostics.map fun diagnostic =>
      let (line, column) := lineColumn text.toList diagnostic.offset
      "  " ++ toString line ++ ":" ++ toString column ++ ": " ++
        diagnostic.kind.message

def compileRules (config : AutomatonConfig) : Session m RuleTable :=
  let compilation := config.compile
  if compilation.isOk then pure compilation.table
  else throw ⟨ruleComplaints config.rules compilation.diagnostics, 1⟩

/-! ## Showing examples and checking rules -/

def exampleLines : List String :=
  ["Example automaton (automaton.json):",
    AutomatonConfig.standard.toJson.render,
    "",
    "Example search settings (evolution.json):",
    SearchConfig.standard.toJson.render]

def check (host : Host m) (path : String) : Session m Unit := do
  let config ← loadAutomaton host path
  let table ← compileRules config
  say host
    ((toString table.size ++ " rule(s) compiled:") ::
      table.rules.map Rule.render)

/-! ## Playing -/

def density : Float := 0.3

def loadScene (host : Host m) (path : String) :
    Session m (AutomatonConfig × Grid) := do
  if hasExtension path "txt" then
    let pattern ← loadPattern host path
    pure (pattern.config, pattern.grid)
  else
    let config ← loadAutomaton host path
    let seed ← (host.seed : m UInt64)
    let (grid, _) := Grid.populate Generator.draws (.ofSeed seed)
      (.empty config.width config.height) config.states density
    pure (config, grid)

def sceneLines (config : AutomatonConfig) (table : RuleTable)
    (generations : Nat) (grid : Grid) : List String :=
  ["Cellygen Playback",
    "=================",
    "Grid: " ++ toString config.width ++ "x" ++ toString config.height,
    "States: " ++ toString config.states.userCount,
    "Neighborhood: " ++ config.neighborhood.render,
    "Rules: " ++ toString table.size,
    "Generations: " ++ toString generations,
    "",
    "Initial live cells: " ++ toString grid.liveCount]

def liveAfter (live : Nat) (changes : List CellChange) : Nat :=
  live + (changes.filter fun change => !change.target.isFree).length -
    (changes.filter fun change => !change.source.isFree).length

def isDue (goal count : Nat) : Bool := count % max (goal / 10) 1 = 0

def reportEvent (host : Host m) (goal live : Nat) :
    PlaybackEvent → Session m Nat
  | .generation number changes => do
      let live := liveAfter live changes
      if isDue goal number then
        say host
          ["  Generation " ++ toString number ++ "/" ++ toString goal ++ ": " ++
            toString changes.length ++ " changes, " ++ toString live ++ " live"]
      pure live
  | .finished generation => do
      say host ["Stable after " ++ toString generation ++ " generations"]
      pure live
  | .stopped generation => do
      say host ["Stopped at generation " ++ toString generation]
      pure live
  | .failed error => giveUp ("Playback failed: " ++ error.message)

def timeLine (elapsed : Float) (count : Nat) (what : String) : String :=
  let rate := floatOfNat count / max elapsed 0.0000001
  "Time: " ++ Decimal.fixed 2 elapsed ++ "s (" ++ Decimal.fixed 1 rate ++ " " ++
    what ++ "/s)"

def play (host : Host m) (path : String) (generations : Nat) :
    Session m Unit := do
  let (config, grid) ← loadScene host path
  let table ← compileRules config
  say host (sceneLines config table generations grid)
  let automaton := Automaton.ofTable config.states config.neighborhood table
  let start ← (host.seconds : m Float)
  let playing ← match (Playback.start automaton grid).play (some generations) with
    | .ok playing => pure playing
    | .error error => giveUp ("Error starting playback: " ++ error.message)
  let (events, playback) := playing.join
  let _ ← events.foldlM (reportEvent host generations) grid.liveCount
  let elapsed := (← (host.seconds : m Float)) - start
  say host
    ["",
      "Final live cells: " ++ toString playback.grid.liveCount,
      timeLine elapsed playback.generation "generations"]

/-! ## Searching -/

def searchLines (automaton : AutomatonConfig) (config : SearchConfig) :
    List String :=
  ["Cellygen Search",
    "===============",
    "Grid: " ++ toString automaton.width ++ "x" ++ toString automaton.height,
    "Population: " ++ toString config.populationSize,
    "Selection: " ++ config.selection.title,
    "Epochs: " ++ toString config.targets.epochs,
    ""]

def progressLine (progress : SearchProgress) : String :=
  let measure := Decimal.fixed 3
  "  Epoch " ++ toString progress.epoch ++
    ": best=" ++ measure progress.best.fitness.toFloat ++
    ", last=" ++ measure progress.last.fitness.toFloat ++
    ", avg=" ++ measure progress.averageFitness

def bestLines (best : ChromosomeSnapshot) : List String :=
  ["",
    "Best pattern (epoch " ++ toString best.epoch ++ "):",
    "  Fitness: " ++ Decimal.fixed 6 best.stats.fitness.toFloat,
    "  Generations: " ++ toString best.stats.generations,
    "  Avg. population: " ++ toString best.stats.averagePopulation,
    "  Initial size: " ++ toString best.stats.initialSize]

def store (host : Host m) (path : String) (pattern : Pattern) :
    Session m Unit := do
  match ← (host.writeFile path pattern.render : m (Except FileError Unit)) with
  | .ok () => say host ["Exported best pattern to " ++ path]
  | .error error =>
      giveUp ("Error writing " ++ path ++ ": I/O error: " ++ error.message)

def evolve (host : Host m) (automatonPath searchPath : String)
    (output : Option String) : Session m Unit := do
  let automaton ← loadAutomaton host automatonPath
  let config ← load host SearchConfig.parse? searchPath
  let table ← compileRules automaton
  say host (searchLines automaton config)
  let seed ← match config.randomSeed with
    | some seed => pure seed.toUInt64
    | none => (host.seed : m UInt64)
  match Search.ofConfig config automaton (Generator.ofSeed seed) with
  | .error error => giveUp ("Error creating search: " ++ error.message)
  | .ok search =>
      let start ← (host.seconds : m Float)
      let (ended, outcome) ← required (search.run Generator.draws none)
      let due := ended.reports.filter fun progress =>
        isDue config.targets.epochs progress.epoch
      say host (due.map progressLine)
      match outcome with
      | .error error => giveUp ("Search failed: " ++ error.message)
      | .ok result =>
          let elapsed := (← (host.seconds : m Float)) - start
          let stats := { result.stats with elapsedSeconds := elapsed }
          let result := { result with stats := stats }
          say host (bestLines result.best)
          say host [timeLine elapsed stats.totalEvaluations "evaluations"]
          match output with
          | none => pure ()
          | some path =>
              let pattern ← required
                (Pattern.ofSnapshot? automaton.states table
                  automaton.neighborhood result.best)
              store host path (pattern.withSettings (result.summary config))

end Session

/-! ## The program -/

def program : String := "cellygen"

def usageLines : List String :=
  ["Usage:",
    "  " ++ program ++ " check <automaton.json>",
    "  " ++ program ++ " run <automaton.json | pattern.txt> [generations]",
    "  " ++ program ++ " evolve <automaton.json> <evolution.json> [best.txt]",
    "  " ++ program ++ " --example",
    "",
    "Arguments:",
    "  automaton.json  States, neighborhood, grid size and rule text",
    "  pattern.txt     Pattern exported by 'evolve'",
    "  generations     Generations to play (default: " ++
      toString standardGenerations ++ ")",
    "  evolution.json  Genetic search settings",
    "  best.txt        Where to export the best pattern found"]

def Command.session (host : Host m) : Command → Session m Unit
  | .examples => Session.say host Session.exampleLines
  | .check automaton => Session.check host automaton
  | .run path generations => Session.play host path generations
  | .evolve automaton search output =>
      Session.evolve host automaton search output

def perform (host : Host m) (words : List String) : m UInt32 := do
  let session : Session m Unit :=
    match Command.ofWords? words with
    | none => throw ⟨usageLines, 1⟩
    | some command => command.session host
  match ← ExceptT.run session with
  | .ok () => pure 0
  | .error failure => do
      failure.complaints.forM host.complain
      pure failure.code

end Cellular.Cli
