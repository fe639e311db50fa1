import Cellular.Automaton.Generation
import Cellular.Config.Search
import Cellular.Search.Chromosome

/-!
# Playing a chromosome out

A chromosome is played from its pattern until nothing changes or a target is
reached, and scored from how long it lived, how populated it stayed and how
small it started.  With a generation target a play-out ends on its own; with a
population target alone it may go on for ever and is ended by a request to stop.
-/

namespace Cellular

def floatOfNat (n : Nat) : Float := n.toUInt64.toFloat

structure Trajectory where
  generations : Nat
  /-- The live cells that each of them left, added up. -/
  population : Nat
  deriving DecidableEq, Repr

namespace Trajectory

def empty : Trajectory := ⟨0, 0⟩

def record (trajectory : Trajectory) (live : Nat) : Trajectory :=
  ⟨trajectory.generations + 1, trajectory.population + live⟩

def averagePopulation (trajectory : Trajectory) : Float :=
  if trajectory.generations = 0 then 0.0
  else floatOfNat trajectory.population / floatOfNat trajectory.generations

end Trajectory

structure PlayOut where
  automaton : Automaton
  weights : FitnessWeights
  targets : Targets
  width : Nat
  height : Nat

namespace PlayOut

def area? (playOut : PlayOut) : Option Nat :=
  Word.toUnsigned? (playOut.width * playOut.height : Nat)

/-- The score of a play-out on an area:
`(g * generations + p * average) * (1 - s * initial / area) + 1`. -/
def score (weights : FitnessWeights) (area generations : Nat) (average : Float)
    (initialSize : Nat) : Float :=
  let survival :=
    weights.generation * floatOfNat generations + weights.population * average
  survival *
    (1.0 - weights.initialSize * floatOfNat initialSize / floatOfNat (max area 1)) +
      1.0

def fitness? (playOut : PlayOut) (generations : Nat) (average : Float)
    (initialSize : Nat) : Option Float := do
  some (score playOut.weights (← playOut.area?) generations average initialSize)

def reached (targets : Targets) (trajectory : Trajectory) (live : Nat) : Bool :=
  (targets.generations ≠ 0 && targets.generations ≤ trajectory.generations) ||
    (targets.population ≠ 0 && targets.population ≤ live)

/-- Plays on from a grid for at most the given number of generations.  A play-out
that has not ended by then is cancelled. -/
def playFrom (playOut : PlayOut) (cancelled : Bool) :
    Nat → Grid → Trajectory → Option (Except StepError Trajectory)
  | 0, _, _ => some (.error .cancelled)
  | budget + 1, grid, trajectory => do
      match ← playOut.automaton.step? grid cancelled with
      | .error error => some (.error error)
      | .ok (.finished, _) => some (.ok trajectory)
      | .ok (.changed _, next) =>
          let trajectory := trajectory.record next.liveCount
          if reached playOut.targets trajectory next.liveCount then
            some (.ok trajectory)
          else playOut.playFrom cancelled budget next trajectory

def patience : Nat := 1000000000

def budget (targets : Targets) : Nat :=
  if targets.generations = 0 then patience else targets.generations

/-- A number rounded up to a whole one, within the range of a word. -/
def ceilToNat (value : Float) : Nat := value.ceil.toUInt64.toNat

def statsOf? (playOut : PlayOut) (initialSize : Nat) (trajectory : Trajectory) :
    Option ChromosomeStats := do
  let average := trajectory.averagePopulation
  let score ← playOut.fitness? trajectory.generations average initialSize
  some ⟨trajectory.generations, ceilToNat average, initialSize, .ofFloat score⟩

def evaluateWithin (playOut : PlayOut) (budget : Nat) (pattern : List StateId)
    (cancelled : Bool) : Option (Except StepError ChromosomeStats) := do
  let grid ← Grid.ofPattern? playOut.width playOut.height pattern
  match ← playOut.playFrom cancelled budget grid .empty with
  | .error error => some (.error error)
  | .ok trajectory => do some (.ok (← playOut.statsOf? grid.liveCount trajectory))

def evaluate (playOut : PlayOut) (pattern : List StateId) (cancelled : Bool) :
    Option (Except StepError ChromosomeStats) :=
  playOut.evaluateWithin (budget playOut.targets) pattern cancelled

def evaluateChromosome (playOut : PlayOut) (budget : Nat) (cancelled : Bool)
    (chromosome : Chromosome) : Option (Except StepError Chromosome) := do
  let stats ← playOut.evaluateWithin budget chromosome.pattern cancelled
  some (stats.map fun stats => { chromosome with stats := stats })

def evaluateAll (playOut : PlayOut) (budget : Nat) (cancelled : Bool) :
    List Chromosome → Option (Except StepError (List Chromosome))
  | [] => some (.ok [])
  | chromosome :: others => do
      match ← playOut.evaluateChromosome budget cancelled chromosome with
      | .error error => some (.error error)
      | .ok chromosome => do
          let others ← playOut.evaluateAll budget cancelled others
          some (others.map (chromosome :: ·))

end PlayOut

end Cellular
