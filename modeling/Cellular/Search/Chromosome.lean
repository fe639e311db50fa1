import Cellular.Grid.Basic
import Cellular.Random.Draws
import Cellular.Search.Score

/-!
# Chromosomes

A chromosome is a candidate for the initial grid: one state per cell, row by row,
with the statistics of its last evaluation.  The genetic operators draw random
chromosomes, exchange a segment of genes between two of them, and replace single
genes.
-/

namespace Cellular

structure ChromosomeStats where
  generations : Nat
  /-- The mean number of live cells over those generations, rounded up. -/
  averagePopulation : Nat
  initialSize : Nat
  fitness : Score
  deriving DecidableEq, Repr

def ChromosomeStats.unevaluated : ChromosomeStats := ⟨0, 0, 0, .one⟩

structure Chromosome where
  pattern : List StateId
  stats : ChromosomeStats
  deriving DecidableEq, Repr

structure ChromosomeSnapshot where
  epoch : Nat
  stats : ChromosomeStats
  width : Nat
  height : Nat
  pattern : List StateId
  deriving DecidableEq, Repr

namespace Chromosome

def liveGenes (pattern : List StateId) : Nat :=
  (pattern.filter fun gene => !gene.isFree).length

def ofPattern (pattern : List StateId) : Chromosome :=
  ⟨pattern, { ChromosomeStats.unevaluated with
    initialSize := liveGenes pattern }⟩

def fitness (chromosome : Chromosome) : Score := chromosome.stats.fitness

def initialSize (chromosome : Chromosome) : Nat := liveGenes chromosome.pattern

def snapshot (chromosome : Chromosome) (epoch width height : Nat) :
    ChromosomeSnapshot :=
  ⟨epoch, chromosome.stats, width, height, chromosome.pattern⟩

variable {σ : Type}

/-! ## Random chromosomes -/

/-- Draws genes one after the other; each is live with the probability `fill`,
its bound included. -/
def randomGenes (draws : Draws σ) (liveStates : Nat) (fill : Float) :
    Nat → σ → List StateId × σ
  | 0, source => ([], source)
  | count + 1, source =>
      let (value, source) := draws.unit source
      if value ≤ fill then
        let (state, source) := draws.below source liveStates
        let (genes, source) := randomGenes draws liveStates fill count source
        (.ofIndex (state + 1) :: genes, source)
      else
        let (genes, source) := randomGenes draws liveStates fill count source
        (.free :: genes, source)

/-- A chromosome whose share of live genes is drawn first.  Without declared
states all genes are free. -/
def random (draws : Draws σ) (source : σ) (area liveStates : Nat) :
    Chromosome × σ :=
  let (fill, source) := draws.unit source
  if liveStates = 0 then (ofPattern (List.replicate area .free), source)
  else
    let (genes, source) := randomGenes draws liveStates fill area source
    (ofPattern genes, source)

def randomPopulation (draws : Draws σ) (area liveStates : Nat) :
    Nat → σ → List Chromosome × σ
  | 0, source => ([], source)
  | size + 1, source =>
      let (chromosome, source) := random draws source area liveStates
      let (others, source) :=
        randomPopulation draws area liveStates size source
      (chromosome :: others, source)

/-! ## Crossover -/

def swapSegment (first last : Nat) (left right : List StateId) :
    List StateId × List StateId :=
  let size := last + 1 - first
  (left.take first ++ (right.drop first).take size ++ left.drop (last + 1),
    right.take first ++ (left.drop first).take size ++ right.drop (last + 1))

/-- Exchanges a random segment of at least two genes between two chromosomes.
The statistics stay with the chromosomes. -/
def crossover (draws : Draws σ) (source : σ) (left right : Chromosome) :
    (Chromosome × Chromosome) × σ :=
  let length := min left.pattern.length right.pattern.length
  if length < 2 then ((left, right), source)
  else
    let ((a, b), source) := draws.distinctPair source length
    let (leftGenes, rightGenes) :=
      swapSegment (min a b) (max a b) left.pattern right.pattern
    (({ left with pattern := leftGenes }, { right with pattern := rightGenes }),
      source)

/-- Recombines two chromosomes by chance, if that is allowed.  The chance is drawn
in any case. -/
def recombine (draws : Draws σ) (rate : Float) (allowed : Bool) (source : σ)
    (left right : Chromosome) : (Chromosome × Chromosome) × σ :=
  let (recombined, source) := draws.chance source rate
  if recombined && allowed then crossover draws source left right
  else ((left, right), source)

/-! ## Mutation -/

/-- Replaces each gene with the given probability by any state, the free one
included. -/
def mutateGenes (draws : Draws σ) (rate : Float) (states : Nat) :
    List StateId → σ → List StateId × σ
  | [], source => ([], source)
  | gene :: genes, source =>
      let (replaced, source) := draws.chance source rate
      if replaced then
        let (state, source) := draws.below source states
        let (genes, source) := mutateGenes draws rate states genes source
        (.ofIndex state :: genes, source)
      else
        let (genes, source) := mutateGenes draws rate states genes source
        (gene :: genes, source)

def mutate (draws : Draws σ) (source : σ) (rate : Float) (states : Nat)
    (chromosome : Chromosome) : Chromosome × σ :=
  if rate ≤ 0.0 ∨ states = 0 then (chromosome, source)
  else
    let (genes, source) :=
      mutateGenes draws rate states chromosome.pattern source
    ({ chromosome with pattern := genes }, source)

end Chromosome

end Cellular
