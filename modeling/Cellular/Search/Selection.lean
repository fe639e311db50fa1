import Cellular.Search.PlayOut

/-!
# Selection

Every method makes the next population out of an evaluated one, with as many
members.  Roulette and rank draw by weight, tournament lets two contenders meet,
random selection flips coins, elitism passes the population on, and steady state
sorts it and recombines the weakest pairs.
-/

namespace Cellular.Selection

variable {σ : Type}

/-! ## Order of fitness -/

def ascending (population : List Chromosome) : List Chromosome :=
  population.mergeSort fun first second =>
    first.fitness.place ≤ second.fitness.place

/-- The members with their indices from the fittest to the weakest; equal scores
keep their order. -/
def ranking (population : List Chromosome) : List (Chromosome × Nat) :=
  population.zipIdx.mergeSort fun first second =>
    second.1.fitness.place ≤ first.1.fitness.place

def elites (population : List Chromosome) (count : Nat) : List Chromosome :=
  ((ranking population).take count).map Prod.fst

def eliteIndices (population : List Chromosome) (count : Nat) : List Nat :=
  ((ranking population).take count).map Prod.snd

def unfitCount (size : Nat) (fraction : Float) : Nat :=
  max (PlayOut.ceilToNat (fraction * floatOfNat size)) 1

/-! ## Weighted draws -/

def cumulativeShares (total : Float) : Float → List Float → List Float
  | _, [] => []
  | sum, weight :: weights =>
      let sum := sum + weight / total
      sum :: cumulativeShares total sum weights

def intervalIndex (shares : List Float) (draw : Float) : Nat :=
  min (shares.takeWhile (· < draw)).length (shares.length - 1)

/-- One index by weight, or any index when the weights have no usable sum. -/
def spinOnce (draws : Draws σ) (total : Float) (shares : List Float)
    (source : σ) : Nat × σ :=
  if 0.0 < total ∧ total.isFinite then
    let (draw, source) := draws.unit source
    (intervalIndex shares draw, source)
  else draws.below source shares.length

def spinTimes (draws : Draws σ) (total : Float) (shares : List Float) :
    Nat → σ → List Nat × σ
  | 0, source => ([], source)
  | count + 1, source =>
      let (pick, source) := spinOnce draws total shares source
      let (picks, source) := spinTimes draws total shares count source
      (pick :: picks, source)

def spin (draws : Draws σ) (source : σ) (members : List Chromosome)
    (weights : List Float) : List Chromosome × σ :=
  let total := weights.foldl (· + ·) 0.0
  let shares := cumulativeShares total 0.0 weights
  let (picks, source) :=
    spinTimes draws total shares members.length source
  (picks.filterMap (members[·]?), source)

/-- A score as a weight: negative and undefined ones weigh nothing. -/
def weightOf (score : Score) : Float :=
  let value := score.toFloat
  if 0.0 < value then value else 0.0

def rouletteWheel (draws : Draws σ) (source : σ)
    (population : List Chromosome) : List Chromosome × σ :=
  spin draws source population
    (population.map fun chromosome => weightOf chromosome.fitness)

/-- The weakest member weighs one, the next two, and so on. -/
def rank (draws : Draws σ) (source : σ) (population : List Chromosome) :
    List Chromosome × σ :=
  spin draws source (ascending population)
    ((List.range population.length).map fun index => floatOfNat (index + 1))

/-! ## Tournament -/

/-- The fitter of two contenders and the weaker one; the first is the fitter of
equals. -/
def rankPair (first second : Chromosome) : Chromosome × Chromosome :=
  if second.fitness.exceeds first.fitness then (second, first)
  else (first, second)

def contest (draws : Draws σ) (winRate : Float) (population : List Chromosome)
    (source : σ) : Option Chromosome × σ :=
  let ((a, b), source) := draws.distinctPair source population.length
  let (fitterWins, source) := draws.chance source winRate
  let winner := do
    let (fitter, weaker) := rankPair (← population[a]?) (← population[b]?)
    some (if fitterWins then fitter else weaker)
  (winner, source)

def contests (draws : Draws σ) (winRate : Float)
    (population : List Chromosome) : Nat → σ → List Chromosome × σ
  | 0, source => ([], source)
  | count + 1, source =>
      let (winner, source) := contest draws winRate population source
      let (winners, source) := contests draws winRate population count source
      (winner.toList ++ winners, source)

/-- As many contests as there are members; fewer than two are passed on. -/
def tournament (draws : Draws σ) (source : σ) (winRate : Float)
    (population : List Chromosome) : List Chromosome × σ :=
  if population.length < 2 then (population, source)
  else contests draws winRate population population.length source

/-! ## Coin flips -/

def flipCoins (draws : Draws σ) :
    List Chromosome → Nat → σ → List Chromosome × σ
  | [], _, source => ([], source)
  | _, 0, source => ([], source)
  | chromosome :: others, room + 1, source =>
      let (value, source) := draws.unit source
      if 0.5 < value then
        let (chosen, source) := flipCoins draws others room source
        (chromosome :: chosen, source)
      else flipCoins draws others (room + 1) source

/-- Passes through the population until there is no room left.  Coins that never
fall the right way leave nothing but a request to stop. -/
def fillByCoins (draws : Draws σ) (population : List Chromosome) :
    Nat → Nat → σ → Option (List Chromosome × σ)
  | _, 0, source => some ([], source)
  | 0, _ + 1, _ => none
  | passes + 1, room + 1, source => do
      let (chosen, source) := flipCoins draws population (room + 1) source
      let (others, source) ←
        fillByCoins draws population passes (room + 1 - chosen.length) source
      some (chosen ++ others, source)

def random (draws : Draws σ) (source : σ) (population : List Chromosome) :
    Option (List Chromosome × σ) :=
  fillByCoins draws population draws.patience population.length source

/-! ## Steady state -/

def recombineUnfit (draws : Draws σ) (rate : Float) (unfit : Nat) :
    Nat → List Chromosome → σ → List Chromosome × σ
  | index, first :: second :: others, source =>
      let ((first, second), source) :=
        Chromosome.recombine draws rate (index < unfit) source first second
      let (others, source) :=
        recombineUnfit draws rate unfit (index + 2) others source
      (first :: second :: others, source)
  | _, population, source => (population, source)

def steadyState (draws : Draws σ) (source : σ) (rate fraction : Float)
    (population : List Chromosome) : List Chromosome × σ :=
  recombineUnfit draws rate (unfitCount population.length fraction) 0
    (ascending population) source

/-! ## The configured method -/

/-- Whether a method looks out for a request to stop with so many members. -/
def polls (method : SelectionMethod) (size : Nat) : Bool :=
  match method with
  | .rouletteWheel | .rank | .random => 0 < size
  | .tournament | .steadyState => 2 ≤ size
  | .elitism => false

def select (draws : Draws σ) (source : σ) (config : SearchConfig)
    (cancelled : Bool) (population : List Chromosome) :
    Option (List Chromosome × σ) :=
  if cancelled && polls config.selection population.length then none
  else
    match config.selection with
    | .rouletteWheel => some (rouletteWheel draws source population)
    | .rank => some (rank draws source population)
    | .steadyState =>
        some (steadyState draws source config.crossoverRate
          config.unfitFraction population)
    | .tournament =>
        some (tournament draws source config.tournamentWinRate population)
    | .elitism => some (population, source)
    | .random => random draws source population

end Cellular.Selection
