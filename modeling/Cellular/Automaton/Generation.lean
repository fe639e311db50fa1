import Cellular.Automaton.Resolution

/-!
# Generations

All rules see the grid as it was at the start of a generation, and a cell that
one rule has matched is passed over by the later ones.  The cells that a rule
matches are found in one of two ways: by trying all cells of its source state, or
by trying the cells around those in a state of its condition.  The second way is
taken only where every match has such a neighbor and there are fewer places to
look at.  There is no generation where an area or a coordinate that is needed for
it is no word.
-/

namespace Cellular

namespace Automaton

/-! ## The condition at a cell -/

/-- What a cell sees, direction by direction: nothing past the border of the grid
and nothing outside the neighborhood. -/
def views? (automaton : Automaton) (grid : Grid) (position : Position) :
    Option (List (Option StateId)) :=
  Direction.all.mapM fun direction =>
    if automaton.neighborhood.contains direction then do
      let neighbor ← position.step? direction
      some (grid.get? neighbor)
    else some none

def occurrences (view : Direction → Option StateId)
    (directions : Neighborhood) (state : StateId) : Nat :=
  (directions.toList.filter fun direction => view direction = some state).length

def clauseHolds (view : Direction → Option StateId)
    (clause : ResolvedClause) : Bool :=
  clause.condition.holds fun condition =>
    condition.test (occurrences view clause.directions condition.state)

def conditionHolds (view : Direction → Option StateId)
    (condition : Formula ResolvedClause) : Bool :=
  condition.holds (clauseHolds view)

def applies? (automaton : Automaton) (grid : Grid)
    (condition : Formula ResolvedClause) (position : Position) : Option Bool := do
  let views ← automaton.views? grid position
  let view (direction : Direction) := (views[direction.index.val]?).getD none
  some (conditionHolds view condition)

/-! ## Matching cells -/

def sourceCells? (grid : Grid) (state : StateId) : Option (List Position) :=
  if state.isFree then grid.freePositions? else some (grid.positions state)

/-- Whether a rule is tried on every cell of its source state.  Only the free cells may
be too many to be counted by a word: the others are all stored, and their counts are
added without a bound. -/
def scansFully? (automaton : Automaton) (grid : Grid) (rule : ResolvedRule) :
    Option Bool :=
  if automaton.fullScan || rule.matchesAll ||
      rule.conditionStates.any StateId.isFree then
    some true
  else do
    let sources ← grid.count? rule.source
    let around ← rule.conditionStates.mapM grid.count?
    some (sources ≤ total around)

def scanSources? (automaton : Automaton) (grid : Grid) (rule : ResolvedRule)
    (condition : Formula ResolvedClause) (visited : PositionSet) :
    Option (List Position) := do
  let cells ← sourceCells? grid rule.source
  cells.filterM fun position =>
    if visited.contains position then some false
    else automaton.applies? grid condition position

def around (automaton : Automaton) (grid : Grid) (rule : ResolvedRule) :
    List (Position × Direction) :=
  rule.conditionStates.flatMap fun state =>
    (grid.positions state).flatMap fun neighbor =>
      automaton.neighborhood.toList.map fun direction => (neighbor, direction)

def candidates? (automaton : Automaton) (grid : Grid) (rule : ResolvedRule)
    (visited : PositionSet) : Option (List Position) := do
  let places ← (automaton.around grid rule).mapM fun (neighbor, direction) =>
    neighbor.stepBack? direction
  let eligible := places.filter fun position =>
    grid.get? position = some rule.source && !visited.contains position
  some (Std.ExtTreeSet.ofList eligible).toList

def scanNeighbors? (automaton : Automaton) (grid : Grid) (rule : ResolvedRule)
    (condition : Formula ResolvedClause) (visited : PositionSet) :
    Option (List Position) := do
  let cells ← automaton.candidates? grid rule visited
  cells.filterM (automaton.applies? grid condition)

def matchingCells? (automaton : Automaton) (grid : Grid) (rule : ResolvedRule)
    (visited : PositionSet) : Option (List Position) :=
  match rule.condition with
  | none => do
      let cells ← sourceCells? grid rule.source
      some (cells.filter fun position => !visited.contains position)
  | some condition => do
      if ← automaton.scansFully? grid rule then
        automaton.scanSources? grid rule condition visited
      else automaton.scanNeighbors? grid rule condition visited

/-! ## One generation -/

def sweep? (automaton : Automaton) (grid : Grid) (cancelled : Bool) :
    PositionSet → List ResolvedRule → Option (Except StepError (List CellChange))
  | _, [] => some (.ok [])
  | visited, rule :: rules =>
      if cancelled then some (.error .cancelled)
      else do
        let matched ← automaton.matchingCells? grid rule visited
        let others ←
          automaton.sweep? grid cancelled (visited.insertMany matched) rules
        some (others.map fun others =>
          matched.map (CellChange.mk rule.source rule.target) ++ others)

def changes? (automaton : Automaton) (grid : Grid) (cancelled : Bool) :
    Option (Except StepError (List CellChange)) :=
  match automaton.resolve with
  | .error error => some (.error error)
  | .ok rules => automaton.sweep? grid cancelled ∅ rules

inductive StepOutcome where
  | changed (changes : List CellChange)
  | finished
  deriving DecidableEq, Repr

end Automaton

def Grid.advance (grid : Grid) (changes : List CellChange) :
    Except StepError (Automaton.StepOutcome × Grid) :=
  if changes.isEmpty then .ok (.finished, grid)
  else
    match grid.apply changes with
    | .ok grid => .ok (.changed changes, grid)
    | .error error => .error (.grid error)

def Automaton.step? (automaton : Automaton) (grid : Grid) (cancelled : Bool) :
    Option (Except StepError (StepOutcome × Grid)) := do
  let changes ← automaton.changes? grid cancelled
  some (changes.bind grid.advance)

end Cellular
