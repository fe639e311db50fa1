import Cellular.Grid.Position
import Cellular.State.Id
import Cellular.Total

/-!
# Grids

A grid stores its live cells only: a map from positions to states, and beside it
the positions of every live state.  `isConsistent` decides whether the two tell
the same.  Extents are words, and where their product is none there is no area, and
nothing that is computed from it.
-/

namespace Cellular

structure CellChange where
  source : StateId
  target : StateId
  position : Position
  deriving DecidableEq, Repr

structure OutOfBounds where
  position : Position
  width : Nat
  height : Nat
  deriving DecidableEq, Repr

def OutOfBounds.message (error : OutOfBounds) : String :=
  "Position (" ++ toString error.position.x ++ ", " ++
    toString error.position.y ++ ") is outside the " ++
    toString error.width ++ "x" ++ toString error.height ++ " grid"

abbrev StateIndex := Std.ExtTreeMap StateId PositionSet

namespace StateIndex

def positions (index : StateIndex) (state : StateId) : PositionSet :=
  (index[state]?).getD ∅

def add (index : StateIndex) (state : StateId) (position : Position) :
    StateIndex :=
  index.insert state ((index.positions state).insert position)

def remove (index : StateIndex) (state : StateId) (position : Position) :
    StateIndex :=
  match index[state]? with
  | none => index
  | some positions =>
      let rest := positions.erase position
      if rest.isEmpty then index.erase state else index.insert state rest

end StateIndex

structure Grid where
  width : Nat
  height : Nat
  cells : Std.ExtTreeMap Position StateId
  index : StateIndex
  deriving DecidableEq

namespace Grid

def empty (width height : Nat) : Grid := ⟨width, height, ∅, ∅⟩

def area? (grid : Grid) : Option Nat :=
  Word.toUnsigned? (grid.width * grid.height : Nat)

def inBounds (grid : Grid) (position : Position) : Bool :=
  0 ≤ position.x && 0 ≤ position.y &&
    position.x < grid.width && position.y < grid.height

def get? (grid : Grid) (position : Position) : Option StateId :=
  if grid.inBounds position then some ((grid.cells[position]?).getD .free)
  else none

def outOfBounds (grid : Grid) (position : Position) : OutOfBounds :=
  ⟨position, grid.width, grid.height⟩

/-! ## Changes -/

def put (grid : Grid) (position : Position) (state : StateId) : Grid :=
  let index := match grid.cells[position]? with
    | none => grid.index
    | some old => grid.index.remove old position
  if state.isFree then
    { grid with cells := grid.cells.erase position, index := index }
  else
    { grid with
      cells := grid.cells.insert position state
      index := index.add state position }

/-- Stores a live state in a cell that holds none yet.  A state from before would
stay in the index. -/
def insert (grid : Grid) (position : Position) (state : StateId) : Grid :=
  { grid with
    cells := grid.cells.insert position state
    index := grid.index.add state position }

def set (grid : Grid) (position : Position) (state : StateId) :
    Except OutOfBounds (StateId × Grid) :=
  if grid.inBounds position then
    .ok ((grid.cells[position]?).getD .free, grid.put position state)
  else .error (grid.outOfBounds position)

/-- Makes all changes, or none if one of them lies outside the grid. -/
def apply (grid : Grid) (changes : List CellChange) : Except OutOfBounds Grid :=
  match changes.find? fun change => !grid.inBounds change.position with
  | some change => .error (grid.outOfBounds change.position)
  | none =>
      .ok (changes.foldl
        (fun grid change => grid.put change.position change.target) grid)

def clear (grid : Grid) : Grid := empty grid.width grid.height

/-! ## Views -/

def liveCells (grid : Grid) : List (Position × StateId) := grid.cells.toList

def liveCount (grid : Grid) : Nat := grid.cells.size

def positions (grid : Grid) (state : StateId) : List Position :=
  (grid.index.positions state).toList

def count? (grid : Grid) (state : StateId) : Option Nat :=
  if state.isFree then do
    let area ← grid.area?
    Word.toUnsigned? (area - grid.liveCount)
  else some (grid.index.positions state).size

def positionAt? (columns : Int) (index : Nat) : Option Position := do
  some ⟨← Word.remainder? index columns, ← Word.quotient? index columns⟩

/-- The free cells in row-major order.  They are counted by a signed word, which a long
area is no match for: then none are listed. -/
def freePositions? (grid : Grid) : Option (List Position) := do
  let area := Word.signed (← grid.area?)
  let columns := Word.signed grid.width
  let positions ← (List.range area.toNat).mapM (positionAt? columns)
  some (positions.filter fun position => !grid.cells.contains position)

/-! ## Dense patterns -/

/-- The cell with an index.  No list is so long that its indices are not signed words. -/
def cellOf? (width index : Nat) : Option Position :=
  if width = 0 then none
  else some ⟨(index % width : Nat), (index / width : Nat)⟩

def plant? (width : Nat) : List (StateId × Nat) → Grid → Option Grid
  | [], grid => some grid
  | (state, index) :: others, grid =>
      if state.isFree then plant? width others grid
      else do plant? width others (grid.insert (← cellOf? width index) state)

/-- The grid of a row-major list of states.  States past the area are ignored and
missing ones are free. -/
def ofPattern? (width height : Nat) (pattern : List StateId) : Option Grid := do
  let area ← (empty width height).area?
  plant? width (pattern.take area).zipIdx (empty width height)

def indexOf? (grid : Grid) (position : Position) : Option Nat := do
  let start ← Word.toUnsigned? (Word.unsigned position.y * grid.width : Nat)
  Word.toUnsigned? (start + Word.unsigned position.x : Nat)

def fill? (grid : Grid) :
    List (Position × StateId) → Array StateId → Option (Array StateId)
  | [], pattern => some pattern
  | (position, state) :: cells, pattern => do
      let index ← grid.indexOf? position
      if h : index < pattern.size then grid.fill? cells (pattern.set index state)
      else none

def toPattern? (grid : Grid) : Option (List StateId) := do
  let pattern ← grid.fill? grid.liveCells (Array.replicate (← grid.area?) .free)
  some pattern.toList

/-! ## Consistency -/

/-- Whether cells and index tell the same, about positions inside the grid and
live states alone. -/
def isConsistent (grid : Grid) : Bool :=
  total (grid.index.toList.map fun entry => entry.2.size) == grid.cells.size &&
    grid.index.toList.all fun (state, positions) =>
      !state.isFree && !positions.isEmpty &&
        positions.toList.all fun position =>
          grid.cells[position]? == some state && grid.inBounds position

end Grid

end Cellular
