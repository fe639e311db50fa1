import Cellular.Grid.Basic
import Cellular.Random.Draws
import Cellular.State.Universe

/-!
# Random grids

Every cell, row by row, is drawn live with a given probability, and a live cell
gets one of the declared states.
-/

namespace Cellular.Grid

variable {σ : Type}

def allPositions (grid : Grid) : List Position :=
  (List.range (Word.signed grid.height).toNat).flatMap fun row =>
    (List.range (Word.signed grid.width).toNat).map fun column =>
      (⟨(column : Nat), (row : Nat)⟩ : Position)

def populateCells (draws : Draws σ) (liveStates : Nat) (probability : Float) :
    List Position → Grid → σ → Grid × σ
  | [], grid, source => (grid, source)
  | position :: positions, grid, source =>
      let (live, source) := draws.chance source probability
      if live then
        let (state, source) := draws.below source liveStates
        populateCells draws liveStates probability positions
          (grid.insert position (.ofIndex (state + 1))) source
      else
        populateCells draws liveStates probability positions grid source

/-- Replaces the grid's cells by random ones.  Without declared states no draw
is made. -/
def populate (draws : Draws σ) (source : σ) (grid : Grid)
    (states : StateUniverse) (probability : Float) : Grid × σ :=
  if states.userCount = 0 then (grid.clear, source)
  else
    populateCells draws states.userCount probability grid.allPositions
      grid.clear source

end Cellular.Grid
