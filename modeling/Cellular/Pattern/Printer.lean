import Cellular.Pattern.Basic
import Cellular.Pattern.Section

/-!
# Writing patterns

Six sections, each a marker and its lines.  Cells are written one to a line, row
by row, with coordinates that count from the grid's center.  Lines of the summary
that read like a marker are left out, so the summary cannot open a section.
-/

namespace Cellular

open Text

namespace Pattern

/-- The cell that coordinates in a file count from. -/
def center (grid : Grid) : Position :=
  ⟨(grid.width / 2 : Nat), (grid.height / 2 : Nat)⟩

def settingsLines (pattern : Pattern) : List (List Char) :=
  (lines pattern.settings.toList).filter fun line => !Section.isMarker line

def stateLines (pattern : Pattern) : List (List Char) :=
  pattern.states.userNames.map fun name => (name ++ ";").toList

def ruleLines (pattern : Pattern) : List (List Char) :=
  (lines pattern.rules.toList).filter fun line => !isAllBlank line

def sizeLine (pattern : Pattern) : List Char :=
  (toString pattern.grid.height ++ " " ++ toString pattern.grid.width).toList

def cellLine (pattern : Pattern) (cell : Position × StateId) : List Char :=
  let (position, state) := cell
  let center := center pattern.grid
  (toString (position.x - center.x) ++ " " ++
    toString (position.y - center.y) ++ " " ++
    (pattern.states.name? state).getD "" ++ ";").toList

def cellLines (pattern : Pattern) : List (List Char) :=
  pattern.grid.liveCells.map pattern.cellLine

def linesOf (pattern : Pattern) : Section → List (List Char)
  | .settings => pattern.settingsLines
  | .states => pattern.stateLines
  | .rules => pattern.ruleLines
  | .neighbors => [pattern.neighborhood.render.toList]
  | .size => [pattern.sizeLine]
  | .cells => pattern.cellLines

def fileLines (pattern : Pattern) : List (List Char) :=
  Section.all.flatMap fun part =>
    part.marker.toList :: pattern.linesOf part

def render (pattern : Pattern) : String :=
  String.ofList (unlines pattern.fileLines)

end Pattern

end Cellular
