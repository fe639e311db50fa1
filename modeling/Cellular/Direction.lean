import Cellular.Text.Blank
import Cellular.Text.Letter

/-!
# Directions

The nine places of a cell's surroundings, in row-major order: three to the
north, the cell itself between west and east, three to the south.  Columns grow
to the east and rows to the south.
-/

namespace Cellular

inductive Direction where
  | northWest
  | north
  | northEast
  | west
  | center
  | east
  | southWest
  | south
  | southEast
  deriving DecidableEq, Repr

namespace Direction

def all : List Direction :=
  [northWest, north, northEast, west, center, east, southWest, south, southEast]

theorem mem_all (direction : Direction) : direction ∈ all := by
  cases direction <;> decide

def index : Direction → Fin 9
  | northWest => 0
  | north => 1
  | northEast => 2
  | west => 3
  | center => 4
  | east => 5
  | southWest => 6
  | south => 7
  | southEast => 8

def eastward : Direction → Int
  | northWest | west | southWest => -1
  | north | center | south => 0
  | northEast | east | southEast => 1

def southward : Direction → Int
  | northWest | north | northEast => -1
  | west | center | east => 0
  | southWest | south | southEast => 1

def name : Direction → String
  | northWest => "NW"
  | north => "N"
  | northEast => "NE"
  | west => "W"
  | center => "C"
  | east => "E"
  | southWest => "SW"
  | south => "S"
  | southEast => "SE"

def ofName? (name : String) : Option Direction :=
  all.find? fun direction => direction.name = name

@[simp] theorem ofName?_name (direction : Direction) :
    ofName? direction.name = some direction := by
  cases direction <;> decide

def parse? (text : String) : Option Direction :=
  ofName? (Text.upperCase (String.ofList (Text.trim text.toList)))

def unknownMessage (text : String) : String :=
  "Unknown direction '" ++ text ++ "'"

end Direction

end Cellular
