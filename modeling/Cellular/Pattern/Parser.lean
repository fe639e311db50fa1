import Cellular.Pattern.Basic
import Cellular.Pattern.Section

/-!
# Reading patterns

Every section but the summary is required, and they are read one after the other:
states, rules, neighborhood, size, cells.  The first fault is reported, with the
number of its line in the whole text.
-/

namespace Cellular

open Text

inductive LineFault where
  | unknownDirection (word : String)
  | size (text : String)
  | cell (text : String)
  deriving DecidableEq, Repr

def LineFault.message : LineFault → String
  | .unknownDirection word => "unknown direction '" ++ word ++ "'"
  | .size text => "expected 'rows cols', found '" ++ text ++ "'"
  | .cell text => "expected 'x y STATE;', found '" ++ text ++ "'"

inductive PatternError where
  | missingSection (part : Section)
  | malformed (line : Nat) (fault : LineFault)
  | unknownState (line : Nat) (name : String)
  | outOfBounds (line : Nat) (x y : Int) (columns rows : Nat)
  | state (error : StateError)
  deriving DecidableEq, Repr

def PatternError.message : PatternError → String
  | .missingSection part => "Missing section " ++ part.marker
  | .malformed line fault => "Line " ++ toString line ++ ": " ++ fault.message
  | .unknownState line name =>
      "Line " ++ toString line ++ ": unknown state '" ++ name ++ "'"
  | .outOfBounds line x y columns rows =>
      "Line " ++ toString line ++ ": cell (" ++ toString x ++ ", " ++
        toString y ++ ") lies outside the " ++ toString columns ++ "x" ++
        toString rows ++ " grid"
  | .state error => error.message

namespace Pattern

def requireSection (text : List NumberedLine) (part : Section) :
    Except PatternError (List NumberedLine) :=
  match part.body? text with
  | some body => .ok body
  | none => .error (.missingSection part)

/-! ## Summary, states, rules and neighborhood -/

def readSettings (text : List NumberedLine) : String :=
  "\n".intercalate
    (((Section.settings.body? text).getD []).map fun line =>
      String.ofList line.text)

def stateName (line : NumberedLine) : List Char :=
  trim ((trim line.text).reverse.dropWhile (· = ';')).reverse

def readStates (body : List NumberedLine) : Except PatternError StateUniverse :=
  let names := (body.map stateName).filter fun name => !name.isEmpty
  (StateUniverse.ofNames (names.map String.ofList)).mapError .state

def readRules (body : List NumberedLine) : String :=
  String.ofList
    (unlines ((body.filter fun line => !line.isBlank).map NumberedLine.text))

def readDirections (line : NumberedLine) : Except PatternError (List Direction) :=
  (words line.text).mapM fun word =>
    match Direction.parse? (String.ofList word) with
    | some direction => .ok direction
    | none =>
        .error (.malformed line.number (.unknownDirection (String.ofList word)))

def readNeighborhood (body : List NumberedLine) :
    Except PatternError Neighborhood := do
  let directions ← body.mapM readDirections
  .ok (.ofList directions.flatten)

/-! ## Size -/

def sizeOfLine? (text : List Char) : Option (Nat × Nat) := do
  match ← (words text).mapM (unsigned? (Word.modulus - 1)) with
  | [rows, columns] => if 0 < rows ∧ 0 < columns then some (rows, columns) else none
  | _ => none

def readSize (body : List NumberedLine) : Except PatternError (Nat × Nat) :=
  match body.find? fun line => !line.isBlank with
  | none => .error (.missingSection .size)
  | some line =>
      match sizeOfLine? line.text with
      | some size => .ok size
      | none =>
          .error (.malformed line.number (.size (String.ofList (trim line.text))))

/-! ## Cells -/

structure CellEntry where
  x : Int
  y : Int
  name : String
  deriving DecidableEq, Repr

def CellEntry.ofLine? (text : List Char) : Option CellEntry :=
  if text.getLast? = some ';' then
    match words text.dropLast with
    | [x, y, name] => do
        some ⟨← signed? (Word.signedBound - 1) x,
          ← signed? (Word.signedBound - 1) y, String.ofList name⟩
    | _ => none
  else none

/-- The position of an entry: the coordinates count from the center. -/
def CellEntry.position (entry : CellEntry) (grid : Grid) : Position :=
  ⟨Word.signed (entry.x + (grid.width / 2 : Nat)),
    Word.signed (entry.y + (grid.height / 2 : Nat))⟩

def readCell (states : StateUniverse) (grid : Grid) (line : NumberedLine) :
    Except PatternError Grid :=
  if line.isBlank then .ok grid
  else
    match CellEntry.ofLine? (trim line.text) with
    | none =>
        .error (.malformed line.number (.cell (String.ofList (trim line.text))))
    | some entry =>
        match (states.id? entry.name).filter fun state => !state.isFree with
        | none => .error (.unknownState line.number entry.name)
        | some state =>
            match grid.set (entry.position grid) state with
            | .ok (_, grid) => .ok grid
            | .error _ =>
                .error (.outOfBounds line.number entry.x entry.y grid.width
                  grid.height)

def readCells (states : StateUniverse) (grid : Grid) (body : List NumberedLine) :
    Except PatternError Grid :=
  body.foldlM (readCell states) grid

/-! ## The whole text -/

def parseLines (text : List NumberedLine) : Except PatternError Pattern := do
  let states ← readStates (← requireSection text .states)
  let rules := readRules (← requireSection text .rules)
  let neighborhood ← readNeighborhood (← requireSection text .neighbors)
  let (rows, columns) ← readSize (← requireSection text .size)
  let grid ←
    readCells states (.empty columns rows) (← requireSection text .cells)
  .ok ⟨readSettings text, states, rules, neighborhood, grid⟩

def parse (text : String) : Except PatternError Pattern :=
  parseLines (numberedLines text.toList)

end Pattern

end Cellular
