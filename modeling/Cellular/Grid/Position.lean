import Cellular.Direction
import Cellular.Word
import Std.Data.ExtTreeMap
import Std.Data.ExtTreeSet

/-!
# Positions

A position is a column and a row.  Positions are ordered row by row, and each
row from west to east.  A step that leaves the range of a signed word leads to no
position.
-/

namespace Cellular

structure Position where
  x : Int
  y : Int
  deriving DecidableEq, Repr

namespace Position

instance : Ord Position :=
  ⟨fun first second => (compare first.y second.y).then (compare first.x second.x)⟩

theorem compare_def (first second : Position) :
    compare first second =
      (compare first.y second.y).then (compare first.x second.x) := rfl

instance : Std.TransOrd Position :=
  inferInstanceAs (Std.TransCmp
    (compareLex (compareOn Position.y) (compareOn Position.x)))

instance : Std.LawfulEqOrd Position where
  eq_of_compare {first second} h := by
    obtain ⟨hy, hx⟩ := Ordering.then_eq_eq.mp h
    cases first
    cases second
    cases Std.LawfulEqOrd.eq_of_compare hy
    cases Std.LawfulEqOrd.eq_of_compare hx
    rfl

theorem compare_eq_lt {first second : Position} :
    compare first second = .lt ↔
      first.y < second.y ∨ first.y = second.y ∧ first.x < second.x := by
  rw [compare_def, Ordering.then_eq_lt]
  simp [Std.compare_eq_lt]

def step? (position : Position) (direction : Direction) : Option Position := do
  some ⟨← Word.toSigned? (position.x + direction.eastward),
    ← Word.toSigned? (position.y + direction.southward)⟩

def stepBack? (position : Position) (direction : Direction) : Option Position := do
  some ⟨← Word.toSigned? (position.x - direction.eastward),
    ← Word.toSigned? (position.y - direction.southward)⟩

def surroundings? (position : Position) : Option (List Position) :=
  Direction.all.mapM position.step?

end Position

abbrev PositionSet := Std.ExtTreeSet Position

end Cellular
