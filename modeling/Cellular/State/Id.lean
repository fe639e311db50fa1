/-!
# State identifiers

A cell holds a state, written as a 16-bit identifier.  Identifier 0 is `FREE`,
the state of an empty cell.  Identifiers are ordered as numbers.
-/

namespace Cellular

structure StateId where
  value : UInt16
  deriving DecidableEq, Repr

namespace StateId

def free : StateId := ⟨0⟩

def isFree (state : StateId) : Bool := state = free

def index (state : StateId) : Nat := state.value.toNat

/-- The identifier that a number abbreviates; bits past the sixteenth are lost. -/
def ofIndex (index : Nat) : StateId := ⟨UInt16.ofNat index⟩

def render (state : StateId) : String := "#" ++ toString state.index

instance : Ord StateId := ⟨fun first second => compare first.value second.value⟩

instance : Std.TransOrd StateId where
  eq_swap := Std.OrientedOrd.eq_swap (α := UInt16)
  isLE_trans := Std.TransOrd.isLE_trans (α := UInt16)

instance : Std.LawfulEqOrd StateId where
  eq_of_compare {first second} h := by
    cases first
    cases second
    exact congrArg StateId.mk (Std.LawfulEqOrd.eq_of_compare h)

theorem index_ofIndex {n : Nat} (h : n < 65536) : (ofIndex n).index = n := by
  simp [ofIndex, index, Nat.mod_eq_of_lt h]

theorem ofIndex_index (state : StateId) : ofIndex state.index = state := by
  cases state
  simp [ofIndex, index]

end StateId

end Cellular
