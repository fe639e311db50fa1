import Cellular.Grid.Basic

/-!
# The index of states

What adding and removing a position does to the positions of every state, and
why neither leaves a state without positions in the index (`IsTight`).
-/

namespace Cellular

namespace StateIndex

variable {index : StateIndex} {state other : StateId}
  {position place : Position}

theorem positions_of_getElem? {positions : PositionSet}
    (h : index[state]? = some positions) : index.positions state = positions := by
  simp [StateIndex.positions, h]

theorem positions_of_getElem?_none (h : index[state]? = none) :
    index.positions state = ∅ := by
  simp [StateIndex.positions, h]

theorem positions_add :
    (index.add state position).positions other =
      if state = other then (index.positions state).insert position
      else index.positions other := by
  simp only [positions, add, Std.ExtTreeMap.getElem?_insert,
    Std.LawfulEqCmp.compare_eq_iff_eq]
  split <;> rfl

theorem positions_remove :
    (index.remove state position).positions other =
      if state = other then (index.positions state).erase position
      else index.positions other := by
  unfold remove
  split
  · rename_i hnone
    split
    · rename_i heq
      rw [← heq, positions_of_getElem?_none hnone, Std.ExtTreeSet.erase_empty]
    · rfl
  · rename_i positions hsome
    rw [positions_of_getElem? hsome]
    by_cases hempty : (positions.erase position).isEmpty = true
    · rw [if_pos hempty, StateIndex.positions, Std.ExtTreeMap.getElem?_erase]
      simp only [Std.LawfulEqCmp.compare_eq_iff_eq]
      split
      · exact (Std.ExtTreeSet.isEmpty_iff.mp hempty).symm
      · rfl
    · rw [if_neg hempty, StateIndex.positions, Std.ExtTreeMap.getElem?_insert]
      simp only [Std.LawfulEqCmp.compare_eq_iff_eq]
      split <;> rfl

theorem mem_positions_add :
    place ∈ (index.add state position).positions other ↔
      (other = state ∧ place = position) ∨
        place ∈ index.positions other := by
  rw [positions_add]
  split
  · rename_i heq
    subst heq
    simp [Std.ExtTreeSet.mem_insert, eq_comm (a := place)]
  · rename_i hne
    simp [Ne.symm hne]

theorem mem_positions_remove :
    place ∈ (index.remove state position).positions other ↔
      place ∈ index.positions other ∧
        ¬(other = state ∧ place = position) := by
  rw [positions_remove]
  split
  · rename_i heq
    subst heq
    simp [Std.ExtTreeSet.mem_erase, eq_comm (a := place), and_comm]
  · rename_i hne
    simp [Ne.symm hne]

def IsTight (index : StateIndex) : Prop :=
  ∀ (state : StateId) (positions : PositionSet),
    index[state]? = some positions → positions ≠ ∅

theorem IsTight.add (h : index.IsTight) : (index.add state position).IsTight := by
  intro other positions hentry
  simp only [StateIndex.add, Std.ExtTreeMap.getElem?_insert,
    Std.LawfulEqCmp.compare_eq_iff_eq] at hentry
  split at hentry
  · cases hentry
    exact Std.ExtTreeSet.insert_ne_empty
  · exact h other positions hentry

theorem IsTight.remove (h : index.IsTight) :
    (index.remove state position).IsTight := by
  intro other positions hentry
  unfold StateIndex.remove at hentry
  split at hentry
  · exact h other positions hentry
  · rename_i old hold
    by_cases hempty : (old.erase position).isEmpty = true
    · rw [if_pos hempty, Std.ExtTreeMap.getElem?_erase] at hentry
      split at hentry
      · cases hentry
      · exact h other positions hentry
    · rw [if_neg hempty, Std.ExtTreeMap.getElem?_insert] at hentry
      split at hentry
      · cases hentry
        exact fun heq => hempty (Std.ExtTreeSet.isEmpty_iff.mpr heq)
      · exact h other positions hentry

theorem IsTight.getElem?_eq (h : index.IsTight) :
    index[state]? = if (index.positions state).isEmpty then none
      else some (index.positions state) := by
  cases hentry : index[state]? with
  | none => simp [positions_of_getElem?_none hentry]
  | some positions =>
      have hsome : ¬positions.isEmpty = true := fun hempty =>
        h state positions hentry (Std.ExtTreeSet.isEmpty_iff.mp hempty)
      rw [positions_of_getElem? hentry, if_neg hsome]

theorem IsTight.ext {first second : StateIndex} (hfirst : first.IsTight)
    (hsecond : second.IsTight)
    (h : ∀ state, first.positions state = second.positions state) :
    first = second := by
  refine Std.ExtTreeMap.ext_getElem? fun state => ?_
  rw [hfirst.getElem?_eq, hsecond.getElem?_eq, h]

end StateIndex

end Cellular
