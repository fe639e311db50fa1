import Cellular.Proofs.Automaton.Calls
import Cellular.Proofs.Grid.Building

/-!
# Histories of a grid

A grid starts without live cells or from a pattern and goes through calls of any
kind, some of them refused or without an answer.  Every call keeps cells and index in step
(`Consistent.perform`), so they tell the same after any number of calls
(`Reachable.index_agrees`).
-/

namespace Cellular.Grid

variable {grid : Grid}

inductive Operation : Type 1 where
  | set (position : Position) (state : StateId)
  | apply (changes : List CellChange)
  | clear
  | populate {σ : Type} (draws : Draws σ) (source : σ) (states : StateUniverse)
      (probability : Float)
  | step (automaton : Automaton) (cancelled : Bool)

def perform (grid : Grid) : Operation → Grid
  | .set position state =>
      match grid.set position state with
      | .ok (_, after) => after
      | .error _ => grid
  | .apply changes => (grid.applyInPlace changes).2
  | .clear => grid.clear
  | .populate draws source states probability =>
      (grid.populate draws source states probability).1
  | .step automaton cancelled => (automaton.stepInPlace cancelled grid).2

inductive Reachable : Grid → Prop
  | empty (width height : Nat) : Reachable (.empty width height)
  | ofPattern {grid : Grid} {width height : Nat} {pattern : List StateId}
      (h : ofPattern? width height pattern = some grid) : Reachable grid
  | perform {grid : Grid} (operation : Operation) (h : Reachable grid) :
      Reachable (grid.perform operation)

/-! ## One call -/

theorem Consistent.set {position : Position} {state old : StateId} {after : Grid}
    (h : grid.Consistent) (hset : grid.set position state = .ok (old, after)) :
    after.Consistent := by
  unfold Grid.set at hset
  split at hset
  · rename_i hbounds
    cases hset
    exact h.put hbounds
  · cases hset

theorem Consistent.perform (h : grid.Consistent) (operation : Operation) :
    (grid.perform operation).Consistent := by
  cases operation with
  | set position state =>
      simp only [Grid.perform]
      split
      · rename_i hset
        exact h.set hset
      · exact h
  | apply changes =>
      rw [Grid.perform, applyInPlace_eq]
      split
      · rename_i happly
        exact h.apply happly
      · exact h
  | clear => exact consistent_empty grid.width grid.height
  | populate draws source states probability =>
      exact consistent_populate draws source grid states probability
  | step automaton cancelled => exact (h.stepInPlace automaton cancelled).1

/-! ## Any number of calls -/

theorem Reachable.consistent (h : Reachable grid) : grid.Consistent := by
  induction h with
  | empty width height => exact consistent_empty width height
  | ofPattern hpattern =>
      obtain ⟨-, rfl⟩ := ofPattern?_eq_some_iff.mp hpattern
      exact consistent_ofPattern _ _ _
  | perform operation _ ih => exact ih.perform operation

/-- Whatever has been done to a grid, its index lists a position under a state
exactly if the cell at this position holds the state.  The index has neither the
free state nor a state without positions, and nothing is stored outside the
extent. -/
theorem Reachable.index_agrees (h : Reachable grid) :
    (∀ state position, position ∈ grid.index.positions state ↔
        grid.cells[position]? = some state) ∧
      (∀ (state : StateId) (positions : PositionSet),
        grid.index[state]? = some positions → state ≠ .free ∧ positions ≠ ∅ ∧
          ∀ position ∈ positions, grid.inBounds position = true) ∧
      ∀ (position : Position) (state : StateId),
        grid.cells[position]? = some state →
          state ≠ .free ∧ grid.inBounds position = true := by
  have hconsistent := h.consistent
  obtain ⟨-, hentries⟩ :=
    isConsistent_iff_entries.mp (isConsistent_iff.mpr hconsistent)
  refine ⟨fun _ _ => hconsistent.mem_iff, ?_, fun position state hcell =>
    ⟨hconsistent.live hcell, hconsistent.inBounds hcell⟩⟩
  intro state positions hentry
  obtain ⟨hlive, hsome, hcells⟩ := hentries state positions hentry
  exact ⟨hlive, hsome, fun position hmem => (hcells position hmem).2⟩

/-- Two cells of one state, of which a batch takes one away, after a batch that
is refused because of its second change. -/
def editedGrid : Grid :=
  ((Grid.ofPattern 2 2 [⟨1⟩, .free, ⟨1⟩]).perform
      (.apply [⟨⟨1⟩, ⟨2⟩, ⟨0, 0⟩⟩, ⟨.free, ⟨1⟩, ⟨5, 5⟩⟩])).perform
    (.apply [⟨⟨1⟩, .free, ⟨0, 0⟩⟩, ⟨.free, ⟨2⟩, ⟨1, 0⟩⟩])

theorem Reachable.index_agrees_edited :
    editedGrid.Reachable ∧
      (∀ state position, position ∈ editedGrid.index.positions state ↔
        editedGrid.cells[position]? = some state) ∧
      editedGrid.positions ⟨1⟩ = [⟨0, 1⟩] ∧ editedGrid.positions ⟨2⟩ = [⟨1, 0⟩] := by
  have hreachable : editedGrid.Reachable :=
    .perform _ (.perform _ (.ofPattern (ofPattern?_eq (by decide) [⟨1⟩, .free, ⟨1⟩])))
  exact ⟨hreachable, (Reachable.index_agrees hreachable).1, by decide, by decide⟩

end Cellular.Grid
