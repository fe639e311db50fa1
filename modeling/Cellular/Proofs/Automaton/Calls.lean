import Cellular.Automaton.Generation
import Cellular.Proofs.Grid.Changes
import Cellular.Proofs.Success

/-!
# Calls for a step

A step works on a grid at hand and sets one cell after the other, but not before it
knows that all changes of its generation lie inside the grid.  So a call that fails or
has no answer leaves the grid as it was (`stepInPlace_eq`), and all others leave a
consistent grid consistent (`Consistent.step`).
-/

namespace Cellular

namespace Automaton

variable {automaton : Automaton} {grid after : Grid} {cancelled : Bool}
  {changes : List CellChange}

/-! ## What a step comes to -/

/-- What a step comes to when the given changes are due. -/
def outcomeOf (changes : List CellChange) : StepOutcome :=
  if changes.isEmpty then .finished else .changed changes

theorem outcomeOf_eq_finished_iff : outcomeOf changes = .finished ↔ changes = [] := by
  cases changes <;> simp [outcomeOf]

theorem eq_of_outcomeOf_eq_changed {found : List CellChange}
    (h : outcomeOf changes = .changed found) : changes = found := by
  cases changes with
  | nil => cases h
  | cons change changes => exact StepOutcome.changed.inj h

theorem advance_eq_ok (h : ∀ change ∈ changes, grid.inBounds change.position = true) :
    grid.advance changes = .ok (outcomeOf changes, grid.putAll changes) := by
  rw [Grid.advance, Grid.apply_eq_ok h]
  cases changes <;> rfl

theorem advance_eq_ok_iff {outcome : StepOutcome} :
    grid.advance changes = .ok (outcome, after) ↔
      (∀ change ∈ changes, grid.inBounds change.position = true) ∧
        outcomeOf changes = outcome ∧ grid.putAll changes = after := by
  constructor
  · intro h
    have hbounds : ∀ change ∈ changes, grid.inBounds change.position = true := by
      cases changes with
      | nil => nofun
      | cons change changes =>
          simp only [Grid.advance, List.isEmpty_cons, Bool.false_eq_true, if_false] at h
          split at h
          · rename_i next happly
            exact (Grid.apply_eq_ok_iff.mp happly).1
          · cases h
    rw [advance_eq_ok hbounds] at h
    cases h
    exact ⟨hbounds, rfl, rfl⟩
  · rintro ⟨hbounds, rfl, rfl⟩
    exact advance_eq_ok hbounds

theorem step?_of_changes? (hchanges : automaton.changes? grid cancelled = some (.ok changes))
    (hbounds : ∀ change ∈ changes, grid.inBounds change.position = true) :
    automaton.step? grid cancelled =
      some (.ok (outcomeOf changes, grid.putAll changes)) := by
  rw [step?, bind_of_eq_some hchanges, Except.bind, advance_eq_ok hbounds]

theorem step?_eq_ok_iff {outcome : StepOutcome} :
    automaton.step? grid cancelled = some (.ok (outcome, after)) ↔
      ∃ changes, automaton.changes? grid cancelled = some (.ok changes) ∧
        (∀ change ∈ changes, grid.inBounds change.position = true) ∧
        outcomeOf changes = outcome ∧ grid.putAll changes = after := by
  constructor
  · intro h
    obtain ⟨found, hfound, h⟩ := Option.bind_eq_some_iff.mp h
    obtain ⟨changes, rfl, hadvance⟩ := bind_eq_ok_iff.mp (Option.some.inj h)
    exact ⟨changes, hfound, advance_eq_ok_iff.mp hadvance⟩
  · rintro ⟨changes, hchanges, hbounds, rfl, rfl⟩
    exact step?_of_changes? hchanges hbounds

/-! ## Steps in place -/

/-- A step on a grid at hand: what it answers, and the grid that is there afterwards.
Where there is no answer the step breaks off before it sets a cell. -/
def stepInPlace (automaton : Automaton) (cancelled : Bool) (grid : Grid) :
    Option (Except StepError StepOutcome) × Grid :=
  match automaton.changes? grid cancelled with
  | none => (none, grid)
  | some (.error error) => (some (.error error), grid)
  | some (.ok changes) =>
      if changes.isEmpty then (some (.ok .finished), grid)
      else
        match grid.applyInPlace changes with
        | (.ok (), after) => (some (.ok (.changed changes)), after)
        | (.error error, after) => (some (.error (.grid error)), after)

theorem stepInPlace_eq :
    automaton.stepInPlace cancelled grid =
      match automaton.step? grid cancelled with
      | none => (none, grid)
      | some (.error error) => (some (.error error), grid)
      | some (.ok (outcome, after)) => (some (.ok outcome), after) := by
  rw [stepInPlace, step?]
  cases automaton.changes? grid cancelled with
  | none => rfl
  | some found =>
      cases found with
      | error error => rfl
      | ok changes =>
          simp only [Option.bind_eq_bind, Option.bind_some, Except.bind, Grid.advance,
            Grid.applyInPlace_eq]
          split
          · rfl
          · cases grid.apply changes <;> rfl

theorem stepInPlace_eq_ok_iff {outcome : StepOutcome} :
    automaton.stepInPlace cancelled grid = (some (.ok outcome), after) ↔
      automaton.step? grid cancelled = some (.ok (outcome, after)) := by
  rw [stepInPlace_eq]
  rcases automaton.step? grid cancelled with _ | _ | _ <;> simp [Prod.ext_iff]

theorem stepInPlace_eq_error_iff {error : StepError} :
    automaton.stepInPlace cancelled grid = (some (.error error), after) ↔
      automaton.step? grid cancelled = some (.error error) ∧ after = grid := by
  rw [stepInPlace_eq]
  rcases automaton.step? grid cancelled with _ | _ | _ <;> simp [eq_comm]

theorem stepInPlace_eq_none_iff :
    automaton.stepInPlace cancelled grid = (none, after) ↔
      automaton.step? grid cancelled = none ∧ after = grid := by
  rw [stepInPlace_eq]
  rcases automaton.step? grid cancelled with _ | _ | _ <;> simp [eq_comm]

def call (automaton : Automaton) (grid : Grid) :
    Option (Except StepError StepOutcome) × Grid :=
  automaton.stepInPlace false grid

theorem call_of_step? {outcome : StepOutcome}
    (h : automaton.step? grid false = some (.ok (outcome, after))) :
    automaton.call grid = (some (.ok outcome), after) := by
  rw [call, stepInPlace_eq, h]

theorem step?_of_call {outcome : StepOutcome}
    (h : (automaton.call grid).1 = some (.ok outcome)) :
    automaton.step? grid false = some (.ok (outcome, (automaton.call grid).2)) :=
  stepInPlace_eq_ok_iff.mp (Prod.ext h rfl)

theorem step?_of_call_error {error : StepError}
    (h : (automaton.call grid).1 = some (.error error)) :
    automaton.step? grid false = some (.error error) :=
  (stepInPlace_eq_error_iff.mp (Prod.ext h rfl)).1

theorem step?_of_call_none (h : (automaton.call grid).1 = none) :
    automaton.step? grid false = none :=
  (stepInPlace_eq_none_iff.mp (Prod.ext h rfl)).1

def calls (automaton : Automaton) :
    Nat → Grid → List (Option (Except StepError StepOutcome) × Grid)
  | 0, _ => []
  | count + 1, grid =>
      automaton.call grid :: automaton.calls count (automaton.call grid).2

end Automaton

namespace Grid

open Automaton

variable {grid after : Grid} {automaton : Automaton} {cancelled : Bool}

theorem Consistent.apply {changes : List CellChange} (h : grid.Consistent)
    (happly : grid.apply changes = .ok after) : after.Consistent := by
  obtain ⟨hbounds, rfl⟩ := apply_eq_ok_iff.mp happly
  exact h.putAll hbounds

theorem Consistent.step {outcome : StepOutcome} (h : grid.Consistent)
    (hstep : automaton.step? grid cancelled = some (.ok (outcome, after))) :
    after.Consistent := by
  obtain ⟨changes, -, hbounds, -, rfl⟩ := step?_eq_ok_iff.mp hstep
  exact h.putAll hbounds

theorem extents_of_step? {outcome : StepOutcome}
    (hstep : automaton.step? grid cancelled = some (.ok (outcome, after))) :
    after.width = grid.width ∧ after.height = grid.height := by
  obtain ⟨changes, -, -, -, rfl⟩ := step?_eq_ok_iff.mp hstep
  exact ⟨width_putAll changes, height_putAll changes⟩

theorem Consistent.stepInPlace (h : grid.Consistent) (automaton : Automaton)
    (cancelled : Bool) :
    (automaton.stepInPlace cancelled grid).2.Consistent ∧
      (automaton.stepInPlace cancelled grid).2.width = grid.width ∧
      (automaton.stepInPlace cancelled grid).2.height = grid.height := by
  rw [Automaton.stepInPlace_eq]
  split
  · exact ⟨h, rfl, rfl⟩
  · exact ⟨h, rfl, rfl⟩
  · rename_i outcome after hstep
    exact ⟨h.step hstep, extents_of_step? hstep⟩

/-- What is true of the answers at all consistent grids of some extents is true of every
answer in a run. -/
theorem Consistent.forall_mem_calls (h : grid.Consistent)
    (property : Option (Except StepError StepOutcome) → Prop)
    (hcall : ∀ other : Grid, other.Consistent → other.width = grid.width →
      other.height = grid.height → property (automaton.call other).1)
    (count : Nat) : ∀ answer ∈ automaton.calls count grid, property answer.1 := by
  induction count generalizing grid with
  | zero => nofun
  | succ count ih =>
      obtain ⟨hafter, hwidth, hheight⟩ := h.stepInPlace automaton false
      rw [calls, List.forall_mem_cons]
      refine ⟨hcall grid h rfl rfl, ih hafter fun other hother hw hh => ?_⟩
      exact hcall other hother (hw.trans hwidth) (hh.trans hheight)

end Grid

end Cellular
