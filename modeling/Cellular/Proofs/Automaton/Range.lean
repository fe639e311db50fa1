import Cellular.Proofs.Automaton.Exact
import Cellular.Proofs.Grid.Range
import Cellular.Proofs.Pattern.Reproduction

/-!
# Steps that stay in range

On every grid that a configuration may have, a step in words comes to the same as one in
exact arithmetic, whichever way it looks for cells (`step_in_range`).
-/

namespace Cellular.Automaton

variable {grid : Grid}

/-- On a grid that a configuration may have no operation leaves its range, and neither does
any step, whichever way it looks for cells. -/
theorem step_in_range {config : AutomatonConfig} (hcheck : config.check = .ok ())
    (hwidth : grid.width = config.width) (hheight : grid.height = config.height)
    (hconsistent : grid.isConsistent = true) (automaton : Automaton) (cancelled : Bool) :
    grid.IsInRange ∧
      automaton.step? grid cancelled = some (automaton.step grid cancelled) := by
  obtain ⟨hcolumns, hrows, harea⟩ := AutomatonConfig.check_eq_ok hcheck
  have h : grid.IsAdmissible := by
    refine ⟨hwidth ▸ hcolumns, hheight ▸ hrows, ?_, Grid.isConsistent_iff.mp hconsistent⟩
    rwa [Grid.Addressable, hwidth, hheight]
  exact ⟨h.isInRange, step?_eq h.consistent h.addressable.manageable automaton cancelled⟩

def longestConfig : AutomatonConfig :=
  { AutomatonConfig.standard with width := 9223372036854775807, height := 1 }

def longestRow : Grid :=
  (Grid.empty 9223372036854775807 1).put ⟨9223372036854775806, 0⟩ ⟨1⟩

theorem step_in_range_longest :
    longestConfig.check = .ok () ∧ longestRow.isConsistent = true ∧
      longestRow.IsInRange ∧
      ∀ fullScan cancelled, step? ⟨AutomatonConfig.lifeStates, .moore,
          (longestConfig.compile).table, fullScan⟩ longestRow cancelled =
        some (step ⟨AutomatonConfig.lifeStates, .moore, (longestConfig.compile).table, fullScan⟩
          longestRow cancelled) := by
  have hcheck : longestConfig.check = .ok () := by decide
  have hconsistent : longestRow.isConsistent = true := by decide
  refine ⟨hcheck, hconsistent, (step_in_range hcheck rfl rfl hconsistent
    (ofTable .freeOnly .moore ⟨[]⟩) false).1, fun fullScan cancelled => ?_⟩
  exact (step_in_range hcheck rfl rfl hconsistent _ cancelled).2

end Cellular.Automaton
