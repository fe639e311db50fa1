import Cellular.Proofs.Automaton.Generation

/-!
# The two scan modes

Where the hints are the computed ones and no conjunction is empty, an automaton
that chooses its scan by cost and one that always scans fully give the same
changes, and so go on alike for any number of steps.
-/

namespace Cellular.Automaton

variable {automaton : Automaton} {grid : Grid} {rules : List Rule}
  {visited : PositionSet}

instance : Std.Asymm (automaton.ChangesBefore grid rules) where
  asymm first second h h' := by
    obtain ⟨earlier, later, one, two, hone, htwo, horder⟩ := h
    obtain ⟨earlier', later', two', one', htwo', hone', horder'⟩ := h'
    have hfirst := hone.place_unique hone'
    have hsecond := htwo.place_unique htwo'
    rcases horder with hlt | ⟨heq, hprecedes⟩ <;>
      rcases horder' with hlt' | ⟨heq', hprecedes'⟩
    · omega
    · omega
    · omega
    · exact Std.Asymm.asymm _ _ hprecedes hprecedes'

theorem Sweeps.unique {first second : List CellChange}
    (h : automaton.Sweeps grid visited rules first)
    (h' : automaton.Sweeps grid visited rules second) : first = second := by
  refine h.ordered.eq_of_mem_iff h'.ordered ?_
  intro change
  rw [h.mem_iff, h'.mem_iff]

/-- Which scan is taken has no part in what the rules are to change. -/
theorem Sweeps.of_withFullScan {changes : List CellChange}
    (h : automaton.withFullScan.Sweeps grid visited rules changes) :
    automaton.Sweeps grid visited rules changes :=
  ⟨h.mem_iff, h.ordered⟩

theorem changes?_withFullScan (h : grid.Consistent)
    (haddressable : grid.Addressable)
    (hsolid : ∀ rule ∈ automaton.table.rules, rule.IsSolid) :
    automaton.withFullScan.changes? grid false = automaton.changes? grid false := by
  rw [changes?_eq h haddressable.manageable, changes?_eq h haddressable.manageable]
  cases hresolve : automaton.resolve with
  | error error =>
      simp only [changes, resolve_withFullScan, hresolve, bind, Except.bind]
  | ok images =>
      have hfull : automaton.withFullScan.resolve = .ok images :=
        resolve_withFullScan.trans hresolve
      obtain ⟨narrow, hnarrow, hsweeps⟩ :=
        exists_changes h haddressable hresolve (Or.inr hsolid)
      obtain ⟨full, hchanges, hsweeps'⟩ :=
        exists_changes h haddressable hfull (Or.inl rfl)
      rw [hchanges, hnarrow, hsweeps'.of_withFullScan.unique hsweeps]

theorem call_withFullScan (h : grid.Consistent)
    (haddressable : grid.Addressable)
    (hsolid : ∀ rule ∈ automaton.table.rules, rule.IsSolid) :
    automaton.withFullScan.call grid = automaton.call grid := by
  rw [call, call, stepInPlace, stepInPlace, changes?_withFullScan h haddressable hsolid]

theorem calls_withFullScan (h : grid.Consistent)
    (haddressable : grid.Addressable)
    (hsolid : ∀ rule ∈ automaton.table.rules, rule.IsSolid) (count : Nat) :
    automaton.withFullScan.calls count grid = automaton.calls count grid := by
  -- Each call leaves a grid of which the same hypotheses hold.
  induction count generalizing grid with
  | zero => rfl
  | succ count ih =>
      obtain ⟨hafter, hwidth, hheight⟩ := h.stepInPlace automaton false
      have hextent : (automaton.call grid).2.Addressable := by
        rwa [Grid.Addressable, call, hwidth, hheight]
      have hlater : automaton.withFullScan.calls count (automaton.call grid).2 =
          automaton.calls count (automaton.call grid).2 := ih hafter hextent
      rw [calls, calls, call_withFullScan h haddressable hsolid, hlater]

end Cellular.Automaton
