import Cellular.Proofs.Automaton.Modes
import Cellular.Proofs.Rule.Compiled

/-!
# Compiled rules and the two scan modes

The formulas of compiled rules have no empty conjunction, and their hints are the
computed ones.  The two scan modes agree on them, as on every other table of solid
rules (`withFullScan_agrees`).
-/

namespace Cellular

/-! ## Compiled rules are solid -/

theorem Rule.IsSound.isSolid {states : StateUniverse}
    {neighborhood : Neighborhood} {rule : Rule}
    (h : rule.IsSound states neighborhood) : rule.IsSolid :=
  ⟨h.hint, fun formula hformula => (h.condition formula hformula).noEmptyAll,
    fun formula hformula clause hmem =>
      (h.clauses formula hformula clause hmem).condition.noEmptyAll⟩

theorem Compiler.isSolid_of_mem_compile {compiler : Compiler} {text : String}
    {rule : Rule} (h : rule ∈ (compiler.compile text).table.rules) :
    rule.IsSolid :=
  (isSound_of_mem_compile h).isSolid

namespace Automaton

/-- With computed hints and without empty conjunctions, as in every compiled
table, both scan modes find the same changes or fail alike, and give the same
answers and grids for any number of calls. -/
theorem withFullScan_agrees (automaton : Automaton) (grid : Grid)
    (hsolid : ∀ rule ∈ automaton.table.rules, rule.IsSolid)
    (hconsistent : grid.isConsistent = true) (haddressable : grid.Addressable) :
    (∃ found, automaton.withFullScan.changes? grid false = some found ∧
        automaton.changes? grid false = some found) ∧
      (∀ count,
        automaton.withFullScan.calls count grid = automaton.calls count grid) ∧
      ∀ (compiler : Compiler) (text : String),
        ∀ rule ∈ (compiler.compile text).table.rules, rule.IsSolid := by
  have h := Grid.isConsistent_iff.mp hconsistent
  have hfound := changes?_eq h haddressable.manageable automaton false
  exact ⟨⟨_, (changes?_withFullScan h haddressable hsolid).trans hfound, hfound⟩,
    calls_withFullScan h haddressable hsolid,
    fun _ _ _ => Compiler.isSolid_of_mem_compile⟩

theorem withFullScan_agrees_trail :
    trail.withFullScan.changes? trailRow false = trail.changes? trailRow false ∧
      ∀ count, trail.withFullScan.calls count trailRow =
        trail.calls count trailRow := by
  have hleaf : ∀ source target scope count offset,
      (Rule.ofParts source target
        (some (.leaf ⟨scope, .leaf count⟩)) offset).IsSolid := by
    intro source target scope count offset
    refine ⟨rfl, ?_, ?_⟩
    · rintro formula ⟨⟩
      exact .leaf _
    · rintro formula ⟨⟩ clause hmem
      rw [List.mem_singleton.mp hmem]
      exact .leaf _
  have hnone : ∀ source target offset,
      (Rule.ofParts source target none offset).IsSolid :=
    fun _ _ _ => ⟨rfl, nofun, nofun⟩
  have hsolid : ∀ rule ∈ trail.table.rules, rule.IsSolid := by
    intro rule hmem
    have hcases : rule ∈ [_, _, _, _] := hmem
    simp only [List.mem_cons, List.not_mem_nil, or_false] at hcases
    rcases hcases with rfl | rfl | rfl | rfl
    · exact hleaf ..
    · exact hnone ..
    · exact hnone ..
    · exact hleaf ..
  obtain ⟨⟨found, hfull, hnarrow⟩, hcalls, -⟩ :=
    withFullScan_agrees trail trailRow hsolid (by decide) (by decide)
  exact ⟨hfull.trans hnarrow.symm, hcalls⟩

end Automaton

end Cellular
