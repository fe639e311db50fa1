import Cellular.Proofs.Automaton.Failure
import Cellular.Proofs.Rule.Compiled

/-!
# Runs of compiled tables

The names and directions of sound rules are declared, so no rule of a compiled table is
foreign (`not_isForeign_of_isSound`).  This leaves nothing for a step to fail at, and no
call for a step fails however many have gone before (`compile_runs`).
-/

namespace Cellular.Automaton

variable {automaton : Automaton} {grid : Grid} {rule : Rule}

/-! ## Sound rules -/

def IsSound (automaton : Automaton) : Prop :=
  ∀ rule ∈ automaton.table.rules,
    rule.IsSound automaton.states automaton.neighborhood

theorem isSound_ofTable {states : StateUniverse} {neighborhood : Neighborhood}
    {table : RuleTable}
    (h : ∀ rule ∈ table.rules, rule.IsSound states neighborhood) :
    (ofTable states neighborhood table).IsSound := h

theorem contains_of_mem_names {name : String} (h : name ∈ automaton.states.names) :
    automaton.states.contains name = true :=
  Option.isSome_iff_exists.mpr (StateUniverse.exists_id?_of_mem h)

theorem not_isForeign_of_isSound
    (h : rule.IsSound automaton.states automaton.neighborhood) :
    ¬automaton.IsForeign rule := by
  refine not_isForeign ?_ ?_
  · simp only [Rule.names, List.forall_mem_cons]
    refine ⟨contains_of_mem_names h.source, contains_of_mem_names h.target, ?_⟩
    intro name hname
    obtain ⟨count, hcount, rfl⟩ := List.mem_map.mp hname
    unfold Rule.counts at hcount
    split at hcount
    · cases hcount
    · rename_i formula hformula
      obtain ⟨clause, hclause, hcount⟩ := List.mem_flatMap.mp hcount
      exact contains_of_mem_names
        ((h.clauses formula hformula clause hclause).states count hcount)
  · rintro direction ⟨⟨formula, hformula, clause, hclause, listed, hscope, hmem⟩, hlacks⟩
    rw [(h.clauses formula hformula clause hclause).directions listed hscope direction
      hmem] at hlacks
    cases hlacks

theorem IsSound.not_isForeign (h : automaton.IsSound) :
    ∀ rule ∈ automaton.table.rules, ¬automaton.IsForeign rule :=
  fun rule hmem => not_isForeign_of_isSound (h rule hmem)

/-! ## Runs -/

theorem IsSound.call_ne_error (hsound : automaton.IsSound) (h : grid.Consistent)
    (error : StepError) : (automaton.call grid).1 ≠ some (.error error) := fun hcall =>
  step?_ne_error h hsound.not_isForeign error (step?_of_call_error hcall)

theorem IsSound.exists_call (hsound : automaton.IsSound) (h : grid.Consistent)
    (hextents : Manageable grid.width grid.height) :
    ∃ outcome, (automaton.call grid).1 = some (.ok outcome) := by
  obtain ⟨outcome, after, hstep⟩ := exists_step h hextents hsound.not_isForeign
  exact ⟨outcome, by rw [call_of_step? hstep]⟩

/-- Whatever the text, a compiled table has sound rules only, no two of them for
the same pair of states, and an automaton with this table takes any number of
steps from any consistent grid, and none of them fails.  If the extents are manageable
all of them have an answer. -/
theorem compile_runs (compiler : Compiler) (text : String) :
    (∀ rule ∈ (compiler.compile text).table.rules,
        rule.IsSound compiler.states compiler.neighborhood) ∧
      ((compiler.compile text).table.rules.map Rule.signature).Nodup ∧
      ∀ grid : Grid, grid.isConsistent = true →
        ∀ count, ∀ answer ∈ (ofTable compiler.states compiler.neighborhood
            (compiler.compile text).table).calls count grid,
          (∀ error, answer.1 ≠ some (.error error)) ∧
            (Manageable grid.width grid.height →
              ∃ outcome, answer.1 = some (.ok outcome)) := by
  have hrules : ∀ rule ∈ (compiler.compile text).table.rules,
      rule.IsSound compiler.states compiler.neighborhood :=
    fun _ => Compiler.isSound_of_mem_compile
  refine ⟨hrules, compiler.nodup_signatures_compile text, ?_⟩
  intro grid hconsistent count answer hmem
  have hsound := isSound_ofTable hrules
  have h := Grid.isConsistent_iff.mp hconsistent
  refine ⟨?_, fun hextents => ?_⟩
  · exact h.forall_mem_calls (fun found => ∀ error, found ≠ some (.error error))
      (fun other hother _ _ => hsound.call_ne_error hother) count answer hmem
  · refine h.forall_mem_calls (fun found => ∃ outcome, found = some (.ok outcome))
      (fun other hother hwidth hheight => ?_) count answer hmem
    exact hsound.exists_call hother (by rwa [hwidth, hheight])

def followText : String := "FREE / B : ( N @ = 1#A ) ; A / C ;"

theorem compile_runs_follow :
    trailRow.isConsistent = true ∧ Manageable trailRow.width trailRow.height ∧
      (Compiler.compile ⟨trailStates, .moore, .standard⟩ followText).isOk = false ∧
      ∀ answer ∈ (ofTable trailStates .moore
          (Compiler.compile ⟨trailStates, .moore, .standard⟩
            followText).table).calls 3 trailRow,
        ∃ outcome, answer.1 = some (.ok outcome) := by
  have hextents : Manageable trailRow.width trailRow.height := by
    have haddressable : trailRow.Addressable := by decide
    exact haddressable.manageable
  refine ⟨by decide, hextents, by decide +kernel, fun answer hmem => ?_⟩
  obtain ⟨-, -, hruns⟩ := compile_runs ⟨trailStates, .moore, .standard⟩ followText
  exact (hruns trailRow (by decide) 3 answer hmem).2 hextents

end Cellular.Automaton
