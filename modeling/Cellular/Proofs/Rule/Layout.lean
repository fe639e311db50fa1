import Cellular.Proofs.Rule.Compiled
import Cellular.Rule.Table

/-!
# The lines of a rule table

The text of a sound rule stands on one line and starts with its first state.  So a
compiled table is read back as one line for each of its rules (`lines_render`).
-/

namespace Cellular

open Text

variable {states : StateUniverse} {neighborhood : Neighborhood}

theorem Formula.unbroken_render {α : Type} {leafText : α → String}
    {formula : Formula α}
    (h : ∀ value ∈ formula.leaves, Unbroken (leafText value).toList) :
    Unbroken (formula.render leafText).toList := by
  have hjoined : ∀ (separator : String) (terms : List (Formula α)),
      Unbroken separator.toList →
      (∀ term ∈ terms, Unbroken (term.render leafText).toList) →
      Unbroken (separator.intercalate (terms.map (render leafText))).toList := by
    intro separator terms hseparator hterms
    rw [String.toList_intercalate]
    refine unbroken_intercalate hseparator ?_
    simpa using hterms
  induction formula with
  | leaf value => exact h value (by simp)
  | all terms ih =>
      rw [render, renderList_eq]
      refine hjoined _ terms (by decide) fun term hmem => ih term hmem ?_
      exact fun value hvalue => h value (by simpa using ⟨term, hmem, hvalue⟩)
  | any terms ih =>
      rw [render, renderList_eq]
      refine hjoined _ terms (by decide) fun term hmem => ih term hmem ?_
      exact fun value hvalue => h value (by simpa using ⟨term, hmem, hvalue⟩)

theorem CountCondition.unbroken_render {condition : CountCondition String}
    (h : condition.state ∈ states.names) :
    Unbroken (condition.render id).toList := by
  have hsign : Unbroken condition.comparator.sign.toList := by
    cases condition.comparator <;> decide
  have hcount := (isWord_toString_nat condition.count).unbroken
  have hstate := (StateUniverse.isCanonicalName_of_mem h).isWord.unbroken
  simp only [CountCondition.render, String.toList_append, unbroken_append]
  exact ⟨⟨⟨hsign, hcount⟩, by decide⟩, hstate⟩

theorem Scope.unbroken_render (scope : Scope) : Unbroken scope.render.toList := by
  have hname : ∀ direction : Direction, Unbroken direction.name.toList :=
    fun direction => direction.isCanonicalName_name.isWord.unbroken
  unfold render
  split
  · decide
  · exact hname _
  · rename_i listed _
    have hlisted : Unbroken (",".intercalate (listed.map Direction.name)).toList := by
      rw [String.toList_intercalate]
      refine unbroken_intercalate (by decide) ?_
      simpa using fun direction _ => hname direction
    simp only [String.toList_append, unbroken_append]
    exact ⟨⟨by decide, hlisted⟩, by decide⟩

theorem Clause.IsSound.unbroken_render {clause : Clause}
    (h : clause.IsSound states neighborhood) : Unbroken clause.render.toList := by
  have hcondition := Formula.unbroken_render fun count hmem =>
    CountCondition.unbroken_render (h.states count hmem)
  simp only [Clause.render, String.toList_append, unbroken_append]
  exact ⟨⟨⟨⟨by decide, clause.scope.unbroken_render⟩, by decide⟩, hcondition⟩,
    by decide⟩

namespace Rule

variable {rule : Rule}

theorem exists_render_eq_append (rule : Rule) :
    ∃ rest, rule.render.toList = rule.source.toList ++ rest := by
  unfold render
  split <;> simp only [String.toList_append, List.append_assoc] <;> exact ⟨_, rfl⟩

theorem IsSound.unbroken_render (h : rule.IsSound states neighborhood) :
    Unbroken rule.render.toList := by
  have hsource := (StateUniverse.isCanonicalName_of_mem h.source).isWord.unbroken
  have htarget := (StateUniverse.isCanonicalName_of_mem h.target).isWord.unbroken
  have hslash : Unbroken " / ".toList := by decide
  have hend : Unbroken " ;".toList := by decide
  unfold render
  split
  · simp only [String.toList_append, unbroken_append]
    exact ⟨⟨⟨hsource, hslash⟩, htarget⟩, hend⟩
  · rename_i formula hformula
    have hclauses := Formula.unbroken_render fun clause hmem =>
      (h.clauses formula hformula clause hmem).unbroken_render
    simp only [String.toList_append, unbroken_append]
    exact ⟨⟨⟨⟨⟨hsource, hslash⟩, htarget⟩, by decide⟩, hclauses⟩, hend⟩

end Rule

/-! ## Tables -/

namespace RuleTable

theorem toList_render (table : RuleTable) :
    table.render.toList = unlines (table.rules.map fun rule => rule.render.toList) := by
  rw [render, String.toList_join, unlines, List.flatMap_map, List.flatMap_map]
  simp only [String.toList_append]
  rfl

theorem lines_render {table : RuleTable}
    (h : ∀ rule ∈ table.rules, rule.IsSound states neighborhood) :
    lines table.render.toList = table.rules.map fun rule => rule.render.toList := by
  rw [toList_render]
  refine lines_unlines_eq_self ?_
  simpa using fun rule hmem => (h rule hmem).unbroken_render

end RuleTable

end Cellular
