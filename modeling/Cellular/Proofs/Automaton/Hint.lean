import Cellular.Proofs.Automaton.Generation
import Cellular.Proofs.Formula.Evaluation

/-!
# The hint and the truth without neighbors

A computed hint that is not set says that every count of the condition needs a
neighbor.  Around a cell without one all counts are then false, and the condition
has the value that its empty conjunctions and disjunctions leave it
(`conditionHolds_of_lacks`).  The scan around neighbors passes over no match just
where this value is false (`hint_sound_iff`).
-/

namespace Cellular

/-! ## Conditions without their counts -/

theorem CountCondition.test_zero_of_needs {σ : Type} {condition : CountCondition σ}
    (h : condition.holdsWhenAbsent = false) : condition.test 0 = false := by
  cases htest : condition.test 0 with
  | false => rfl
  | true => simp [holdsWhenAbsent_of_test_zero htest] at h

namespace Rule

/-- The value of a condition all of whose counts are false. -/
def holdsUncounted (condition : Formula Clause) : Bool :=
  condition.holds fun clause => clause.condition.holds fun _ => false

theorem holdsUncounted_eq_false {formula : Formula Clause} (h : formula.NoEmptyAll)
    (hclauses : ∀ clause ∈ formula.leaves, clause.condition.NoEmptyAll) :
    holdsUncounted formula = false := by
  rw [holdsUncounted, Bool.eq_false_iff, ne_eq, Formula.holds_iff_satisfied]
  intro htrue
  obtain ⟨clause, hclause, hholds⟩ := htrue.exists_leaf h
  rw [Formula.holds_iff_satisfied] at hholds
  obtain ⟨count, -, hcount⟩ := hholds.exists_leaf (hclauses clause hclause)
  simp at hcount

end Rule

namespace Automaton

variable {automaton : Automaton} {grid : Grid} {position : Position} {index : Nat}
  {rule : Rule} {resolved : ResolvedRule} {visited : PositionSet}
  {view : Direction → Option StateId} {formula : Formula Clause}
  {image : Formula ResolvedClause}

/-! ## Views without a state of the condition -/

/-- No configured neighbor is in a state of the rule's condition. -/
def Lacks (automaton : Automaton) (resolved : ResolvedRule)
    (view : Direction → Option StateId) : Prop :=
  ∀ direction, automaton.neighborhood.contains direction = true →
    ∀ state ∈ resolved.conditionStates, view direction ≠ some state

theorem lacks_nothing : automaton.Lacks resolved fun _ => none := by
  simp [Lacks]

theorem Lacks.occurrences_eq_zero (h : automaton.Lacks resolved view) {scope : Scope}
    {state : StateId} (hstate : state ∈ resolved.conditionStates) :
    occurrences view (automaton.scopeDirections scope) state = 0 := by
  rw [occurrences, List.length_eq_zero_iff, List.filter_eq_nil_iff]
  intro direction hdirection
  have hcontains := (List.mem_filter.mp hdirection).2
  simpa using h direction (contains_scopeDirections.mp hcontains).2 state hstate

theorem Lacks.clauseHolds_eq (h : automaton.Lacks resolved view)
    (hresolves : automaton.Resolves rule resolved)
    (hcondition : rule.condition = some formula)
    (hneeds : Rule.mayMatchAll (some formula) = false) {clause : Clause}
    (hclause : clause ∈ formula.leaves) {result : ResolvedClause}
    (hresult : automaton.resolveClause index rule clause = .ok result) :
    clauseHolds view result = clause.condition.holds fun _ => false := by
  simp only [resolveClause, bind_eq_ok_iff] at hresult
  obtain ⟨condition, htraverse, hresult⟩ := hresult
  cases hresult
  rw [Bool.eq_iff_iff, Formula.holds_iff_satisfied]
  refine Formula.holds_traverse_iff htraverse fun count hcount resolvedCount hok => ?_
  simp only [resolveCount, bind_eq_ok_iff, resolveState_eq_ok] at hok
  obtain ⟨state, hstate, hok⟩ := hok
  cases hok
  have hmem : state ∈ resolved.conditionStates :=
    hresolves.mem_conditionStates (Rule.mem_conditionStates hcondition hclause hcount)
      hstate
  have habsent : count.holdsWhenAbsent = false := by
    rw [Rule.mayMatchAll, List.any_eq_false] at hneeds
    simpa using hneeds count (List.mem_flatMap.mpr ⟨clause, hclause, hcount⟩)
  have htest := CountCondition.test_zero_of_needs habsent
  simpa [h.occurrences_eq_zero hmem, CountCondition.test] using htest

theorem Lacks.conditionHolds_eq (h : automaton.Lacks resolved view)
    (hresolves : automaton.Resolves rule resolved)
    (hcondition : rule.condition = some formula)
    (hneeds : Rule.mayMatchAll (some formula) = false)
    (himage : formula.traverse (automaton.resolveClause index rule) = .ok image) :
    conditionHolds view image = Rule.holdsUncounted formula := by
  rw [Bool.eq_iff_iff, Rule.holdsUncounted, Formula.holds_iff_satisfied]
  refine Formula.holds_traverse_iff himage fun clause hclause result hresult => ?_
  rw [h.clauseHolds_eq hresolves hcondition hneeds hclause hresult]

/-! ## What the scan around neighbors passes over -/

theorem mem_candidates_iff (h : grid.Consistent)
    (hlive : ∀ state ∈ resolved.conditionStates, state ≠ .free) :
    position ∈ automaton.candidates grid resolved visited ↔
      (grid.get? position = some resolved.source ∧ position ∉ visited) ∧
        ¬automaton.Lacks resolved (automaton.view grid position) := by
  rw [mem_candidates, and_comm]
  refine and_congr_right fun _ => ?_
  simp only [Lacks, not_forall, not_not, exists_prop, view_eq_some_iff]
  constructor
  · rintro ⟨state, hstate, neighbor, hneighbor, direction, hcontains, rfl⟩
    have hget := (h.mem_positions (hlive state hstate)).mp hneighbor
    refine ⟨direction, hcontains, state, hstate, hcontains, ?_⟩
    rw [Position.neighbor_stepBack, hget]
  · rintro ⟨direction, hcontains, state, hstate, -, hget⟩
    exact ⟨state, hstate, position.neighbor direction,
      (h.mem_positions (hlive state hstate)).mpr hget, direction, hcontains,
      Position.stepBack_neighbor position direction⟩

theorem mem_scanNeighbors_iff (h : grid.Consistent) (haddressable : grid.Addressable)
    (hlive : ∀ state ∈ resolved.conditionStates, state ≠ .free) :
    position ∈ automaton.scanNeighbors grid resolved image visited ↔
      position ∈ automaton.scanSources grid resolved image visited ∧
        ¬automaton.Lacks resolved (automaton.view grid position) := by
  rw [mem_scanNeighbors, mem_candidates_iff h hlive,
    mem_scanSources h haddressable]
  tauto

theorem scanNeighbors_eq_scanSources (h : grid.Consistent)
    (haddressable : grid.Addressable)
    (hlive : ∀ state ∈ resolved.conditionStates, state ≠ .free)
    (hfalse : ∀ view, automaton.Lacks resolved view →
      conditionHolds view image = false) :
    automaton.scanNeighbors grid resolved image visited =
      automaton.scanSources grid resolved image visited := by
  have hnarrow : (automaton.scanNeighbors grid resolved image visited).Pairwise
      Position.Precedes := (PositionSet.pairwise_toList _).filter _
  have hfull : (automaton.scanSources grid resolved image visited).Pairwise
      Position.Precedes := (pairwise_sourceCells haddressable _).filter _
  refine hnarrow.eq_of_mem_iff hfull fun position => ?_
  rw [mem_scanNeighbors_iff h haddressable hlive, and_iff_left_iff_imp,
    mem_scanSources h haddressable]
  intro hmatch hlacks
  have happlies : conditionHolds (automaton.view grid position) image = true :=
    hmatch.2.2
  rw [hfalse _ hlacks] at happlies
  contradiction

/-- A condition whose computed hint is not set has, on every view that lacks its
states, the value that it has without its counts.  The hint is sound just where
this value is false, as it is without empty conjunctions.  The scan around
neighbors gives the matches with such a neighbor, and there all matches. -/
theorem hint_sound_iff (hresolve : automaton.resolveRule index rule = .ok resolved)
    (hcondition : rule.condition = some formula)
    (hneeds : Rule.mayMatchAll rule.condition = false) :
    ∃ image, resolved.condition = some image ∧
      (∀ view, automaton.Lacks resolved view →
        conditionHolds view image = Rule.holdsUncounted formula) ∧
      ((∀ view, automaton.Lacks resolved view → conditionHolds view image = false) ↔
        Rule.holdsUncounted formula = false) ∧
      (formula.NoEmptyAll → (∀ clause ∈ formula.leaves, clause.condition.NoEmptyAll) →
        Rule.holdsUncounted formula = false) ∧
      ∀ grid visited, grid.Consistent → grid.Addressable →
        (∀ state ∈ resolved.conditionStates, state ≠ .free) →
        ∃ found matching,
          automaton.scanNeighbors? grid resolved image visited = some found ∧
          automaton.scanSources? grid resolved image visited = some matching ∧
          (∀ position, position ∈ found ↔
            position ∈ matching ∧
              ¬automaton.Lacks resolved (automaton.view grid position)) ∧
          (Rule.holdsUncounted formula = false → found = matching) := by
  have hresolves := resolves_of_resolveRule hresolve
  obtain ⟨image, place, himage, htraverse⟩ := hresolves.condition_eq_some hcondition
  rw [hcondition] at hneeds
  have hvalue : ∀ view, automaton.Lacks resolved view →
      conditionHolds view image = Rule.holdsUncounted formula := fun view hlacks =>
    hlacks.conditionHolds_eq hresolves hcondition hneeds htraverse
  refine ⟨image, himage, hvalue, ?sound, Rule.holdsUncounted_eq_false,
    fun grid visited h haddressable hlive => ⟨_, _,
      scanNeighbors?_eq h haddressable.manageable automaton resolved image visited,
      scanSources?_eq h haddressable.manageable automaton resolved image visited,
      fun position => mem_scanNeighbors_iff h haddressable hlive, fun hfalse => ?scans⟩⟩
  case sound =>
    constructor
    · intro hfalse
      rw [← hvalue _ lacks_nothing]
      exact hfalse _ lacks_nothing
    · intro hfalse view hlacks
      rw [hvalue view hlacks, hfalse]
  case scans =>
    refine scanNeighbors_eq_scanSources h haddressable hlive fun view hlacks => ?_
    rw [hvalue view hlacks, hfalse]

def follower : Rule :=
  .ofParts "FREE" "A" (some (.leaf ⟨.directions [.west], .leaf ⟨1, .equal, "A"⟩⟩)) 0

theorem hint_sound_iff_follower :
    ∃ resolved image, trail.resolveRule 0 follower = .ok resolved ∧
      resolved.condition = some image ∧
      ∀ view, trail.Lacks resolved view → conditionHolds view image = false := by
  have hok : (trail.resolveRule 0 follower).isOk = true := by decide +kernel
  obtain ⟨resolved, hresolve⟩ := exists_ok_of_isOk hok
  obtain ⟨image, himage, -, hsound, -⟩ := hint_sound_iff hresolve rfl rfl
  exact ⟨resolved, image, hresolve, himage, hsound.mpr rfl⟩

def hollow : Rule := .ofParts "A" "B" (some (.all [])) 0

/-- The hint is not set and the condition is true without neighbors, so that only
the full scan finds the match. -/
theorem hint_unsound_hollow :
    let automaton := ofTable trailStates .moore ⟨[hollow]⟩
    let grid := (Grid.empty 1 1).put ⟨0, 0⟩ ⟨1⟩
    hollow.matchesAll = false ∧
      (∃ resolved image, automaton.resolveRule 0 hollow = .ok resolved ∧
        resolved.condition = some image ∧ automaton.Lacks resolved (fun _ => none) ∧
        conditionHolds (fun _ => none) image = true) ∧
      automaton.changes? grid false = some (.ok []) ∧
      automaton.withFullScan.changes? grid false =
        some (.ok [⟨⟨1⟩, ⟨2⟩, ⟨0, 0⟩⟩]) := by
  intro automaton grid
  have hok : (automaton.resolveRule 0 hollow).isOk = true := by decide +kernel
  obtain ⟨resolved, hresolve⟩ := exists_ok_of_isOk hok
  have hresolves := resolves_of_resolveRule hresolve
  obtain ⟨image, place, himage, htraverse⟩ := hresolves.condition_eq_some rfl
  refine ⟨rfl, ⟨resolved, image, hresolve, himage, lacks_nothing, ?_⟩,
    by decide +kernel, by decide +kernel⟩
  exact lacks_nothing.conditionHolds_eq hresolves rfl rfl htraverse

end Automaton

end Cellular
