import Cellular.Proofs.Automaton.Exact
import Cellular.Proofs.Formula.Truth

/-!
# The meaning of a rule

A rule matches a cell that is in its source state and at which its condition is
true.  `Automaton.Matches` says so in terms of the names in the rule and of the
grid alone.  Where a table resolves, a resolved rule applies to just the cells
that the rule matches (`Resolves.applies_iff`).
-/

namespace Cellular

def Scope.Counts : Scope → Direction → Prop
  | .all, _ => True
  | .directions listed, direction => direction ∈ listed

namespace Automaton

variable {automaton : Automaton} {grid : Grid} {position : Position}
  {rule : Rule} {resolved : ResolvedRule}

/-! ## What a cell sees -/

/-- A cell sees the configured neighbors that lie inside the grid. -/
def Sees (automaton : Automaton) (grid : Grid) (position : Position)
    (direction : Direction) (state : StateId) : Prop :=
  automaton.neighborhood.contains direction = true ∧
    grid.get? (position.neighbor direction) = some state

open Classical in
/-- The number of directions of a scope in which a cell sees a state. -/
noncomputable def sightings (automaton : Automaton) (grid : Grid)
    (position : Position) (scope : Scope) (state : StateId) : Nat :=
  Direction.all.countP fun direction =>
    scope.Counts direction ∧ automaton.Sees grid position direction state

/-- A count condition compares the sightings of a declared state. -/
def CountTrue (automaton : Automaton) (grid : Grid) (position : Position)
    (scope : Scope) (condition : CountCondition String) : Prop :=
  ∃ state, automaton.states.id? condition.state = some state ∧
    match condition.comparator with
    | .equal =>
        automaton.sightings grid position scope state = condition.count
    | .less =>
        automaton.sightings grid position scope state < condition.count
    | .more =>
        condition.count < automaton.sightings grid position scope state

def ClauseTrue (automaton : Automaton) (grid : Grid) (position : Position)
    (clause : Clause) : Prop :=
  clause.condition.Satisfied (automaton.CountTrue grid position clause.scope)

/-- A rule matches a cell in its source state where its condition, if it has
one, is true. -/
def Matches (automaton : Automaton) (grid : Grid) (rule : Rule)
    (position : Position) : Prop :=
  (∃ source, automaton.states.id? rule.source = some source ∧
    grid.get? position = some source) ∧
  ∀ condition, rule.condition = some condition →
    condition.Satisfied (automaton.ClauseTrue grid position)

/-- The first of some rules that matches a cell, with its place among them. -/
def FirstMatch (automaton : Automaton) (grid : Grid) (rules : List Rule)
    (place : Nat) (rule : Rule) (position : Position) : Prop :=
  rules[place]? = some rule ∧ automaton.Matches grid rule position ∧
    ∀ earlier < place, ∀ other, rules[earlier]? = some other →
      ¬automaton.Matches grid other position

/-! ## Resolved rules -/

/-- What the resolution of a rule that uses declared states and configured
directions gives. -/
structure Resolves (automaton : Automaton) (rule : Rule)
    (resolved : ResolvedRule) : Prop where
  source : automaton.states.id? rule.source = some resolved.source
  target : automaton.states.id? rule.target = some resolved.target
  conditionStates : List.Forall₂
    (fun name state => automaton.states.id? name = some state)
    rule.conditionStates resolved.conditionStates
  directions : ∀ direction, rule.directions.contains direction = true →
    automaton.neighborhood.contains direction = true
  condition : match rule.condition, resolved.condition with
    | none, none => True
    | some formula, some image =>
        ∃ index, formula.traverse (automaton.resolveClause index rule) = .ok image
    | _, _ => False
  matchesAll : resolved.matchesAll = rule.matchesAll

theorem Resolves.condition_eq_none (h : automaton.Resolves rule resolved)
    (hrule : rule.condition = none) : resolved.condition = none := by
  have hcondition := h.condition
  cases himage : resolved.condition with
  | none => rfl
  | some image => simp [hrule, himage] at hcondition

theorem Resolves.condition_eq_some (h : automaton.Resolves rule resolved)
    {formula : Formula Clause} (hrule : rule.condition = some formula) :
    ∃ image index, resolved.condition = some image ∧
      formula.traverse (automaton.resolveClause index rule) = .ok image := by
  have hcondition := h.condition
  cases himage : resolved.condition with
  | none => simp [hrule, himage] at hcondition
  | some image =>
      simp only [hrule, himage] at hcondition
      obtain ⟨index, htraverse⟩ := hcondition
      exact ⟨image, index, rfl, htraverse⟩

theorem Resolves.mem_conditionStates (h : automaton.Resolves rule resolved)
    {name : String} (hname : name ∈ rule.conditionStates) {state : StateId}
    (hstate : automaton.states.id? name = some state) :
    state ∈ resolved.conditionStates := by
  obtain ⟨other, hmem, hother⟩ := exists_mem_of_forall₂ h.conditionStates hname
  rw [hstate] at hother
  cases hother
  exact hmem

theorem resolveState_eq_ok {index : Nat} {name : String} {state : StateId} :
    automaton.resolveState index rule name = .ok state ↔
      automaton.states.id? name = some state := by
  unfold resolveState
  split <;> simp_all

theorem resolves_of_resolveRule {index : Nat}
    (h : automaton.resolveRule index rule = .ok resolved) :
    automaton.Resolves rule resolved := by
  simp only [resolveRule, bind_eq_ok_iff, resolveState_eq_ok,
    mapM_eq_ok_iff] at h
  obtain ⟨source, hsource, target, htarget, states, hstates, h⟩ := h
  split at h
  · cases h
  · rename_i hstray
    have hdirections : ∀ direction, rule.directions.contains direction = true →
        automaton.neighborhood.contains direction = true := by
      intro direction hdirection
      rw [strayDirection?, List.find?_eq_none] at hstray
      simpa using hstray direction (by simpa using hdirection)
    cases hcondition : rule.condition with
    | none =>
        simp only [hcondition] at h
        cases h
        exact ⟨hsource, htarget, hstates, hdirections, by rw [hcondition]; trivial,
          rfl⟩
    | some formula =>
        simp only [hcondition] at h
        cases himage : formula.traverse (automaton.resolveClause index rule) with
        | error error =>
            rw [himage] at h
            cases h
        | ok image =>
            rw [himage] at h
            cases h
            exact ⟨hsource, htarget, hstates, hdirections,
              by rw [hcondition]; exact ⟨index, himage⟩, rfl⟩

theorem forall₂_resolves_of_resolveFrom {index : Nat} {rules : List Rule}
    {images : List ResolvedRule}
    (h : automaton.resolveFrom index rules = .ok images) :
    List.Forall₂ automaton.Resolves rules images := by
  induction rules generalizing index images with
  | nil =>
      cases h
      exact .nil
  | cons rule rules ih =>
      simp only [resolveFrom, bind_eq_ok_iff] at h
      obtain ⟨image, himage, others, hothers, h⟩ := h
      cases h
      exact .cons (resolves_of_resolveRule himage) (ih hothers)

/-! ## The condition of a resolved rule -/

theorem view_eq_some_iff {direction : Direction} {state : StateId} :
    automaton.view grid position direction = some state ↔
      automaton.Sees grid position direction state := by
  unfold view Sees
  split <;> simp [*]

theorem contains_scopeDirections {scope : Scope} {direction : Direction} :
    (automaton.scopeDirections scope).contains direction = true ↔
      scope.Counts direction ∧
        automaton.neighborhood.contains direction = true := by
  cases scope with
  | all => simp [scopeDirections, Scope.Counts]
  | directions listed => simp [scopeDirections, Scope.Counts]

theorem occurrences_eq_sightings {scope : Scope} {state : StateId} :
    occurrences (automaton.view grid position) (automaton.scopeDirections scope)
        state = automaton.sightings grid position scope state := by
  rw [occurrences, Neighborhood.toList, ← List.countP_eq_length_filter,
    List.countP_filter, sightings]
  refine List.countP_congr fun direction _ => ?_
  simp only [Bool.and_eq_true, decide_eq_true_eq, contains_scopeDirections,
    view_eq_some_iff]
  constructor
  · rintro ⟨hsees, hcounts, -⟩
    exact ⟨hcounts, hsees⟩
  · rintro ⟨hcounts, hsees⟩
    exact ⟨hsees, hcounts, hsees.1⟩

theorem clauseHolds_iff {index : Nat} {clause : Clause} {image : ResolvedClause}
    (h : automaton.resolveClause index rule clause = .ok image) :
    clauseHolds (automaton.view grid position) image = true ↔
      automaton.ClauseTrue grid position clause := by
  simp only [resolveClause, bind_eq_ok_iff] at h
  obtain ⟨condition, hcondition, h⟩ := h
  cases h
  refine Formula.holds_traverse_iff hcondition ?_
  intro count _ result hresult
  simp only [resolveCount, bind_eq_ok_iff, resolveState_eq_ok] at hresult
  obtain ⟨state, hstate, hresult⟩ := hresult
  cases hresult
  simp only [CountTrue, hstate, Option.some.injEq, exists_eq_left',
    occurrences_eq_sightings, CountCondition.test,
    Comparator.test]
  cases count.comparator <;> simp

theorem applies_iff {index : Nat} {formula : Formula Clause}
    {image : Formula ResolvedClause}
    (h : formula.traverse (automaton.resolveClause index rule) = .ok image) :
    automaton.applies grid image position = true ↔
      formula.Satisfied (automaton.ClauseTrue grid position) := by
  refine Formula.holds_traverse_iff h ?_
  intro clause _ result hresult
  exact clauseHolds_iff hresult

end Automaton

end Cellular
