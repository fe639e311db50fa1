import Cellular.Proofs.Automaton.Meaning
import Mathlib.Data.List.Sort

/-!
# The two scans

Trying every source cell and trying the cells around the condition's states give
the same list.  Both list the cells that the rule matches and no earlier rule has
taken (`mem_matchingCells`) in row-major order (`pairwise_matchingCells`).  The
second scan needs a rule that matches nothing without a neighbor in a state of
its condition, and this is what a computed hint and the absence of empty
conjunctions are good for (`IsSolid.exists_sighting`).
-/

namespace Cellular

/-! ## Rules that need a neighbor -/

namespace Rule

variable {rule : Rule}

/-- The hint is the computed one, and no conjunction of the condition or of its
clauses is empty. -/
structure IsSolid (rule : Rule) : Prop where
  hint : rule.matchesAll = mayMatchAll rule.condition
  condition : ∀ formula, rule.condition = some formula → formula.NoEmptyAll
  clauses : ∀ formula, rule.condition = some formula →
    ∀ clause ∈ formula.leaves, clause.condition.NoEmptyAll

theorem mem_firstOccurrences {α : Type} [DecidableEq α] {items : List α}
    {item : α} : item ∈ firstOccurrences items ↔ item ∈ items := by
  have hfold : ∀ seen : List α,
      item ∈ items.foldl
          (fun seen item => if item ∈ seen then seen else seen ++ [item]) seen ↔
        item ∈ seen ∨ item ∈ items := by
    induction items with
    | nil => simp
    | cons head tail ih =>
        intro seen
        rw [List.foldl_cons, ih, List.mem_cons]
        split
        · rename_i hmem
          constructor
          · tauto
          · rintro (h | rfl | h)
            · exact Or.inl h
            · exact Or.inl hmem
            · exact Or.inr h
        · simp [or_assoc]
  simp [firstOccurrences, hfold]

theorem mem_conditionStates {formula : Formula Clause} {clause : Clause}
    {count : CountCondition String} (h : rule.condition = some formula)
    (hclause : clause ∈ formula.leaves)
    (hcount : count ∈ clause.condition.leaves) :
    count.state ∈ rule.conditionStates := by
  rw [conditionStates, mem_firstOccurrences, List.mem_map]
  refine ⟨count, ?_, rfl⟩
  rw [counts, h]
  exact List.mem_flatMap.mpr ⟨clause, hclause, hcount⟩

end Rule

namespace Automaton

variable {automaton : Automaton} {grid : Grid} {position : Position}
  {rule : Rule} {resolved : ResolvedRule} {visited : PositionSet}

/-- A count condition that needs a neighbor is true only where one is seen. -/
theorem CountTrue.exists_sees {scope : Scope} {count : CountCondition String}
    (h : automaton.CountTrue grid position scope count)
    (hneeds : count.holdsWhenAbsent = false) :
    ∃ state, automaton.states.id? count.state = some state ∧
      ∃ direction, automaton.Sees grid position direction state := by
  obtain ⟨state, hstate, hcompare⟩ := h
  refine ⟨state, hstate, ?_⟩
  have hpos : 0 < automaton.sightings grid position scope state := by
    refine Nat.pos_of_ne_zero fun hzero => ?_
    rw [hzero] at hcompare
    have habsent : count.holdsWhenAbsent = true := by
      refine CountCondition.holdsWhenAbsent_of_test_zero ?_
      simp only [CountCondition.test, Comparator.test]
      cases hcomparator : count.comparator <;> simp_all
    rw [hneeds] at habsent
    cases habsent
  rw [sightings, List.countP_pos_iff] at hpos
  obtain ⟨direction, -, hdirection⟩ := hpos
  exact ⟨direction, (by simpa using hdirection : _ ∧ _).2⟩

theorem exists_sighting (hsolid : rule.IsSolid)
    (hhint : rule.matchesAll = false) {formula : Formula Clause}
    (hformula : rule.condition = some formula)
    (htrue : formula.Satisfied (automaton.ClauseTrue grid position)) :
    ∃ name ∈ rule.conditionStates, ∃ state,
      automaton.states.id? name = some state ∧
        ∃ direction, automaton.Sees grid position direction state := by
  obtain ⟨clause, hclause, hclauseTrue⟩ :=
    htrue.exists_leaf (hsolid.condition formula hformula)
  obtain ⟨count, hcount, hcountTrue⟩ :=
    hclauseTrue.exists_leaf (hsolid.clauses formula hformula clause hclause)
  have hneeds : count.holdsWhenAbsent = false := by
    rw [hsolid.hint, hformula, Rule.mayMatchAll, List.any_eq_false] at hhint
    simpa using hhint count (List.mem_flatMap.mpr ⟨clause, hclause, hcount⟩)
  exact ⟨count.state, Rule.mem_conditionStates hformula hclause hcount,
    hcountTrue.exists_sees hneeds⟩

/-! ## The listed cells -/

theorem mem_sourceCells (h : grid.Consistent) (haddressable : grid.Addressable)
    {state : StateId} :
    position ∈ sourceCells grid state ↔ grid.get? position = some state := by
  unfold sourceCells
  split
  · rename_i hfree
    rw [StateId.isFree_iff.mp hfree, h.mem_freePositions haddressable]
  · rename_i hlive
    exact h.mem_positions fun hfree => hlive (StateId.isFree_iff.mpr hfree)

theorem pairwise_sourceCells (haddressable : grid.Addressable)
    (state : StateId) :
    (sourceCells grid state).Pairwise Position.Precedes := by
  unfold sourceCells
  split
  · exact haddressable.pairwise_freePositions
  · exact grid.pairwise_positions state

theorem Resolves.matches_iff_source (h : automaton.Resolves rule resolved)
    (hcondition : rule.condition = none) :
    automaton.Matches grid rule position ↔
      grid.get? position = some resolved.source := by
  simp [Matches, h.source, hcondition]

theorem Resolves.matches_iff (h : automaton.Resolves rule resolved)
    {formula : Formula Clause} (hcondition : rule.condition = some formula) :
    automaton.Matches grid rule position ↔
      grid.get? position = some resolved.source ∧
        formula.Satisfied (automaton.ClauseTrue grid position) := by
  simp [Matches, h.source, hcondition]

/-! ## The matching cells -/

theorem mem_candidates :
    position ∈ automaton.candidates grid resolved visited ↔
      (∃ state ∈ resolved.conditionStates, ∃ neighbor ∈ grid.positions state,
        ∃ direction, automaton.neighborhood.contains direction = true ∧
          neighbor.stepBack direction = position) ∧
      grid.get? position = some resolved.source ∧ position ∉ visited := by
  simp only [candidates, Std.ExtTreeSet.mem_toList, Std.ExtTreeSet.mem_ofList,
    List.contains_iff_mem, List.mem_filter, List.mem_map, around, List.mem_flatMap,
    Neighborhood.mem_toList, Bool.and_eq_true, decide_eq_true_eq, Bool.not_eq_true',
    PositionSet.contains_eq_false_iff]
  refine and_congr_left fun _ => ?_
  constructor
  · rintro ⟨-, ⟨state, hstate, neighbor, hneighbor, direction, hcontains, rfl⟩, rfl⟩
    exact ⟨state, hstate, neighbor, hneighbor, direction, hcontains, rfl⟩
  · rintro ⟨state, hstate, neighbor, hneighbor, direction, hcontains, rfl⟩
    exact ⟨(neighbor, direction),
      ⟨state, hstate, neighbor, hneighbor, direction, hcontains, rfl⟩, rfl⟩

theorem mem_scanSources (h : grid.Consistent) (haddressable : grid.Addressable)
    {image : Formula ResolvedClause} :
    position ∈ automaton.scanSources grid resolved image visited ↔
      grid.get? position = some resolved.source ∧ position ∉ visited ∧
        automaton.applies grid image position = true := by
  simp [scanSources, mem_sourceCells h haddressable,
    PositionSet.contains_eq_false_iff]

theorem mem_scanNeighbors {image : Formula ResolvedClause} :
    position ∈ automaton.scanNeighbors grid resolved image visited ↔
      position ∈ automaton.candidates grid resolved visited ∧
        automaton.applies grid image position = true := by
  simp [scanNeighbors]

/-- Where the narrow scan is taken, every match is a candidate. -/
theorem mem_candidates_of_matches (h : grid.Consistent)
    (hresolves : automaton.Resolves rule resolved)
    (hsolid : rule.IsSolid) (hnarrow : automaton.scansFully grid resolved = false)
    {formula : Formula Clause} (hformula : rule.condition = some formula)
    (hmatches : automaton.Matches grid rule position)
    (hfresh : position ∉ visited) :
    position ∈ automaton.candidates grid resolved visited := by
  simp only [scansFully, Bool.or_eq_false_iff, List.any_eq_false] at hnarrow
  obtain ⟨⟨⟨-, hhint⟩, hlive⟩, -⟩ := hnarrow
  rw [hresolves.matchesAll] at hhint
  rw [hresolves.matches_iff hformula] at hmatches
  obtain ⟨hsource, htrue⟩ := hmatches
  obtain ⟨name, hname, state, hstate, direction, hcontains, hneighbor⟩ :=
    exists_sighting hsolid hhint hformula htrue
  have hmem := hresolves.mem_conditionStates hname hstate
  -- Free cells are not in the index, so the narrow scan is not taken for them.
  have hne : state ≠ .free := fun hfree =>
    hlive state hmem (StateId.isFree_iff.mpr hfree)
  rw [mem_candidates]
  exact ⟨⟨state, hmem, position.neighbor direction,
    (h.mem_positions hne).mpr hneighbor, direction, hcontains,
    position.stepBack_neighbor direction⟩, hsource, hfresh⟩

/-- A rule takes the cells that it matches and that no earlier rule has taken. -/
theorem mem_matchingCells (h : grid.Consistent) (haddressable : grid.Addressable)
    (hresolves : automaton.Resolves rule resolved)
    (hscan : automaton.fullScan = true ∨ rule.IsSolid) :
    position ∈ automaton.matchingCells grid resolved visited ↔
      automaton.Matches grid rule position ∧ position ∉ visited := by
  unfold matchingCells
  cases hformula : rule.condition with
  | none =>
      rw [hresolves.condition_eq_none hformula,
        hresolves.matches_iff_source hformula]
      simp [mem_sourceCells h haddressable, PositionSet.contains_eq_false_iff]
  | some formula =>
      obtain ⟨image, index, himage, htraverse⟩ :=
        hresolves.condition_eq_some hformula
      have happlies : automaton.applies grid image position = true ↔
          formula.Satisfied (automaton.ClauseTrue grid position) :=
        applies_iff htraverse
      rw [himage]
      simp only []
      split
      · rw [mem_scanSources h haddressable, hresolves.matches_iff hformula]
        constructor
        · rintro ⟨hsource, hfresh, htest⟩
          exact ⟨⟨hsource, happlies.mp htest⟩, hfresh⟩
        · rintro ⟨⟨hsource, htrue⟩, hfresh⟩
          exact ⟨hsource, hfresh, happlies.mpr htrue⟩
      · rename_i hnarrow
        rw [Bool.not_eq_true] at hnarrow
        have hsolid : rule.IsSolid := by
          rcases hscan with hfull | hsolid
          · simp [scansFully, hfull] at hnarrow
          · exact hsolid
        rw [mem_scanNeighbors]
        constructor
        · rintro ⟨hcandidate, htest⟩
          obtain ⟨-, hsource, hfresh⟩ := mem_candidates.mp hcandidate
          exact ⟨(hresolves.matches_iff hformula).mpr
            ⟨hsource, happlies.mp htest⟩, hfresh⟩
        · rintro ⟨hmatches, hfresh⟩
          obtain ⟨hsource, htrue⟩ := (hresolves.matches_iff hformula).mp hmatches
          exact ⟨mem_candidates_of_matches h hresolves hsolid hnarrow
            hformula hmatches hfresh, happlies.mpr htrue⟩

theorem pairwise_matchingCells (haddressable : grid.Addressable) :
    (automaton.matchingCells grid resolved visited).Pairwise
      Position.Precedes := by
  unfold matchingCells
  split
  · exact (pairwise_sourceCells haddressable _).filter _
  · split
    · exact (pairwise_sourceCells haddressable _).filter _
    · exact (PositionSet.pairwise_toList _).filter _

end Automaton

end Cellular
