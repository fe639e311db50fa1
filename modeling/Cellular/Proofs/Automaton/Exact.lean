import Cellular.Proofs.Automaton.Calls
import Cellular.Proofs.Grid.Sizes

/-!
# Generations in exact arithmetic

The changes of a generation once more, with neighbors and counts that are numbers of any
size, so that there is no grid without them.  On consistent grids with manageable extents
a generation in words comes to the same (`changes?_eq`).  On all other consistent grids it
may have no changes, but those that it has lie inside the grid (`inBounds_of_changes?`).
-/

namespace Cellular.Automaton

variable {automaton : Automaton} {grid : Grid} {position : Position} {rule : ResolvedRule}
  {visited : PositionSet} {cancelled : Bool}

/-! ## Definitions -/

def view (automaton : Automaton) (grid : Grid) (position : Position)
    (direction : Direction) : Option StateId :=
  if automaton.neighborhood.contains direction then
    grid.get? (position.neighbor direction)
  else none

def applies (automaton : Automaton) (grid : Grid)
    (condition : Formula ResolvedClause) (position : Position) : Bool :=
  conditionHolds (automaton.view grid position) condition

def sourceCells (grid : Grid) (state : StateId) : List Position :=
  if state.isFree then grid.freePositions else grid.positions state

def scansFully (automaton : Automaton) (grid : Grid) (rule : ResolvedRule) :
    Bool :=
  automaton.fullScan || rule.matchesAll ||
    rule.conditionStates.any StateId.isFree ||
    grid.count rule.source ≤ total (rule.conditionStates.map grid.count)

def scanSources (automaton : Automaton) (grid : Grid) (rule : ResolvedRule)
    (condition : Formula ResolvedClause) (visited : PositionSet) :
    List Position :=
  (sourceCells grid rule.source).filter fun position =>
    !visited.contains position && automaton.applies grid condition position

def candidates (automaton : Automaton) (grid : Grid) (rule : ResolvedRule)
    (visited : PositionSet) : List Position :=
  let places := (automaton.around grid rule).map fun (neighbor, direction) =>
    neighbor.stepBack direction
  let eligible := places.filter fun position =>
    grid.get? position = some rule.source && !visited.contains position
  (Std.ExtTreeSet.ofList eligible).toList

def scanNeighbors (automaton : Automaton) (grid : Grid) (rule : ResolvedRule)
    (condition : Formula ResolvedClause) (visited : PositionSet) :
    List Position :=
  (automaton.candidates grid rule visited).filter
    (automaton.applies grid condition)

def matchingCells (automaton : Automaton) (grid : Grid) (rule : ResolvedRule)
    (visited : PositionSet) : List Position :=
  match rule.condition with
  | none =>
      (sourceCells grid rule.source).filter fun position =>
        !visited.contains position
  | some condition =>
      if automaton.scansFully grid rule then
        automaton.scanSources grid rule condition visited
      else automaton.scanNeighbors grid rule condition visited

def sweep (automaton : Automaton) (grid : Grid) (cancelled : Bool) :
    PositionSet → List ResolvedRule → Except StepError (List CellChange)
  | _, [] => .ok []
  | visited, rule :: rules =>
      if cancelled then .error .cancelled
      else
        let matched := automaton.matchingCells grid rule visited
        let others :=
          automaton.sweep grid cancelled (visited.insertMany matched) rules
        others.map fun others =>
          matched.map (CellChange.mk rule.source rule.target) ++ others

def changes (automaton : Automaton) (grid : Grid) (cancelled : Bool) :
    Except StepError (List CellChange) := do
  let rules ← automaton.resolve
  automaton.sweep grid cancelled ∅ rules

def step (automaton : Automaton) (grid : Grid) (cancelled : Bool) :
    Except StepError (StepOutcome × Grid) := do
  let changes ← automaton.changes grid cancelled
  grid.advance changes

/-! ## Cells inside the grid -/

theorem inBounds_of_get? {state : StateId}
    (h : grid.get? position = some state) : grid.inBounds position = true := by
  unfold Grid.get? at h
  split at h
  · assumption
  · cases h

theorem inBounds_of_mem_positions (h : grid.Consistent) {state : StateId}
    (hmem : position ∈ grid.positions state) : grid.inBounds position = true := by
  rw [Grid.positions, Std.ExtTreeSet.mem_toList] at hmem
  exact h.inBounds (h.mem_iff.mp hmem)

theorem inBounds_of_mem_around (h : grid.Consistent) {pair : Position × Direction}
    (hmem : pair ∈ automaton.around grid rule) : grid.inBounds pair.1 = true := by
  obtain ⟨state, -, hmem⟩ := List.mem_flatMap.mp hmem
  obtain ⟨neighbor, hneighbor, hmem⟩ := List.mem_flatMap.mp hmem
  obtain ⟨direction, -, rfl⟩ := List.mem_map.mp hmem
  exact inBounds_of_mem_positions h hneighbor

theorem inBounds_of_mem_sourceCells (h : grid.Consistent)
    (hfits : grid.width * grid.height < Word.modulus) {state : StateId}
    (hmem : position ∈ sourceCells grid state) :
    grid.inBounds position = true := by
  unfold sourceCells at hmem
  split at hmem
  · exact Grid.inBounds_of_mem_freePositions hfits hmem
  · exact inBounds_of_mem_positions h hmem

theorem inBounds_of_mem_candidates (h : position ∈ automaton.candidates grid rule visited) :
    grid.inBounds position = true := by
  rw [candidates, Std.ExtTreeSet.mem_toList, Std.ExtTreeSet.mem_ofList,
    List.contains_iff_mem, List.mem_filter, Bool.and_eq_true, decide_eq_true_eq] at h
  exact inBounds_of_get? h.2.1

/-! ## Manageable extents -/

section Manageable

variable (h : grid.Consistent) (hextents : Manageable grid.width grid.height)

include hextents in
theorem views?_eq (automaton : Automaton) (hbounds : grid.inBounds position = true) :
    automaton.views? grid position =
      some (Direction.all.map (automaton.view grid position)) := by
  refine mapM_eq_some_map fun direction _ => ?_
  rw [view]
  split
  · rw [bind_of_eq_some (hextents.step?_eq hbounds direction)]
  · rfl

theorem getElem?_map_all {α : Type} (f : Direction → α) (direction : Direction) :
    (Direction.all.map f)[direction.index.val]? = some (f direction) := by
  cases direction <;> rfl

include hextents in
theorem applies?_eq (automaton : Automaton) (condition : Formula ResolvedClause)
    (hbounds : grid.inBounds position = true) :
    automaton.applies? grid condition position =
      some (automaton.applies grid condition position) := by
  rw [applies?, bind_of_eq_some (views?_eq hextents automaton hbounds), applies]
  simp only [getElem?_map_all, Option.getD_some]

theorem sourceCells?_eq (hfits : grid.width * grid.height < Word.modulus)
    (state : StateId) : sourceCells? grid state = some (sourceCells grid state) := by
  rw [sourceCells?, sourceCells]
  split
  · exact Grid.freePositions?_eq hfits
  · rfl

include h hextents

theorem scansFully?_eq (automaton : Automaton) (rule : ResolvedRule) :
    automaton.scansFully? grid rule = some (automaton.scansFully grid rule) := by
  have hcounts : rule.conditionStates.mapM grid.count? =
      some (rule.conditionStates.map grid.count) :=
    mapM_eq_some_map fun state _ => h.count?_eq hextents.area_lt state
  rw [scansFully?, scansFully]
  split
  · rename_i hfull
    rw [hfull, Bool.true_or]
  · rename_i hnarrow
    rw [Bool.not_eq_true] at hnarrow
    rw [bind_of_eq_some (h.count?_eq hextents.area_lt rule.source),
      bind_of_eq_some hcounts, hnarrow, Bool.false_or]

theorem scanSources?_eq (automaton : Automaton) (rule : ResolvedRule)
    (condition : Formula ResolvedClause) (visited : PositionSet) :
    automaton.scanSources? grid rule condition visited =
      some (automaton.scanSources grid rule condition visited) := by
  rw [scanSources?, bind_of_eq_some (sourceCells?_eq hextents.area_lt rule.source),
    scanSources]
  refine filterM_eq_some_filter fun position hmem => ?_
  have hbounds := inBounds_of_mem_sourceCells h hextents.area_lt hmem
  rw [applies?_eq hextents automaton condition hbounds]
  cases visited.contains position <;> rfl

theorem candidates?_eq (automaton : Automaton) (rule : ResolvedRule)
    (visited : PositionSet) :
    automaton.candidates? grid rule visited =
      some (automaton.candidates grid rule visited) := by
  have hplaces : (automaton.around grid rule).mapM
      (fun (neighbor, direction) => neighbor.stepBack? direction) =
        some ((automaton.around grid rule).map
          fun (neighbor, direction) => neighbor.stepBack direction) :=
    mapM_eq_some_map fun pair hmem =>
      hextents.stepBack?_eq (inBounds_of_mem_around h hmem) pair.2
  rw [candidates?, bind_of_eq_some hplaces, candidates]

theorem scanNeighbors?_eq (automaton : Automaton) (rule : ResolvedRule)
    (condition : Formula ResolvedClause) (visited : PositionSet) :
    automaton.scanNeighbors? grid rule condition visited =
      some (automaton.scanNeighbors grid rule condition visited) := by
  rw [scanNeighbors?, bind_of_eq_some (candidates?_eq h hextents automaton rule visited)]
  exact filterM_eq_some_filter fun position hmem =>
    applies?_eq hextents automaton condition (inBounds_of_mem_candidates hmem)

theorem matchingCells?_eq (automaton : Automaton) (rule : ResolvedRule)
    (visited : PositionSet) :
    automaton.matchingCells? grid rule visited =
      some (automaton.matchingCells grid rule visited) := by
  rw [matchingCells?, matchingCells]
  cases rule.condition with
  | none => exact bind_of_eq_some (sourceCells?_eq hextents.area_lt rule.source) _
  | some condition =>
      dsimp only
      rw [bind_of_eq_some (scansFully?_eq h hextents automaton rule)]
      split
      · exact scanSources?_eq h hextents automaton rule condition visited
      · exact scanNeighbors?_eq h hextents automaton rule condition visited

theorem sweep?_eq (automaton : Automaton) (cancelled : Bool) (rules : List ResolvedRule)
    (visited : PositionSet) :
    automaton.sweep? grid cancelled visited rules =
      some (automaton.sweep grid cancelled visited rules) := by
  induction rules generalizing visited with
  | nil => rfl
  | cons rule rules ih =>
      rw [sweep?, sweep]
      split
      · rfl
      · rw [bind_of_eq_some (matchingCells?_eq h hextents automaton rule visited),
          bind_of_eq_some (ih _)]

theorem changes?_eq (automaton : Automaton) (cancelled : Bool) :
    automaton.changes? grid cancelled = some (automaton.changes grid cancelled) := by
  rw [changes?, changes]
  cases automaton.resolve with
  | error error => rfl
  | ok rules => exact sweep?_eq h hextents automaton cancelled rules ∅

/-- On manageable extents a step has an answer, and it is the exact one. -/
theorem step?_eq (automaton : Automaton) (cancelled : Bool) :
    automaton.step? grid cancelled = some (automaton.step grid cancelled) := by
  rw [step?, bind_of_eq_some (changes?_eq h hextents automaton cancelled)]
  rfl

end Manageable

/-! ## Any extents -/

theorem inBounds_of_mem_sourceCells? (h : grid.Consistent) {state : StateId}
    {cells : List Position} (hcells : sourceCells? grid state = some cells)
    (hmem : position ∈ cells) : grid.inBounds position = true := by
  unfold sourceCells? at hcells
  split at hcells
  · have hfits := Grid.area_lt_of_freePositions? hcells
    rw [Grid.freePositions?_eq hfits, Option.some.injEq] at hcells
    subst hcells
    exact Grid.inBounds_of_mem_freePositions hfits hmem
  · cases hcells
    exact inBounds_of_mem_positions h hmem

theorem inBounds_of_mem_matchingCells? (h : grid.Consistent) {cells : List Position}
    (hcells : automaton.matchingCells? grid rule visited = some cells)
    (hmem : position ∈ cells) : grid.inBounds position = true := by
  unfold matchingCells? at hcells
  split at hcells
  · obtain ⟨sources, hsources, hcells⟩ := Option.bind_eq_some_iff.mp hcells
    cases hcells
    exact inBounds_of_mem_sourceCells? h hsources (List.mem_filter.mp hmem).1
  · obtain ⟨full, -, hcells⟩ := Option.bind_eq_some_iff.mp hcells
    split at hcells
    · obtain ⟨sources, hsources, hcells⟩ := Option.bind_eq_some_iff.mp hcells
      exact inBounds_of_mem_sourceCells? h hsources (mem_of_filterM_eq_some hcells hmem)
    · obtain ⟨candidates, hcandidates, hcells⟩ := Option.bind_eq_some_iff.mp hcells
      obtain ⟨places, -, hcandidates⟩ := Option.bind_eq_some_iff.mp hcandidates
      cases hcandidates
      have hcandidate := mem_of_filterM_eq_some hcells hmem
      rw [Std.ExtTreeSet.mem_toList, Std.ExtTreeSet.mem_ofList, List.contains_iff_mem,
        List.mem_filter, Bool.and_eq_true, decide_eq_true_eq] at hcandidate
      exact inBounds_of_get? hcandidate.2.1

theorem inBounds_of_sweep? (h : grid.Consistent) {rules : List ResolvedRule}
    {changes : List CellChange}
    (hsweep : automaton.sweep? grid cancelled visited rules = some (.ok changes)) :
    ∀ change ∈ changes, grid.inBounds change.position = true := by
  induction rules generalizing visited changes with
  | nil =>
      cases hsweep
      nofun
  | cons rule rules ih =>
      rw [sweep?] at hsweep
      split at hsweep
      · cases hsweep
      · obtain ⟨matched, hmatched, hsweep⟩ := Option.bind_eq_some_iff.mp hsweep
        obtain ⟨others, hothers, hsweep⟩ := Option.bind_eq_some_iff.mp hsweep
        cases others with
        | error error => cases hsweep
        | ok others =>
            cases hsweep
            rw [List.forall_mem_append, List.forall_mem_map]
            exact ⟨fun _ => inBounds_of_mem_matchingCells? h hmatched, ih hothers⟩

/-- The changes of a generation lie inside a consistent grid, whatever its extents. -/
theorem inBounds_of_changes? (h : grid.Consistent) {changes : List CellChange}
    (hchanges : automaton.changes? grid cancelled = some (.ok changes)) :
    ∀ change ∈ changes, grid.inBounds change.position = true := by
  unfold changes? at hchanges
  split at hchanges
  · cases hchanges
  · exact inBounds_of_sweep? h hchanges

end Cellular.Automaton
