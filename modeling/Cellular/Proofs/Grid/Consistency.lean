import Cellular.Proofs.Grid.Index
import Mathlib.Data.List.Sort

/-!
# Consistent grids

`Grid.Consistent` states that cells and index tell the same, about live states
and positions inside the grid.  It is what `Grid.isConsistent` decides by
counting (`isConsistent_iff`), whatever cells and index are
(`isConsistent_iff_exact`).
-/

namespace Cellular

theorem StateId.isFree_iff {state : StateId} :
    state.isFree = true ↔ state = .free := by
  simp [isFree]

theorem StateId.isFree_eq_false_iff {state : StateId} :
    state.isFree = false ↔ state ≠ .free := by
  simp [isFree]

/-! ## The invariant -/

/-- Cells and index tell the same, about live states and positions inside the
grid, and no state of the index is without positions. -/
structure Grid.Consistent (grid : Grid) : Prop where
  mem_iff : ∀ {state : StateId} {position : Position},
    position ∈ grid.index.positions state ↔
      grid.cells[position]? = some state
  live : ∀ {state : StateId} {position : Position},
    grid.cells[position]? = some state → state ≠ .free
  inBounds : ∀ {state : StateId} {position : Position},
    grid.cells[position]? = some state → grid.inBounds position = true
  tight : grid.index.IsTight

namespace Grid

variable {grid : Grid} {position place : Position} {state other : StateId}

theorem inBounds_iff :
    grid.inBounds position = true ↔
      (0 ≤ position.x ∧ position.x < grid.width) ∧
        0 ≤ position.y ∧ position.y < grid.height := by
  simp only [inBounds, Bool.and_eq_true, decide_eq_true_eq]
  tauto

theorem consistent_empty (width height : Nat) :
    (empty width height).Consistent where
  mem_iff := by simp [empty, StateIndex.positions]
  live := by simp [empty]
  inBounds := by simp [empty]
  tight := by simp [empty, StateIndex.IsTight]

theorem get?_eq_some_of_inBounds (h : grid.inBounds position = true) :
    grid.get? position = some ((grid.cells[position]?).getD .free) := by
  simp [get?, h]

theorem Consistent.get?_eq_some_live (h : grid.Consistent)
    (hlive : state ≠ .free) :
    grid.get? position = some state ↔ grid.cells[position]? = some state := by
  constructor
  · intro hget
    unfold get? at hget
    split at hget
    · cases hcell : grid.cells[position]? with
      | none => simp [hcell, hlive.symm] at hget
      | some old => simpa [hcell] using hget
    · cases hget
  · intro hcell
    rw [get?_eq_some_of_inBounds (h.inBounds hcell), hcell]
    rfl

theorem Consistent.get?_eq_some_free (h : grid.Consistent) :
    grid.get? position = some .free ↔
      grid.inBounds position = true ∧ grid.cells[position]? = none := by
  unfold get?
  split
  · rename_i hbounds
    cases hcell : grid.cells[position]? with
    | none => simp [hbounds]
    | some old => simp [h.live hcell]
  · rename_i hbounds
    simp [hbounds]

/-- A consistent grid is determined by its extents and by what a reader sees. -/
theorem Consistent.ext {first second : Grid} (hfirst : first.Consistent)
    (hsecond : second.Consistent) (hwidth : first.width = second.width)
    (hheight : first.height = second.height)
    (hget : ∀ position, first.get? position = second.get? position) :
    first = second := by
  have hcells : first.cells = second.cells := by
    refine Std.ExtTreeMap.ext_getElem? fun position => Option.ext fun state => ?_
    by_cases hlive : state = .free
    · exact iff_of_false (fun h => hfirst.live h hlive) fun h => hsecond.live h hlive
    · rw [← hfirst.get?_eq_some_live hlive, ← hsecond.get?_eq_some_live hlive, hget]
  have hindex : first.index = second.index := by
    refine hfirst.tight.ext hsecond.tight fun state => ?_
    refine Std.ExtTreeSet.ext_mem fun position => ?_
    rw [hfirst.mem_iff, hsecond.mem_iff, hcells]
  cases first
  cases second
  cases hwidth
  cases hheight
  cases hcells
  cases hindex
  rfl

/-! ## The counting test -/

def indexedCells (grid : Grid) : List (Position × StateId) :=
  grid.index.toList.flatMap fun entry =>
    entry.2.toList.map fun position => (position, entry.1)

theorem mem_indexedCells :
    (position, state) ∈ grid.indexedCells ↔
      position ∈ grid.index.positions state := by
  simp only [indexedCells, List.mem_flatMap, List.mem_map, Prod.mk.injEq,
    Std.ExtTreeSet.mem_toList]
  constructor
  · rintro ⟨⟨other, positions⟩, hentry, place, hmem, rfl, rfl⟩
    rw [Std.ExtTreeMap.mem_toList_iff_getElem?_eq_some] at hentry
    rwa [StateIndex.positions_of_getElem? hentry]
  · intro hmem
    cases hentry : grid.index[state]? with
    | none =>
        simp [StateIndex.positions_of_getElem?_none hentry] at hmem
    | some positions =>
        rw [StateIndex.positions_of_getElem? hentry] at hmem
        exact ⟨(state, positions),
          Std.ExtTreeMap.mem_toList_iff_getElem?_eq_some.mpr hentry,
          position, hmem, rfl, rfl⟩

theorem length_indexedCells :
    grid.indexedCells.length =
      total (grid.index.toList.map fun entry => entry.2.size) := by
  rw [indexedCells, length_flatMap_eq_total]
  simp only [List.length_map, Std.ExtTreeSet.length_toList]

theorem nodup_indexedCells : grid.indexedCells.Nodup := by
  refine List.nodup_flatMap.mpr ⟨?_, ?_⟩
  · intro entry _
    refine List.Nodup.map ?_ ?_
    · intro first second heq
      exact congrArg Prod.fst heq
    · refine Std.ExtTreeSet.distinct_toList.imp ?_
      intro first second hne heq
      exact hne (Std.LawfulEqCmp.compare_eq_iff_eq.mpr heq)
  · refine Std.ExtTreeMap.distinct_keys_toList.imp ?_
    intro first second hne cell hfirst hsecond
    obtain ⟨_, -, rfl⟩ := List.mem_map.mp hfirst
    obtain ⟨_, -, heq⟩ := List.mem_map.mp hsecond
    exact hne (Std.LawfulEqCmp.compare_eq_iff_eq.mpr
      (congrArg Prod.snd heq).symm)

theorem nodup_places_liveCells : (grid.liveCells.map Prod.fst).Nodup := by
  refine List.pairwise_map.mpr (Std.ExtTreeMap.distinct_keys_toList.imp ?_)
  intro first second hne heq
  exact hne (Std.LawfulEqCmp.compare_eq_iff_eq.mpr heq)

theorem nodup_liveCells : grid.liveCells.Nodup :=
  nodup_places_liveCells.of_map Prod.fst

theorem mem_liveCells :
    (position, state) ∈ grid.liveCells ↔
      grid.cells[position]? = some state :=
  Std.ExtTreeMap.mem_toList_iff_getElem?_eq_some

theorem isConsistent_iff_entries :
    grid.isConsistent = true ↔
      grid.indexedCells.length = grid.liveCells.length ∧
        ∀ (state : StateId) (positions : PositionSet),
          grid.index[state]? = some positions →
            state ≠ .free ∧ positions ≠ ∅ ∧
              ∀ position ∈ positions, grid.cells[position]? = some state ∧
                grid.inBounds position = true := by
  rw [length_indexedCells, liveCells, Std.ExtTreeMap.length_toList]
  simp [isConsistent, Std.ExtTreeMap.mem_toList_iff_getElem?_eq_some,
    StateId.isFree_eq_false_iff, and_assoc]

/-- Counting suffices: entries that repeat cells and are as many as the cells
leave no cell out. -/
theorem isConsistent_iff : grid.isConsistent = true ↔ grid.Consistent := by
  rw [isConsistent_iff_entries]
  constructor
  · rintro ⟨hlength, hentries⟩
    have hsound : ∀ {state : StateId} {position : Position},
        position ∈ grid.index.positions state →
          state ≠ .free ∧ grid.cells[position]? = some state ∧
            grid.inBounds position = true := by
      intro state position hmem
      cases hentry : grid.index[state]? with
      | none => simp [StateIndex.positions_of_getElem?_none hentry] at hmem
      | some positions =>
          rw [StateIndex.positions_of_getElem? hentry] at hmem
          obtain ⟨hlive, -, hcells⟩ := hentries state positions hentry
          exact ⟨hlive, hcells position hmem⟩
    have hsubset : grid.indexedCells ⊆ grid.liveCells := by
      rintro ⟨position, state⟩ hmem
      exact mem_liveCells.mpr (hsound (mem_indexedCells.mp hmem)).2.1
    -- Equal sizes turn the inclusion of lists without duplicates around.
    have hperm : grid.indexedCells.Perm grid.liveCells :=
      (List.subperm_of_subset nodup_indexedCells hsubset).perm_of_length_le
        (Nat.le_of_eq hlength.symm)
    have hmem_iff : ∀ {state : StateId} {position : Position},
        position ∈ grid.index.positions state ↔
          grid.cells[position]? = some state := by
      intro state position
      rw [← mem_indexedCells, hperm.mem_iff, mem_liveCells]
    exact ⟨hmem_iff, fun hcell => (hsound (hmem_iff.mpr hcell)).1,
      fun hcell => (hsound (hmem_iff.mpr hcell)).2.2,
      fun state positions hentry => (hentries state positions hentry).2.1⟩
  · intro h
    have hperm : grid.indexedCells.Perm grid.liveCells := by
      rw [List.perm_ext_iff_of_nodup nodup_indexedCells nodup_liveCells]
      rintro ⟨position, state⟩
      rw [mem_indexedCells, mem_liveCells, h.mem_iff]
    refine ⟨hperm.length_eq, ?_⟩
    intro state positions hentry
    have hcell : ∀ position ∈ positions,
        grid.cells[position]? = some state := by
      intro position hmem
      rw [← h.mem_iff, StateIndex.positions_of_getElem? hentry]
      exact hmem
    have hsome : positions ≠ ∅ := h.tight state positions hentry
    obtain ⟨position, hmem⟩ : ∃ position, position ∈ positions := by
      by_contra hnone
      exact hsome (Std.ExtTreeSet.eq_empty_iff_forall_not_mem.mpr
        fun position hmem => hnone ⟨position, hmem⟩)
    exact ⟨h.live (hcell position hmem), hsome, fun place hplace =>
      ⟨hcell place hplace, h.inBounds (hcell place hplace)⟩⟩

/-- Whatever cells and index a grid has, the counting test is passed exactly if the
index lists a position under a state where the cell holds the state and nowhere else,
no state of the index is free or without positions, and all positions that are stored,
in the cells or in the index, lie inside the extent. -/
theorem isConsistent_iff_exact (grid : Grid) :
    grid.isConsistent = true ↔
      (∀ (state : StateId) (position : Position),
        (∃ positions, grid.index[state]? = some positions ∧ position ∈ positions) ↔
          grid.cells[position]? = some state) ∧
      (∀ (state : StateId) (positions : PositionSet),
        grid.index[state]? = some positions → state ≠ .free ∧ positions ≠ ∅ ∧
          ∀ position ∈ positions, grid.inBounds position = true) ∧
      ∀ position ∈ grid.cells, grid.inBounds position = true := by
  have hlisted : ∀ (state : StateId) (position : Position),
      (∃ positions, grid.index[state]? = some positions ∧ position ∈ positions) ↔
        position ∈ grid.index.positions state := by
    intro state position
    cases hentry : grid.index[state]? with
    | none => simp [StateIndex.positions_of_getElem?_none hentry]
    | some positions => simp [StateIndex.positions_of_getElem? hentry]
  have hstored : ∀ {position : Position}, position ∈ grid.cells ↔
      ∃ state, grid.cells[position]? = some state := by
    intro position
    rw [Std.ExtTreeMap.mem_iff_isSome_getElem?, Option.isSome_iff_exists]
  simp only [hlisted]
  constructor
  · intro hcheck
    have hconsistent := isConsistent_iff.mp hcheck
    obtain ⟨-, hentries⟩ := isConsistent_iff_entries.mp hcheck
    refine ⟨fun _ _ => hconsistent.mem_iff, ?_, ?_⟩
    · intro state positions hentry
      obtain ⟨hlive, hsome, hcells⟩ := hentries state positions hentry
      exact ⟨hlive, hsome, fun position hmem => (hcells position hmem).2⟩
    · intro position hmem
      obtain ⟨state, hcell⟩ := hstored.mp hmem
      exact hconsistent.inBounds hcell
  · rintro ⟨hagree, hentries, hbounds⟩
    refine isConsistent_iff.mpr ⟨hagree _ _, ?_, ?_, ?_⟩
    · intro state position hcell
      obtain ⟨positions, hentry, -⟩ :=
        (hlisted state position).mpr ((hagree state position).mpr hcell)
      exact (hentries state positions hentry).1
    · intro state position hcell
      exact hbounds position (hstored.mpr ⟨state, hcell⟩)
    · intro state positions hentry
      exact (hentries state positions hentry).2.1

/-- Without the count an index that leaves a cell out would pass. -/
example : ({ (empty 2 1).insert ⟨0, 0⟩ ⟨1⟩ with index := ∅ } : Grid).isConsistent =
    false := by decide

end Grid

end Cellular
