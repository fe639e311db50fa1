import Cellular.Grid.Populate
import Cellular.Proofs.Grid.Changes
import Cellular.Proofs.Grid.RowMajor

/-!
# Grids built cell by cell

Dense patterns and random fillings store their states without a look at what a
cell held before.  No cell has its turn twice, so every cell is still free then,
and storing is the same as putting (`insert_eq_put`).  The grids come out
consistent (`consistent_ofPattern`, `consistent_populate`), and a pattern fills
as many cells as it has live states (`liveCount_ofPattern`).
-/

namespace Cellular.Grid

variable {grid : Grid} {position : Position} {state : StateId}

theorem insert_eq_put (hfree : grid.cells[position]? = none)
    (hlive : state ≠ .free) : grid.insert position state = grid.put position state := by
  rw [put_live hlive, indexWithout, hfree]
  rfl

theorem liveCount_insert (hfree : grid.cells[position]? = none) :
    (grid.insert position state).liveCount = grid.liveCount + 1 := by
  have hnew : grid.cells.contains position = false := by
    rw [← Std.ExtTreeMap.isSome_getElem?_eq_contains, hfree]
    rfl
  rw [liveCount, insert, Std.ExtTreeMap.size_insert, hnew]
  rfl

/-! ## Dense patterns -/

def plant (width : Nat) (grid : Grid) (gene : StateId × Nat) : Grid :=
  if gene.1.isFree then grid
  else grid.insert ⟨(gene.2 % width : Nat), (gene.2 / width : Nat)⟩ gene.1

def ofPattern (width height : Nat) (pattern : List StateId) : Grid :=
  ((pattern.take (width * height)).zipIdx).foldl (plant width) (empty width height)

theorem plant?_eq {width : Nat} {genes : List (StateId × Nat)}
    (hwidth : genes = [] ∨ width ≠ 0) :
    plant? width genes grid = some (genes.foldl (plant width) grid) := by
  induction genes generalizing grid with
  | nil => rfl
  | cons gene genes ih =>
      have hwidth' : width ≠ 0 := hwidth.resolve_left (List.cons_ne_nil _ _)
      rw [List.foldl_cons, plant?, plant, cellOf?, if_neg hwidth']
      split <;> exact ih (.inr hwidth')

theorem ofPattern?_eq {width height : Nat} (h : width * height < Word.modulus)
    (pattern : List StateId) :
    ofPattern? width height pattern = some (ofPattern width height pattern) := by
  rw [ofPattern?, bind_of_eq_some (area?_eq h)]
  refine plant?_eq ?_
  by_cases hwidth : width = 0
  · left
    simp [hwidth, area, empty]
  · exact .inr hwidth

theorem ofPattern?_eq_some_iff {width height : Nat} {pattern : List StateId} :
    ofPattern? width height pattern = some grid ↔
      width * height < Word.modulus ∧ ofPattern width height pattern = grid := by
  by_cases h : width * height < Word.modulus
  · simp [ofPattern?_eq h, h]
  · have harea : (empty width height).area? = none :=
      Word.toUnsigned?_natCast_eq_none (Nat.le_of_not_lt h)
    simp [ofPattern?, harea, h]

theorem cellAt_injective {first second : Nat}
    (h : grid.cellAt first = grid.cellAt second) : first = second := by
  rcases Nat.lt_trichotomy first second with hlt | heq | hgt
  · exact absurd (h ▸ precedes_cellAt hlt) (Std.Irrefl.irrefl _)
  · exact heq
  · exact absurd (h ▸ precedes_cellAt hgt) (Std.Irrefl.irrefl _)

structure Planted (before : Grid) (genes : List StateId) (after : Grid) :
    Prop where
  consistent : after.Consistent
  width : after.width = before.width
  height : after.height = before.height
  liveCount : after.liveCount =
    before.liveCount + (genes.filter fun gene => !gene.isFree).length

theorem Planted.append {before middle after : Grid} {genes more : List StateId}
    (h : Planted before genes middle) (h' : Planted middle more after) :
    Planted before (genes ++ more) after where
  consistent := h'.consistent
  width := h'.width.trans h.width
  height := h'.height.trans h.height
  liveCount := by
    rw [h'.liveCount, h.liveCount, List.filter_append, List.length_append,
      Nat.add_assoc]

variable {gene : StateId} {start : Nat}

theorem plant_free : plant grid.width grid (.free, start) = grid := rfl

theorem plant_live (hlive : gene ≠ .free) :
    plant grid.width grid (gene, start) = grid.insert (grid.cellAt start) gene := by
  rw [plant, StateId.isFree_eq_false_iff.mpr hlive]
  rfl

theorem planted_plant (h : grid.Consistent)
    (hstart : start < grid.width * grid.height)
    (hfree : grid.cells[grid.cellAt start]? = none) :
    Planted grid [gene] (plant grid.width grid (gene, start)) := by
  by_cases hlive : gene = .free
  · subst hlive
    rw [plant_free]
    exact ⟨h, rfl, rfl, rfl⟩
  · have hcount : ([gene].filter fun gene => !gene.isFree).length = 1 := by
      simp [StateId.isFree_eq_false_iff.mpr hlive]
    rw [plant_live hlive]
    refine ⟨?_, rfl, rfl, ?_⟩
    · rw [insert_eq_put hfree hlive]
      exact h.put (inBounds_cellAt hstart)
    · rw [liveCount_insert hfree, hcount]

theorem getElem?_cells_plant {index : Nat} (hne : start ≠ index)
    (hfree : grid.cells[grid.cellAt start]? = none) :
    (plant grid.width grid (gene, start)).cells[grid.cellAt index]? =
      grid.cells[grid.cellAt index]? := by
  by_cases hlive : gene = .free
  · rw [hlive, plant_free]
  · rw [plant_live hlive, insert_eq_put hfree hlive, getElem?_cells_put,
      if_neg fun heq => hne (cellAt_injective heq)]

theorem planted_foldl {genes : List StateId} (h : grid.Consistent)
    (hroom : start + genes.length ≤ grid.width * grid.height)
    (hfree : ∀ index, start ≤ index → grid.cells[grid.cellAt index]? = none) :
    Planted grid genes ((genes.zipIdx start).foldl (plant grid.width) grid) := by
  -- One gene after the other: the cells of the later ones stay free.
  induction genes generalizing grid start with
  | nil => exact ⟨h, rfl, rfl, rfl⟩
  | cons gene genes ih =>
      rw [List.length_cons] at hroom
      rw [List.zipIdx_cons, List.foldl_cons]
      have hcell := hfree start (Nat.le_refl start)
      have hfirst : Planted grid [gene] (plant grid.width grid (gene, start)) :=
        planted_plant h (by omega) hcell
      have hcells : (plant grid.width grid (gene, start)).cellAt = grid.cellAt := by
        funext index
        rw [cellAt, hfirst.width, cellAt]
      have hrest := @ih (plant grid.width grid (gene, start)) (start + 1)
        hfirst.consistent (by rw [hfirst.width, hfirst.height]; omega)
      rw [hcells, hfirst.width] at hrest
      refine hfirst.append (hrest fun index hindex => ?_)
      rw [getElem?_cells_plant (by omega) hcell]
      exact hfree index (by omega)

theorem planted_ofPattern (width height : Nat) (pattern : List StateId) :
    Planted (empty width height) (pattern.take (width * height))
      (ofPattern width height pattern) := by
  have hlength := List.length_take_le (width * height) pattern
  refine planted_foldl (consistent_empty width height) ?_ ?_
  · show 0 + _ ≤ width * height
    omega
  · intro index _
    simp [empty]

theorem consistent_ofPattern (width height : Nat) (pattern : List StateId) :
    (ofPattern width height pattern).Consistent :=
  (planted_ofPattern width height pattern).consistent

theorem liveCount_ofPattern (width height : Nat) (pattern : List StateId) :
    (ofPattern width height pattern).liveCount =
      ((pattern.take (width * height)).filter
        fun gene => !gene.isFree).length := by
  have hcount := (planted_ofPattern width height pattern).liveCount
  have hempty : (empty width height).liveCount = 0 := rfl
  rwa [hempty, Nat.zero_add] at hcount

/-! ## Random fillings -/

theorem toNat_signed_le (extent : Nat) :
    (Word.signed extent).toNat ≤ extent := by
  rw [Word.signed_eq_bmod, Int.bmod_def, Int.toNat_le]
  unfold Word.modulus
  split <;> omega

theorem inBounds_of_mem_allPositions (h : position ∈ grid.allPositions) :
    grid.inBounds position = true := by
  simp only [allPositions, List.mem_flatMap, List.mem_map, List.mem_range] at h
  obtain ⟨row, hrow, column, hcolumn, rfl⟩ := h
  have hwidth := toNat_signed_le grid.width
  have hheight := toNat_signed_le grid.height
  simp only [inBounds_iff]
  omega

theorem nodup_allPositions (grid : Grid) : grid.allPositions.Nodup := by
  refine List.nodup_flatMap.mpr ⟨?_, ?_⟩
  · intro row _
    refine List.Nodup.map ?_ List.nodup_range
    intro first second heq
    exact Int.ofNat_inj.mp (congrArg Position.x heq)
  · refine List.Pairwise.imp ?_ List.nodup_range
    intro first second hne cell hfirst hsecond
    obtain ⟨_, -, rfl⟩ := List.mem_map.mp hfirst
    obtain ⟨_, -, heq⟩ := List.mem_map.mp hsecond
    exact hne (Int.ofNat_inj.mp (congrArg Position.y heq)).symm

theorem ofIndex_succ_ne_free {index : Nat} (h : index < declaredStatesMax) :
    StateId.ofIndex (index + 1) ≠ .free := by
  have hmax : declaredStatesMax = 255 := rfl
  intro hfree
  have hindex := StateId.index_ofIndex (n := index + 1) (by omega)
  rw [hfree] at hindex
  exact absurd hindex (by simp [StateId.free, StateId.index])

theorem Consistent.populateCells {σ : Type} {draws : Draws σ} {liveStates : Nat}
    {probability : Float} {positions : List Position} {source : σ}
    (h : grid.Consistent) (hstates : 0 < liveStates)
    (hmost : liveStates ≤ declaredStatesMax) (hnodup : positions.Nodup)
    (hbounds : ∀ position ∈ positions, grid.inBounds position = true)
    (hfree : ∀ position ∈ positions, grid.cells[position]? = none) :
    (populateCells draws liveStates probability positions grid
      source).1.Consistent := by
  induction positions generalizing grid source with
  | nil => exact h
  | cons position positions ih =>
      obtain ⟨hnew, hnodup⟩ := List.nodup_cons.mp hnodup
      have hbounds' : ∀ place ∈ positions, grid.inBounds place = true :=
        fun place hmem => hbounds place (List.mem_cons_of_mem _ hmem)
      have hfree' : ∀ place ∈ positions, grid.cells[place]? = none :=
        fun place hmem => hfree place (List.mem_cons_of_mem _ hmem)
      simp only [Grid.populateCells]
      split
      · have hlive := ofIndex_succ_ne_free (Nat.lt_of_lt_of_le
          (draws.below_lt (draws.chance source probability).2 liveStates hstates)
          hmost)
        rw [insert_eq_put (hfree position List.mem_cons_self) hlive]
        refine ih (h.put (hbounds position List.mem_cons_self)) hnodup ?_ ?_
        · simpa using hbounds'
        · intro place hmem
          have hne : position ≠ place := fun heq => hnew (heq ▸ hmem)
          rw [getElem?_cells_put, if_neg hne]
          exact hfree' place hmem
      · exact ih h hnodup hbounds' hfree'

theorem consistent_populate {σ : Type} (draws : Draws σ) (source : σ)
    (grid : Grid) (states : StateUniverse) (probability : Float) :
    (grid.populate draws source states probability).1.Consistent := by
  have hclear : grid.clear.Consistent := consistent_empty grid.width grid.height
  unfold populate
  split
  · exact hclear
  · rename_i hstates
    refine hclear.populateCells (Nat.pos_of_ne_zero hstates) states.length_le
      (nodup_allPositions grid) ?_ ?_
    · exact fun position hmem => inBounds_of_mem_allPositions hmem
    · intro position _
      simp [clear, empty]

end Cellular.Grid
