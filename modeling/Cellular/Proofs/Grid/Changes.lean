import Cellular.Proofs.Grid.Consistency

/-!
# Changes of a grid

A change of a cell inside the grid shows at this cell alone and keeps the grid
consistent, and so does a list of changes (`Consistent.put`,
`Consistent.putAll`).  Where the cells of a list are distinct, each of them ends
up as the list has it (`get?_putAll_of_mem`).  Made in place, one cell after the other,
a list of changes is made as a whole or not at all (`applyInPlace_eq`).
-/

namespace Cellular.Grid

variable {grid : Grid} {position place : Position} {state other : StateId}

def indexWithout (grid : Grid) (position : Position) : StateIndex :=
  match grid.cells[position]? with
  | none => grid.index
  | some old => grid.index.remove old position

theorem put_free :
    grid.put position .free =
      { grid with
        cells := grid.cells.erase position
        index := grid.indexWithout position } := by
  have hfree : StateId.free.isFree = true := rfl
  rw [put, if_pos hfree]
  rfl

theorem put_live (h : state ≠ .free) :
    grid.put position state =
      { grid with
        cells := grid.cells.insert position state
        index := (grid.indexWithout position).add state position } := by
  have hlive : ¬state.isFree = true := fun hfree => h (StateId.isFree_iff.mp hfree)
  rw [put, if_neg hlive]
  rfl

@[simp] theorem width_put : (grid.put position state).width = grid.width := by
  by_cases h : state = .free
  · rw [h, put_free]
  · rw [put_live h]

@[simp] theorem height_put : (grid.put position state).height = grid.height := by
  by_cases h : state = .free
  · rw [h, put_free]
  · rw [put_live h]

@[simp] theorem inBounds_put :
    (grid.put position state).inBounds place = grid.inBounds place := by
  simp [inBounds]

theorem getElem?_cells_put :
    (grid.put position state).cells[place]? =
      if position = place then (if state = .free then none else some state)
      else grid.cells[place]? := by
  by_cases h : state = .free
  · rw [h, put_free]
    simp [Std.ExtTreeMap.getElem?_erase]
  · rw [put_live h]
    simp [Std.ExtTreeMap.getElem?_insert, h]

theorem get?_put (h : grid.inBounds place = true) :
    (grid.put position state).get? place =
      if position = place then some state else grid.get? place := by
  rw [get?_eq_some_of_inBounds (by simpa using h), getElem?_cells_put,
    get?_eq_some_of_inBounds h]
  split
  · split
    · rename_i hfree
      rw [hfree]
      rfl
    · rfl
  · rfl

theorem Consistent.mem_indexWithout (h : grid.Consistent) :
    place ∈ (grid.indexWithout position).positions other ↔
      grid.cells[place]? = some other ∧ place ≠ position := by
  unfold indexWithout
  split
  · rename_i hnone
    rw [h.mem_iff]
    constructor
    · intro hcell
      refine ⟨hcell, ?_⟩
      rintro rfl
      rw [hnone] at hcell
      cases hcell
    · exact And.left
  · rename_i old hold
    rw [StateIndex.mem_positions_remove, h.mem_iff]
    constructor
    · rintro ⟨hcell, hother⟩
      refine ⟨hcell, ?_⟩
      rintro rfl
      rw [hold] at hcell
      cases hcell
      exact hother ⟨rfl, rfl⟩
    · rintro ⟨hcell, hne⟩
      exact ⟨hcell, fun hboth => hne hboth.2⟩

theorem Consistent.tight_indexWithout (h : grid.Consistent) :
    (grid.indexWithout position).IsTight := by
  unfold indexWithout
  split
  · exact h.tight
  · exact h.tight.remove

theorem Consistent.put (h : grid.Consistent)
    (hbounds : grid.inBounds position = true) :
    (grid.put position state).Consistent where
  mem_iff := by
    intro other place
    rw [getElem?_cells_put]
    by_cases hfree : state = .free
    · rw [hfree, put_free]
      simp only [h.mem_indexWithout, if_true]
      split
      · rename_i heq
        simp [heq]
      · rename_i hne
        simp [Ne.symm hne]
    · rw [put_live hfree]
      simp only [StateIndex.mem_positions_add, h.mem_indexWithout, if_neg hfree]
      split
      · rename_i heq
        simp [heq, eq_comm (a := state)]
      · rename_i hne
        simp [Ne.symm hne]
  live := by
    intro other place hcell
    rw [getElem?_cells_put] at hcell
    split at hcell
    · split at hcell
      · cases hcell
      · rename_i hlive
        cases hcell
        exact hlive
    · exact h.live hcell
  inBounds := by
    intro other place hcell
    rw [inBounds_put]
    rw [getElem?_cells_put] at hcell
    split at hcell
    · rename_i heq
      exact heq ▸ hbounds
    · exact h.inBounds hcell
  tight := by
    by_cases hfree : state = .free
    · rw [hfree, put_free]
      exact h.tight_indexWithout
    · rw [put_live hfree]
      exact h.tight_indexWithout.add

theorem set_eq_ok (h : grid.inBounds position = true) :
    grid.set position state =
      .ok ((grid.cells[position]?).getD .free, grid.put position state) := by
  rw [set, if_pos h]

def putAll (grid : Grid) (changes : List CellChange) : Grid :=
  changes.foldl (fun grid change => grid.put change.position change.target) grid

@[simp] theorem putAll_nil : grid.putAll [] = grid := rfl

@[simp] theorem putAll_cons (change : CellChange) (changes : List CellChange) :
    grid.putAll (change :: changes) =
      (grid.put change.position change.target).putAll changes := rfl

theorem apply_eq_ok {changes : List CellChange}
    (h : ∀ change ∈ changes, grid.inBounds change.position = true) :
    grid.apply changes = .ok (grid.putAll changes) := by
  have hnone : changes.find? (fun change => !grid.inBounds change.position) =
      none := by
    rw [List.find?_eq_none]
    intro change hmem
    simp [h change hmem]
  rw [apply, hnone]
  rfl

theorem apply_eq_ok_iff {changes : List CellChange} {after : Grid} :
    grid.apply changes = .ok after ↔
      (∀ change ∈ changes, grid.inBounds change.position = true) ∧
        grid.putAll changes = after := by
  constructor
  · intro h
    have hbounds : ∀ change ∈ changes, grid.inBounds change.position = true := by
      unfold apply at h
      split at h
      · cases h
      · rename_i hnone
        simpa using List.find?_eq_none.mp hnone
    rw [apply_eq_ok hbounds] at h
    exact ⟨hbounds, Except.ok.inj h⟩
  · rintro ⟨hbounds, rfl⟩
    exact apply_eq_ok hbounds

@[simp] theorem width_putAll (changes : List CellChange) :
    (grid.putAll changes).width = grid.width := by
  induction changes generalizing grid with
  | nil => rfl
  | cons change changes ih => rw [putAll_cons, ih, width_put]

@[simp] theorem height_putAll (changes : List CellChange) :
    (grid.putAll changes).height = grid.height := by
  induction changes generalizing grid with
  | nil => rfl
  | cons change changes ih => rw [putAll_cons, ih, height_put]

@[simp] theorem inBounds_putAll (changes : List CellChange) :
    (grid.putAll changes).inBounds place = grid.inBounds place := by
  simp [inBounds]

theorem Consistent.putAll {changes : List CellChange} (h : grid.Consistent)
    (hbounds : ∀ change ∈ changes, grid.inBounds change.position = true) :
    (grid.putAll changes).Consistent := by
  induction changes generalizing grid with
  | nil => exact h
  | cons change changes ih =>
      refine ih (h.put (hbounds change List.mem_cons_self)) ?_
      intro other hmem
      rw [inBounds_put]
      exact hbounds other (List.mem_cons_of_mem change hmem)

theorem get?_putAll_of_notMem {changes : List CellChange}
    (h : place ∉ changes.map CellChange.position) :
    (grid.putAll changes).get? place = grid.get? place := by
  induction changes generalizing grid with
  | nil => rfl
  | cons change changes ih =>
      simp only [List.map_cons, List.mem_cons, not_or] at h
      rw [putAll_cons, ih h.2]
      by_cases hbounds : grid.inBounds place = true
      · rw [get?_put hbounds, if_neg (Ne.symm h.1)]
      · simp [get?, hbounds]

/-- If no two changes name one cell, every change determines its cell. -/
theorem get?_putAll_of_mem {changes : List CellChange} {change : CellChange}
    (hdistinct : (changes.map CellChange.position).Nodup)
    (hmem : change ∈ changes) (hbounds : grid.inBounds change.position = true) :
    (grid.putAll changes).get? change.position = some change.target := by
  induction changes generalizing grid with
  | nil => cases hmem
  | cons first changes ih =>
      rw [List.map_cons, List.nodup_cons] at hdistinct
      rcases List.mem_cons.mp hmem with rfl | hrest
      · rw [putAll_cons, get?_putAll_of_notMem hdistinct.1, get?_put hbounds,
          if_pos rfl]
      · exact ih hdistinct.2 hrest (by simpa using hbounds)

/-! ## Changes in place -/

variable {changes : List CellChange}

/-- Sets cells one after the other up to the first one outside the grid.  What has been
set by then stays set. -/
def setEach (grid : Grid) : List CellChange → Except OutOfBounds Unit × Grid
  | [] => (.ok (), grid)
  | change :: changes =>
      match grid.set change.position change.target with
      | .ok (_, after) => after.setEach changes
      | .error error => (.error error, grid)

def applyInPlace (grid : Grid) (changes : List CellChange) :
    Except OutOfBounds Unit × Grid :=
  match changes.find? fun change => !grid.inBounds change.position with
  | some change => (.error (grid.outOfBounds change.position), grid)
  | none => grid.setEach changes

theorem setEach_eq (h : ∀ change ∈ changes, grid.inBounds change.position = true) :
    grid.setEach changes = (.ok (), grid.putAll changes) := by
  induction changes generalizing grid with
  | nil => rfl
  | cons change changes ih =>
      obtain ⟨hchange, hchanges⟩ := List.forall_mem_cons.mp h
      rw [setEach, set_eq_ok hchange, putAll_cons]
      exact ih (by simpa using hchanges)

/-- Changes are made in place as a whole or not at all. -/
theorem applyInPlace_eq :
    grid.applyInPlace changes =
      match grid.apply changes with
      | .ok after => (.ok (), after)
      | .error error => (.error error, grid) := by
  cases hfind : changes.find? fun change => !grid.inBounds change.position with
  | some change => simp only [applyInPlace, apply, hfind]
  | none =>
      have hbounds : ∀ change ∈ changes, grid.inBounds change.position = true := by
        simpa using List.find?_eq_none.mp hfind
      rw [apply_eq_ok hbounds]
      simp only [applyInPlace, hfind]
      exact setEach_eq hbounds

/-! ## Building a grid again -/

def putCells (grid : Grid) (cells : List (Position × StateId)) : Grid :=
  grid.putAll (cells.map fun (position, state) => ⟨.free, state, position⟩)

theorem Consistent.get?_putCells_liveCells (h : grid.Consistent) :
    ((empty grid.width grid.height).putCells grid.liveCells).get? place =
      grid.get? place := by
  have hplaces : (grid.liveCells.map fun (position, state) =>
      (⟨.free, state, position⟩ : CellChange)).map CellChange.position =
        grid.liveCells.map Prod.fst := by
    rw [List.map_map]
    rfl
  unfold putCells
  by_cases hmem : place ∈ grid.liveCells.map Prod.fst
  · obtain ⟨⟨position, state⟩, hcell, rfl⟩ := List.mem_map.mp hmem
    have hbounds : grid.inBounds position = true := h.inBounds (mem_liveCells.mp hcell)
    have hlive := h.live (mem_liveCells.mp hcell)
    rw [(h.get?_eq_some_live hlive).mpr (mem_liveCells.mp hcell)]
    exact get?_putAll_of_mem (hplaces ▸ nodup_places_liveCells)
      (List.mem_map.mpr ⟨(position, state), hcell, rfl⟩) hbounds
  · rw [get?_putAll_of_notMem (hplaces ▸ hmem)]
    have hnone : grid.cells[place]? = none := by
      cases hcell : grid.cells[place]? with
      | none => rfl
      | some state =>
          exact absurd (List.mem_map_of_mem (mem_liveCells.mpr hcell)) hmem
    have hbounds : (empty grid.width grid.height).inBounds place =
        grid.inBounds place := rfl
    rw [get?, get?, hbounds, hnone]
    simp [empty]

theorem Consistent.putCells_liveCells (h : grid.Consistent) :
    (empty grid.width grid.height).putCells grid.liveCells = grid := by
  refine Consistent.ext ?_ h (width_putAll _) (height_putAll _)
    fun _ => h.get?_putCells_liveCells
  refine (consistent_empty grid.width grid.height).putAll ?_
  intro change hmem
  obtain ⟨⟨position, state⟩, hcell, rfl⟩ := List.mem_map.mp hmem
  exact h.inBounds (mem_liveCells.mp hcell)

end Cellular.Grid
