import Cellular.Proofs.Grid.Consistency
import Cellular.Proofs.Success

/-!
# Row-major listings

The cells of a state are listed row by row and from west to east, the free cells
by counting through the area and the live ones from the index.  On a consistent
grid with an addressable area both listings are complete
(`mem_positions`, `mem_freePositions`).

Areas and neighbors are also given in numbers of any size (`area`, `neighbor`).  On
manageable extents nothing leaves the range of words, and the operations on words give
the same (`freePositions?_eq`, `Manageable.step?_eq`).
-/

namespace Cellular

namespace Position

def Precedes (first second : Position) : Prop :=
  first.y < second.y ∨ first.y = second.y ∧ first.x < second.x

theorem compare_eq_lt_iff {first second : Position} :
    compare first second = .lt ↔ first.Precedes second := compare_eq_lt

instance : Std.Irrefl Precedes where
  irrefl position h := by
    unfold Precedes at h
    omega

instance : Std.Asymm Precedes where
  asymm first second h h' := by
    unfold Precedes at h h'
    omega

def neighbor (position : Position) (direction : Direction) : Position :=
  ⟨position.x + direction.eastward, position.y + direction.southward⟩

def stepBack (position : Position) (direction : Direction) : Position :=
  ⟨position.x - direction.eastward, position.y - direction.southward⟩

@[simp] theorem stepBack_neighbor (position : Position) (direction : Direction) :
    (position.neighbor direction).stepBack direction = position := by
  simp [neighbor, stepBack]

@[simp] theorem neighbor_stepBack (position : Position) (direction : Direction) :
    (position.stepBack direction).neighbor direction = position := by
  simp [neighbor, stepBack]

end Position

namespace Direction

theorem eastward_bounds (direction : Direction) :
    -1 ≤ direction.eastward ∧ direction.eastward ≤ 1 := by
  cases direction <;> decide

theorem southward_bounds (direction : Direction) :
    -1 ≤ direction.southward ∧ direction.southward ≤ 1 := by
  cases direction <;> decide

end Direction

theorem PositionSet.pairwise_toList (positions : PositionSet) :
    positions.toList.Pairwise Position.Precedes := by
  refine Std.ExtTreeSet.ordered_toList.imp ?_
  intro first second h
  exact Position.compare_eq_lt_iff.mp h

theorem PositionSet.contains_eq_false_iff {positions : PositionSet}
    {position : Position} :
    positions.contains position = false ↔ position ∉ positions := by
  rw [Std.ExtTreeSet.mem_iff_contains, Bool.not_eq_true]

/-! ## Extents -/

/-- The area is a word, and so that cells have neighbors the extents are signed words. -/
structure Manageable (width height : Nat) : Prop where
  area_lt : width * height < Word.modulus
  extents_lt : 0 < width * height →
    width < Word.signedBound ∧ height < Word.signedBound

namespace Grid

variable {grid : Grid} {position : Position} {state : StateId}

def area (grid : Grid) : Nat := grid.width * grid.height

theorem area?_eq (h : grid.width * grid.height < Word.modulus) :
    grid.area? = some grid.area :=
  Word.toUnsigned?_natCast h

theorem area_lt_of_area? {area : Nat} (h : grid.area? = some area) :
    grid.width * grid.height < Word.modulus := by
  unfold area? at h
  exact (Word.toUnsigned?_natCast_eq_some_iff.mp h).1

def Addressable (grid : Grid) : Prop :=
  grid.width * grid.height < Word.signedBound

instance : Decidable grid.Addressable :=
  inferInstanceAs (Decidable (grid.width * grid.height < Word.signedBound))

theorem Addressable.manageable (h : grid.Addressable) :
    Manageable grid.width grid.height := by
  refine ⟨Nat.lt_trans h Word.signedBound_lt_modulus, fun hcells => ?_⟩
  have hwidth := Nat.le_mul_of_pos_right grid.width (Nat.pos_of_mul_pos_left hcells)
  have hheight := Nat.le_mul_of_pos_left grid.height (Nat.pos_of_mul_pos_right hcells)
  exact ⟨Nat.lt_of_le_of_lt hwidth h, Nat.lt_of_le_of_lt hheight h⟩

theorem area_pos (h : grid.inBounds position = true) : 0 < grid.width * grid.height := by
  rw [inBounds_iff] at h
  exact Nat.mul_pos (by omega) (by omega)

end Grid

/-! ## Neighbors -/

namespace Manageable

variable {grid : Grid} {position : Position} {x y : Int}

/-- A position next to a cell leaves the range of words at neither end. -/
theorem bounds_of_near (h : Manageable grid.width grid.height)
    (hbounds : grid.inBounds position = true)
    (hx : position.x - 1 ≤ x ∧ x ≤ position.x + 1)
    (hy : position.y - 1 ≤ y ∧ y ≤ position.y + 1) :
    (-Word.signedBound ≤ x ∧ x < Word.signedBound) ∧
      -Word.signedBound ≤ y ∧ y < Word.signedBound := by
  obtain ⟨hwidth, hheight⟩ := h.extents_lt (Grid.area_pos hbounds)
  rw [Grid.inBounds_iff] at hbounds
  unfold Word.signedBound at *
  omega

theorem step?_eq (h : Manageable grid.width grid.height)
    (hbounds : grid.inBounds position = true) (direction : Direction) :
    position.step? direction = some (position.neighbor direction) := by
  have heast := direction.eastward_bounds
  have hsouth := direction.southward_bounds
  obtain ⟨hx, hy⟩ := h.bounds_of_near (x := position.x + direction.eastward)
    (y := position.y + direction.southward) hbounds (by omega) (by omega)
  rw [Position.step?, bind_of_eq_some (Word.toSigned?_eq_some hx.1 hx.2),
    bind_of_eq_some (Word.toSigned?_eq_some hy.1 hy.2), Position.neighbor]

theorem stepBack?_eq (h : Manageable grid.width grid.height)
    (hbounds : grid.inBounds position = true) (direction : Direction) :
    position.stepBack? direction = some (position.stepBack direction) := by
  have heast := direction.eastward_bounds
  have hsouth := direction.southward_bounds
  obtain ⟨hx, hy⟩ := h.bounds_of_near (x := position.x - direction.eastward)
    (y := position.y - direction.southward) hbounds (by omega) (by omega)
  rw [Position.stepBack?, bind_of_eq_some (Word.toSigned?_eq_some hx.1 hx.2),
    bind_of_eq_some (Word.toSigned?_eq_some hy.1 hy.2), Position.stepBack]

end Manageable

namespace Grid

variable {grid : Grid} {position : Position} {state : StateId}

/-! ## The cells of a live state -/

theorem Consistent.mem_positions (h : grid.Consistent) (hlive : state ≠ .free) :
    position ∈ grid.positions state ↔ grid.get? position = some state := by
  rw [positions, Std.ExtTreeSet.mem_toList, h.mem_iff,
    h.get?_eq_some_live hlive]

theorem pairwise_positions (grid : Grid) (state : StateId) :
    (grid.positions state).Pairwise Position.Precedes :=
  PositionSet.pairwise_toList _

/-! ## The free cells -/

def cellAt (grid : Grid) (index : Nat) : Position :=
  ⟨(index % grid.width : Nat), (index / grid.width : Nat)⟩

theorem inBounds_cellAt {index : Nat} (h : index < grid.width * grid.height) :
    grid.inBounds (grid.cellAt index) = true := by
  have hwidth : 0 < grid.width := Nat.pos_of_lt_mul_right h
  have hcolumn : index % grid.width < grid.width := Nat.mod_lt index hwidth
  have hrow : index / grid.width < grid.height := Nat.div_lt_of_lt_mul h
  rw [inBounds_iff]
  exact ⟨⟨Int.natCast_nonneg _, Int.ofNat_lt.mpr hcolumn⟩,
    Int.natCast_nonneg _, Int.ofNat_lt.mpr hrow⟩

theorem exists_cellAt (h : grid.inBounds position = true) :
    ∃ index < grid.width * grid.height, grid.cellAt index = position := by
  rw [inBounds_iff] at h
  obtain ⟨⟨hx, hxw⟩, hy, hyh⟩ := h
  obtain ⟨column, hcolumn⟩ := Int.eq_ofNat_of_zero_le hx
  obtain ⟨row, hrow⟩ := Int.eq_ofNat_of_zero_le hy
  have hcolumn' : column < grid.width := by omega
  have hrow' : row < grid.height := by omega
  refine ⟨column + grid.width * row, ?_, ?_⟩
  · calc column + grid.width * row
        < grid.width + grid.width * row := by omega
      _ = grid.width * (row + 1) := by rw [Nat.mul_succ, Nat.add_comm]
      _ ≤ grid.width * grid.height := Nat.mul_le_mul_left _ hrow'
  · have hmod : (column + grid.width * row) % grid.width = column := by
      rw [Nat.add_mul_mod_self_left, Nat.mod_eq_of_lt hcolumn']
    have hdiv : (column + grid.width * row) / grid.width = row := by
      rw [Nat.add_mul_div_left _ _ (by omega), Nat.div_eq_of_lt hcolumn',
        Nat.zero_add]
    rw [cellAt, hmod, hdiv, ← hcolumn, ← hrow]

theorem precedes_cellAt {first second : Nat} (h : first < second) :
    (grid.cellAt first).Precedes (grid.cellAt second) := by
  have hdiv : first / grid.width ≤ second / grid.width :=
    Nat.div_le_div_right (Nat.le_of_lt h)
  have hfirst := Nat.div_add_mod first grid.width
  have hsecond := Nat.div_add_mod second grid.width
  simp only [Position.Precedes, cellAt]
  rcases Nat.lt_or_eq_of_le hdiv with hrow | hrow
  · exact Or.inl (by exact_mod_cast hrow)
  · refine Or.inr ⟨by exact_mod_cast hrow, ?_⟩
    rw [hrow] at hfirst
    omega

def cellList (grid : Grid) : List Position :=
  (List.range (grid.width * grid.height)).map grid.cellAt

theorem mem_cellList :
    position ∈ grid.cellList ↔ grid.inBounds position = true := by
  simp only [cellList, List.mem_map, List.mem_range]
  constructor
  · rintro ⟨index, hindex, rfl⟩
    exact inBounds_cellAt hindex
  · exact exists_cellAt

theorem pairwise_cellList (grid : Grid) :
    grid.cellList.Pairwise Position.Precedes := by
  rw [cellList, List.pairwise_map]
  exact List.pairwise_lt_range.imp precedes_cellAt

theorem area_lt_of_freePositions? {cells : List Position}
    (h : grid.freePositions? = some cells) :
    grid.width * grid.height < Word.modulus := by
  unfold freePositions? at h
  obtain ⟨area, harea, -⟩ := Option.bind_eq_some_iff.mp h
  exact area_lt_of_area? harea

/-- The free cells in row-major order, as many indices as the area is as a signed
word. -/
def freePositions (grid : Grid) : List Position :=
  ((List.range (Word.signed grid.area).toNat).map grid.cellAt).filter
    fun position => !grid.cells.contains position

theorem positionAt?_eq {index : Nat} (hwidth : 0 < grid.width)
    (hindex : index < Word.signedBound) :
    positionAt? grid.width index = some (grid.cellAt index) := by
  have hcolumns : (grid.width : Int) ≠ 0 := by omega
  have hquotient : Word.quotient? index grid.width =
      some ((index / grid.width : Nat) : Int) := by
    rw [Word.quotient?, if_neg hcolumns, ← Int.ofNat_tdiv]
    exact Word.toSigned?_natCast (Nat.lt_of_le_of_lt (Nat.div_le_self _ _) hindex)
  rw [positionAt?, Word.remainder?, hquotient, ← Int.ofNat_tmod]
  rfl

theorem toNat_signed_area (h : grid.width * grid.height < Word.modulus) :
    (Word.signed grid.area).toNat = if grid.Addressable then grid.area else 0 := by
  by_cases haddressable : grid.Addressable
  · rw [if_pos haddressable, area, Word.signed_natCast haddressable, Int.toNat_natCast]
  · rw [if_neg haddressable, Word.signed_eq_bmod, Int.bmod_def]
    unfold Addressable at haddressable
    unfold area Word.modulus Word.signedBound at *
    split <;> omega

theorem freePositions?_eq (h : grid.width * grid.height < Word.modulus) :
    grid.freePositions? = some grid.freePositions := by
  have hpositions : (List.range (Word.signed grid.area).toNat).mapM
      (positionAt? (Word.signed grid.width)) =
        some ((List.range (Word.signed grid.area).toNat).map grid.cellAt) := by
    refine mapM_eq_some_map fun index hindex => ?_
    rw [List.mem_range, toNat_signed_area h] at hindex
    split at hindex
    · rename_i haddressable
      have hcells : 0 < grid.width * grid.height := Nat.zero_lt_of_lt hindex
      obtain ⟨hwidth, -⟩ := haddressable.manageable.extents_lt hcells
      rw [Word.signed_natCast hwidth]
      exact positionAt?_eq (Nat.pos_of_mul_pos_right hcells)
        (Nat.lt_trans hindex haddressable)
    · cases hindex
  rw [freePositions?, bind_of_eq_some (area?_eq h), bind_of_eq_some hpositions,
    freePositions]

theorem Addressable.freePositions_eq (h : grid.Addressable) :
    grid.freePositions =
      grid.cellList.filter fun position => !grid.cells.contains position := by
  rw [freePositions, toNat_signed_area h.manageable.area_lt, if_pos h, cellList, area]

theorem Consistent.mem_freePositions (h : grid.Consistent)
    (haddressable : grid.Addressable) :
    position ∈ grid.freePositions ↔ grid.get? position = some .free := by
  have hcontains : (!grid.cells.contains position) = true ↔
      grid.cells[position]? = none := by
    rw [← Std.ExtTreeMap.isSome_getElem?_eq_contains]
    cases grid.cells[position]? <;> simp
  rw [haddressable.freePositions_eq, List.mem_filter, mem_cellList, hcontains,
    h.get?_eq_some_free]

theorem Addressable.pairwise_freePositions (h : grid.Addressable) :
    grid.freePositions.Pairwise Position.Precedes := by
  rw [h.freePositions_eq]
  exact (pairwise_cellList grid).filter _

/-- The listed free cells lie inside, as long as the area is a word: of a longer area
than the addressable ones none are listed. -/
theorem inBounds_of_mem_freePositions
    (hfits : grid.width * grid.height < Word.modulus)
    (h : position ∈ grid.freePositions) : grid.inBounds position = true := by
  by_cases haddressable : grid.Addressable
  · rw [haddressable.freePositions_eq, List.mem_filter, mem_cellList] at h
    exact h.1
  · rw [freePositions, toNat_signed_area hfits, if_neg haddressable] at h
    cases h

end Grid

end Cellular
