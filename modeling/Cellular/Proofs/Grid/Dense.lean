import Cellular.Proofs.Grid.Refinement

/-!
# Dense patterns

A pattern is made into a grid by dividing the indices of its genes by the width, and a
grid into a pattern by writing the states of its cells at their indices.  The grid of a
pattern shows the board of the pattern (`shows_ofPattern`), and the pattern of a grid is
the list of states of the board that it shows (`Shows.toPattern?_eq`), so nothing is lost
either way (`patterns_lossless`).
-/

namespace Cellular

/-- The pattern without what lies past the area, and filled up with free cells. -/
def Board.ofStates (width height : Nat) (pattern : List StateId) : Board width height :=
  ⟨pattern.take (width * height) ++
      List.replicate (width * height - pattern.length) .free, by
    rw [List.length_append, List.length_take, List.length_replicate]
    omega⟩

theorem Board.getElem?_states_ofStates {width height index : Nat}
    {pattern : List StateId} (h : index < width * height) :
    (ofStates width height pattern).states[index]? = some ((pattern[index]?).getD .free) := by
  rw [ofStates, List.getElem?_append, List.length_take]
  by_cases hindex : index < pattern.length
  · rw [if_pos (Nat.lt_min.mpr ⟨h, hindex⟩), List.getElem?_take_of_lt h,
      List.getElem?_eq_getElem hindex]
    rfl
  · have hpast : ¬index < min (width * height) pattern.length := by omega
    rw [if_neg hpast, List.getElem?_replicate, if_pos (by omega),
      List.getElem?_eq_none (Nat.le_of_not_lt hindex)]
    rfl

theorem Board.ofStates_states {width height : Nat} (board : Board width height) :
    ofStates width height board.states = board := by
  obtain ⟨states, hlength⟩ := board
  have hstates : states.take (width * height) ++
      List.replicate (width * height - states.length) .free = states := by
    rw [List.take_of_length_le (Nat.le_of_eq hlength), hlength, Nat.sub_self,
      List.replicate_zero, List.append_nil]
  simp only [ofStates, hstates]

theorem Board.get?_column_row {width height column row : Nat} (board : Board width height)
    (hcolumn : column < width) (hrow : row < height) :
    board.get? ⟨column, row⟩ = board.states[row * width + column]? := by
  have hinside : board.inBounds ⟨column, row⟩ = true := by
    simp only [inBounds, decide_eq_true_eq]
    omega
  rw [get?, if_pos hinside, indexOf, Int.toNat_natCast, Int.toNat_natCast, Nat.add_comm,
    Nat.mul_comm]

namespace Grid

variable {grid : Grid}

/-! ## What is shown at an index -/

section Shown

variable {width height index : Nat} {board : Board width height}

def shownAt (grid : Grid) (index : Nat) : StateId :=
  (grid.cells[grid.cellAt index]?).getD .free

theorem Shows.getElem?_states (h : grid.Shows board) (hindex : index < width * height) :
    board.states[index]? = some (grid.shownAt index) := by
  have hinside : board.inBounds (board.place index) = true := Board.inBounds_place hindex
  rw [← Board.get?_place hindex, ← h.get?_eq,
    get?_eq_some_of_inBounds ((h.inBounds_eq _).trans hinside), shownAt, cellAt, h.width_eq]
  rfl

/-- A consistent grid shows the board with its extents and with what it shows at every
index. -/
theorem Consistent.shows (h : grid.Consistent) (hwidth : grid.width = width)
    (hheight : grid.height = height)
    (hstates : ∀ index < width * height, board.states[index]? = some (grid.shownAt index)) :
    grid.Shows board := by
  subst hwidth hheight
  refine ⟨h, rfl, rfl, fun position => ?_⟩
  by_cases hbounds : grid.inBounds position = true
  · obtain ⟨index, hindex, rfl⟩ := exists_cellAt hbounds
    have hplace : board.get? (grid.cellAt index) = board.states[index]? :=
      Board.get?_place hindex
    rw [get?_eq_some_of_inBounds hbounds, hplace, hstates index hindex, shownAt]
  · have hinside : board.inBounds position = false := by
      rw [Board.inBounds_eq]
      exact Bool.not_eq_true _ ▸ hbounds
    rw [get?_eq_none grid hbounds, Board.get?_eq_none_iff.mpr hinside]

def toPattern (grid : Grid) : List StateId := (List.range grid.area).map grid.shownAt

theorem Shows.toPattern_eq (h : grid.Shows board) : grid.toPattern = board.states := by
  refine List.ext_getElem? fun index => ?_
  rw [toPattern, List.getElem?_map, area, h.width_eq, h.height_eq]
  by_cases hindex : index < width * height
  · rw [List.getElem?_range hindex, h.getElem?_states hindex, Option.map_some]
  · rw [List.getElem?_eq_none (by rw [List.length_range]; omega),
      List.getElem?_eq_none (by rw [board.length_eq]; omega), Option.map_none]

end Shown

/-! ## The board of a grid -/

def board (grid : Grid) : Board grid.width grid.height where
  states := grid.cellList.map fun position => (grid.get? position).getD .free
  length_eq := by simp [cellList]

theorem Consistent.shows_board (h : grid.Consistent) : grid.Shows grid.board := by
  refine h.shows rfl rfl fun index hindex => ?_
  have hstates : grid.board.states = (List.range (grid.width * grid.height)).map
      fun index => (grid.get? (grid.cellAt index)).getD .free := List.map_map
  rw [hstates, List.getElem?_map, List.getElem?_range hindex, Option.map_some,
    get?_eq_some_of_inBounds (inBounds_cellAt hindex), Option.getD_some, shownAt]

/-! ## From a pattern to a grid -/

variable {width height start index : Nat} {board : Board width height}
  {position : Position} {pattern : List StateId}

theorem shownAt_plant {gene : StateId} (hfree : grid.shownAt start = .free) :
    (plant grid.width grid (gene, start)).shownAt index =
      if start = index then gene else grid.shownAt index := by
  by_cases hlive : gene = .free
  · rw [hlive, plant_free]
    split
    · rename_i heq
      rw [← heq, hfree]
    · rfl
  · rw [plant_live hlive]
    have hcell : (grid.insert (grid.cellAt start) gene).shownAt index =
        ((if grid.cellAt start = grid.cellAt index then some gene
          else grid.cells[grid.cellAt index]?)).getD .free := by
      rw [shownAt, insert, Std.ExtTreeMap.getElem?_insert]
      simp only [Std.LawfulEqCmp.compare_eq_iff_eq]
      rfl
    rw [hcell]
    by_cases heq : start = index
    · rw [if_pos heq, if_pos (congrArg grid.cellAt heq)]
      rfl
    · rw [if_neg heq, if_neg fun hcell => heq (cellAt_injective hcell), shownAt]

theorem shownAt_foldl_plant {genes : List StateId}
    (hfree : ∀ index, start ≤ index → grid.shownAt index = .free) :
    ((genes.zipIdx start).foldl (plant grid.width) grid).shownAt index =
      if start ≤ index then (genes[index - start]?).getD .free else grid.shownAt index := by
  induction genes generalizing grid start with
  | nil =>
      split
      · rename_i hle
        exact hfree index hle
      · rfl
  | cons gene genes ih =>
      rw [List.zipIdx_cons, List.foldl_cons]
      have hfirst : ∀ {other : Nat}, (plant grid.width grid (gene, start)).shownAt other =
          if start = other then gene else grid.shownAt other :=
        shownAt_plant (hfree start (Nat.le_refl start))
      have hwidth : (plant grid.width grid (gene, start)).width = grid.width := by
        unfold plant
        split <;> rfl
      have hrest := @ih (plant grid.width grid (gene, start)) (start + 1) fun other hle => by
        rw [hfirst, if_neg (by omega)]
        exact hfree other (by omega)
      rw [hwidth] at hrest
      rw [hrest, hfirst]
      rcases Nat.lt_trichotomy start index with hlt | rfl | hgt
      · obtain ⟨more, rfl⟩ := Nat.exists_eq_add_of_lt hlt
        have hmore : start + more + 1 - start = more + 1 := by omega
        have hmore' : start + more + 1 - (start + 1) = more := by omega
        rw [if_pos (by omega), if_pos (by omega), hmore, hmore', List.getElem?_cons_succ]
      · simp
      · rw [if_neg (by omega), if_neg (by omega), if_neg (by omega)]

theorem shownAt_ofPattern (hindex : index < width * height) :
    (ofPattern width height pattern).shownAt index = (pattern[index]?).getD .free := by
  have hempty : ∀ other, 0 ≤ other → (empty width height).shownAt other = .free :=
    fun other _ => by simp [shownAt, empty]
  have hfold := @shownAt_foldl_plant _ 0 index (pattern.take (width * height)) hempty
  rwa [if_pos (Nat.zero_le index), Nat.sub_zero, List.getElem?_take_of_lt hindex] at hfold

theorem shows_ofPattern (width height : Nat) (pattern : List StateId) :
    (ofPattern width height pattern).Shows (Board.ofStates width height pattern) := by
  have hplanted := planted_ofPattern width height pattern
  refine hplanted.consistent.shows hplanted.width hplanted.height fun index hindex => ?_
  rw [Board.getElem?_states_ofStates hindex, shownAt_ofPattern hindex]

/-! ## From a grid to a pattern -/

namespace Shows

theorem indexOf?_eq (h : grid.Shows board) (hextents : Manageable width height)
    (hbounds : grid.inBounds position = true) :
    grid.indexOf? position = some (board.indexOf position) := by
  have hextents' : Manageable grid.width grid.height := by rwa [h.width_eq, h.height_eq]
  obtain ⟨hcolumns, hrows⟩ := hextents'.extents_lt (area_pos hbounds)
  have hinside := (h.inBounds_eq position).symm.trans hbounds
  obtain ⟨index, hindex, rfl⟩ := Board.exists_place hinside
  rw [inBounds_iff] at hbounds
  have hshort := Nat.lt_trans hindex hextents.area_lt
  have hindexOf := board.indexOf_place index
  rw [Board.indexOf, Nat.add_comm, Nat.mul_comm] at hindexOf
  rw [Board.indexOf_place, indexOf?, Word.unsigned_eq_toNat (by omega) (by omega),
    Word.unsigned_eq_toNat (by omega) (by omega), h.width_eq,
    bind_of_eq_some (Word.toUnsigned?_natCast (by omega)), hindexOf]
  exact Word.toUnsigned?_natCast hshort

/-- Writing cells into the states of a board comes to putting them into a grid. -/
theorem exists_fill? {current : Grid} {cells : List (Position × StateId)}
    (h : current.Shows board) (hextents : Manageable width height)
    (hwidth : grid.width = width)
    (hbounds : ∀ cell ∈ cells, current.inBounds cell.1 = true) :
    ∃ after : Board width height, (current.putCells cells).Shows after ∧
      grid.fill? cells board.states.toArray = some after.states.toArray := by
  induction cells generalizing current board with
  | nil => exact ⟨board, h, rfl⟩
  | cons cell cells ih =>
      obtain ⟨hcell, hcells⟩ := List.forall_mem_cons.mp hbounds
      have hput : (current.put cell.1 cell.2).Shows (board.replace cell.1 cell.2) :=
        h.put hcell
      obtain ⟨after, hafter, hwritten⟩ :=
        ih hput fun other hmem => inBounds_put.trans (hcells other hmem)
      have hinside := (h.inBounds_eq cell.1).symm.trans hcell
      have hroom : board.indexOf cell.1 < board.states.toArray.size := by
        obtain ⟨index, hindex, heq⟩ := Board.exists_place hinside
        rw [← heq, Board.indexOf_place, List.size_toArray, board.length_eq]
        exact hindex
      have hindex : grid.indexOf? cell.1 = some (board.indexOf cell.1) := by
        rw [← h.indexOf?_eq hextents hcell, indexOf?, indexOf?, hwidth, h.width_eq]
      refine ⟨after, hafter, ?_⟩
      rw [fill?, bind_of_eq_some hindex, dif_pos hroom, List.set_toArray]
      exact hwritten

/-- The pattern of a grid is the list of states of its board. -/
theorem toPattern?_eq (h : grid.Shows board) (hextents : Manageable width height) :
    grid.toPattern? = some board.states := by
  obtain rfl := h.width_eq
  obtain rfl := h.height_eq
  have hbounds : ∀ cell ∈ grid.liveCells,
      (empty grid.width grid.height).inBounds cell.1 = true :=
    fun cell hmem => h.consistent.inBounds (mem_liveCells.mp hmem)
  obtain ⟨after, hafter, hwritten⟩ :=
    (shows_empty grid.width grid.height).exists_fill? hextents rfl hbounds
  rw [h.consistent.putCells_liveCells] at hafter
  have hblank : Array.replicate grid.area StateId.free =
      (Board.blank grid.width grid.height).states.toArray := by
    rw [Board.blank, List.toArray_replicate, area]
  rw [toPattern?, bind_of_eq_some (area?_eq hextents.area_lt), hblank,
    bind_of_eq_some hwritten, ← hafter.toPattern_eq, h.toPattern_eq]

end Shows

/-! ## There and back -/

theorem Shows.eq_of_shows {other : Grid}
    (h : grid.Shows board) (hother : other.Shows board) : grid = other :=
  h.consistent.ext hother.consistent (h.width_eq.trans hother.width_eq.symm)
    (h.height_eq.trans hother.height_eq.symm)
    fun position => (h.get?_eq position).trans (hother.get?_eq position).symm

theorem Consistent.ofPattern_states_board (h : grid.Consistent) :
    ofPattern grid.width grid.height grid.board.states = grid := by
  have hback := shows_ofPattern grid.width grid.height grid.board.states
  rw [Board.ofStates_states] at hback
  exact hback.eq_of_shows h.shows_board

/-- On an addressable area, also on an empty one, a pattern of any length goes into a
consistent grid and comes back cut or filled up to the area, and the cell in column `x`
and row `y` has the index `y * width + x`.  A consistent grid goes into a pattern and
comes back with the same cells and the same index.  Nothing is divided by zero on the way
there, and nothing is written past the end on the way back. -/
theorem patterns_lossless (harea : width * height < Word.signedBound) :
    (∀ pattern : List StateId, ∃ grid,
      ofPattern? width height pattern = some grid ∧ grid.Consistent ∧
      grid.width = width ∧ grid.height = height ∧
      grid.toPattern? = some (pattern.take (width * height) ++
        List.replicate (width * height - pattern.length) .free) ∧
      ∀ x < width, ∀ y < height,
        grid.get? ⟨x, y⟩ = some ((pattern[y * width + x]?).getD .free)) ∧
    ∀ grid : Grid, grid.width = width → grid.height = height → grid.Consistent →
      ∃ pattern, grid.toPattern? = some pattern ∧
        pattern.length = width * height ∧
        (∀ x < width, ∀ y < height, pattern[y * width + x]? = grid.get? ⟨x, y⟩) ∧
        ofPattern? width height pattern = some grid := by
  have hfits := Nat.lt_trans harea Word.signedBound_lt_modulus
  constructor
  · intro pattern
    have hshows := shows_ofPattern width height pattern
    have hextents : Manageable width height :=
      (show (empty width height).Addressable from harea).manageable
    refine ⟨_, ofPattern?_eq hfits pattern, hshows.consistent, hshows.width_eq,
      hshows.height_eq, hshows.toPattern?_eq hextents, fun x hx y hy => ?_⟩
    have hindex : y * width + x < width * height :=
      calc y * width + x < y * width + width := Nat.add_lt_add_left hx _
        _ = width * (y + 1) := by rw [Nat.mul_succ, Nat.mul_comm]
        _ ≤ width * height := Nat.mul_le_mul_left width hy
    rw [hshows.get?_eq, Board.get?_column_row _ hx hy, Board.getElem?_states_ofStates hindex]
  · rintro grid rfl rfl h
    have haddressable : grid.Addressable := harea
    have hshows := h.shows_board
    refine ⟨grid.board.states, hshows.toPattern?_eq haddressable.manageable,
      grid.board.length_eq, fun x hx y hy => ?_, ?_⟩
    · rw [hshows.get?_eq, Board.get?_column_row _ hx hy]
    · rw [ofPattern?_eq hfits, h.ofPattern_states_board]

/-- A pattern that is too short, one for a grid without columns, and a grid whose cells
have been set and cleared. -/
theorem patterns_lossless_edited :
    (∃ grid, ofPattern? 3 2 [⟨1⟩, .free, .free, ⟨2⟩] = some grid ∧
      grid.toPattern? = some [⟨1⟩, .free, .free, ⟨2⟩, .free, .free] ∧
      grid.get? ⟨0, 1⟩ = some ⟨2⟩) ∧
    (∃ grid, ofPattern? 0 5 [⟨1⟩] = some grid ∧ grid.toPattern? = some []) ∧
    ∃ pattern, editedGrid.toPattern? = some pattern ∧ pattern.length = 4 ∧
      ofPattern? 2 2 pattern = some editedGrid := by
  obtain ⟨grid, hgrid, -, -, -, hdense, hcell⟩ :=
    (@patterns_lossless 3 2 (by decide)).1 [⟨1⟩, .free, .free, ⟨2⟩]
  obtain ⟨empty, hempty, -, -, -, hdense', -⟩ :=
    (@patterns_lossless 0 5 (by decide)).1 [⟨1⟩]
  obtain ⟨pattern, hpattern, hlength, -, hback⟩ :=
    (@patterns_lossless 2 2 (by decide)).2 editedGrid (by decide) (by decide)
      Reachable.index_agrees_edited.1.consistent
  exact ⟨⟨grid, hgrid, hdense, hcell 0 (by decide) 1 (by decide)⟩, ⟨empty, hempty, hdense'⟩,
    pattern, hpattern, hlength, hback⟩

end Grid

end Cellular
