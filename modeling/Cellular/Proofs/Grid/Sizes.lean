import Cellular.Config.Automaton
import Cellular.Proofs.Grid.Dense

/-!
# Sizes of grids

Sizes are computed in words.  On a consistent grid they are the sizes of its board
exactly if neither extent is zero and the area is addressable
(`Consistent.hasExactSizes_iff`).
-/

namespace Cellular.Grid

variable {grid : Grid}

/-! ## Counts -/

theorem Consistent.liveCount_le (h : grid.Consistent) : grid.liveCount ≤ grid.area := by
  rw [h.shows_board.liveCount_eq, area, ← grid.board.count_free_add_liveCount]
  exact Nat.le_add_left _ _

def count (grid : Grid) (state : StateId) : Nat := grid.board.count state

theorem Consistent.count?_eq (h : grid.Consistent)
    (hfits : grid.width * grid.height < Word.modulus) (state : StateId) :
    grid.count? state = some (grid.count state) :=
  h.shows_board.count?_eq hfits state

theorem Consistent.count_free_add_liveCount (h : grid.Consistent) :
    grid.count .free + grid.liveCount = grid.width * grid.height := by
  rw [h.shows_board.liveCount_eq, count, Board.count_free_add_liveCount]

/-! ## Exact sizes -/

/-- Every size is computed and is the true one, and so are the listings whose length is
such a size. -/
structure HasExactSizes (grid : Grid) : Prop where
  area : grid.area? = some (grid.width * grid.height)
  signed_area : Word.signed (grid.width * grid.height : Nat) =
    (grid.width * grid.height : Nat)
  count_free : ∃ free, grid.count? .free = some free ∧
    free + grid.liveCount = grid.width * grid.height
  freePositions : ∃ cells, grid.freePositions? = some cells ∧
    (∀ position, position ∈ cells ↔ grid.get? position = some .free) ∧
    grid.count? .free = some cells.length
  toPattern : ∃ pattern, grid.toPattern? = some pattern ∧
    pattern.length = grid.width * grid.height ∧
    ∀ index < grid.width * grid.height,
      pattern[index]? = grid.get? (grid.cellAt index)

theorem Consistent.hasExactSizes (h : grid.Consistent)
    (haddressable : grid.Addressable) : grid.HasExactSizes := by
  have hshows := h.shows_board
  have hextents := haddressable.manageable
  have hfits := hextents.area_lt
  refine ⟨area?_eq hfits, Word.signed_natCast haddressable,
    ⟨_, h.count?_eq hfits .free, h.count_free_add_liveCount⟩,
    ⟨_, hshows.freePositions?_eq haddressable, fun position => ?_, ?_⟩,
    ⟨_, hshows.toPattern?_eq hextents, grid.board.length_eq, fun index hindex => ?_⟩⟩
  · rw [Board.mem_holding, hshows.get?_eq]
  · rw [h.count?_eq hfits, count, Board.count_eq_length]
  · rw [hshows.getElem?_states hindex, shownAt,
      get?_eq_some_of_inBounds (inBounds_cellAt hindex)]

/-- Sizes are exact on the grids that a configuration may have, and on no others. -/
theorem Consistent.hasExactSizes_iff (h : grid.Consistent) (hwidth : 0 < grid.width)
    (hheight : 0 < grid.height) :
    grid.HasExactSizes ↔
      AutomatonConfig.isAddressable grid.width grid.height = true := by
  have haddressable : AutomatonConfig.isAddressable grid.width grid.height = true ↔
      grid.Addressable := by
    simp [AutomatonConfig.isAddressable, Addressable, Nat.pos_iff_ne_zero.mp hwidth,
      Nat.pos_iff_ne_zero.mp hheight]
  rw [haddressable]
  refine ⟨fun hexact => ?_, h.hasExactSizes⟩
  have hbound := (Word.signed_bounds (grid.width * grid.height : Nat)).2
  rw [hexact.signed_area] at hbound
  exact Int.ofNat_lt.mp hbound

end Cellular.Grid
