import Cellular.Proofs.Grid.Sizes

/-!
# Operations that stay in range

On a grid that a configuration may have (`IsAdmissible`) every sum, product and quotient
that an operation of the grid comes to is a word, every conversion gives the same number
in the other kind of word, and every index lies below the area.
-/

namespace Cellular.Grid

def inBounds? (grid : Grid) (position : Position) : Option Bool :=
  if 0 ≤ position.x ∧ 0 ≤ position.y then do
    let x ← Word.toUnsigned? position.x
    let y ← Word.toUnsigned? position.y
    some (x < grid.width && y < grid.height)
  else some false

structure IsAdmissible (grid : Grid) : Prop where
  width : grid.width ≠ 0
  height : grid.height ≠ 0
  addressable : grid.Addressable
  consistent : grid.Consistent

/-- No operation on the grid is refused and no conversion changes a number.  Sizes, indices
and neighbors are those of exact arithmetic. -/
structure IsInRange (grid : Grid) : Prop where
  area : grid.area? = some (grid.width * grid.height)
  signed_width : Word.signed grid.width = grid.width
  signed_area : Word.signed (grid.width * grid.height : Nat) =
    (grid.width * grid.height : Nat)
  liveCount : grid.liveCount ≤ grid.width * grid.height
  count : ∀ state, grid.count? state = some (grid.count state)
  total_count : ∀ states : List StateId, states.Nodup →
    total (states.map grid.count) ≤ grid.width * grid.height
  positionAt : ∀ index < grid.width * grid.height,
    positionAt? grid.width index = some (grid.cellAt index)
  freePositions : grid.freePositions? = some grid.freePositions
  inBounds : ∀ position : Position, position.x < Word.signedBound →
    position.y < Word.signedBound → grid.inBounds? position = some (grid.inBounds position)
  unsigned : ∀ position, grid.inBounds position = true →
    Word.unsigned position.x = position.x.toNat ∧
      Word.unsigned position.y = position.y.toNat
  index : ∀ position, grid.inBounds position = true →
    grid.indexOf? position = some (position.y.toNat * grid.width + position.x.toNat) ∧
      position.y.toNat * grid.width + position.x.toNat < grid.width * grid.height
  step : ∀ position, grid.inBounds position = true → ∀ direction,
    position.step? direction = some (position.neighbor direction)
  stepBack : ∀ position, grid.inBounds position = true → ∀ direction,
    position.stepBack? direction = some (position.stepBack direction)
  cellOf : ∀ index < grid.width * grid.height,
    cellOf? grid.width index = some (grid.cellAt index) ∧
      Word.signed (index % grid.width : Nat) = (index % grid.width : Nat) ∧
      Word.signed (index / grid.width : Nat) = (index / grid.width : Nat)
  ofPattern : ∀ pattern, ofPattern? grid.width grid.height pattern =
    some (.ofPattern grid.width grid.height pattern)
  toPattern : grid.toPattern? = some grid.toPattern

variable {grid : Grid} {position : Position}

theorem inBounds?_eq (grid : Grid) (hx : position.x < Word.signedBound)
    (hy : position.y < Word.signedBound) :
    grid.inBounds? position = some (grid.inBounds position) := by
  rw [inBounds?]
  split
  · rename_i hlower
    obtain ⟨column, hcolumn⟩ := Int.eq_ofNat_of_zero_le hlower.1
    obtain ⟨row, hrow⟩ := Int.eq_ofNat_of_zero_le hlower.2
    have hmodulus := Word.signedBound_lt_modulus
    rw [hcolumn, hrow, bind_of_eq_some (Word.toUnsigned?_natCast (by omega)),
      bind_of_eq_some (Word.toUnsigned?_natCast (by omega)), Option.some.injEq,
      Bool.eq_iff_iff, inBounds_iff, Bool.and_eq_true, decide_eq_true_iff,
      decide_eq_true_iff]
    omega
  · rename_i hlower
    rw [Option.some.injEq, eq_comm, ← Bool.not_eq_true, inBounds_iff]
    omega

theorem total_count_le {states : List StateId} (hnodup : states.Nodup) :
    total (states.map grid.count) ≤ grid.width * grid.height := by
  have hcount : ∀ listed : List StateId,
      total (states.map fun state => listed.count state) ≤ listed.length := by
    intro listed
    induction listed with
    | nil => exact Nat.le_of_eq (StateId.total_count_nil states)
    | cons state listed ih =>
        have hone := List.nodup_iff_count_le_one.mp hnodup state
        rw [StateId.total_count_cons, List.length_cons]
        omega
  exact grid.board.length_eq ▸ hcount grid.board.states

namespace IsAdmissible

theorem extents_lt (h : grid.IsAdmissible) :
    grid.width < Word.signedBound ∧ grid.height < Word.signedBound :=
  h.addressable.manageable.extents_lt
    (Nat.mul_pos (Nat.pos_of_ne_zero h.width) (Nat.pos_of_ne_zero h.height))

theorem unsigned_eq (h : grid.IsAdmissible) (hbounds : grid.inBounds position = true) :
    Word.unsigned position.x = position.x.toNat ∧
      Word.unsigned position.y = position.y.toNat := by
  obtain ⟨hwidth, hheight⟩ := h.extents_lt
  rw [inBounds_iff] at hbounds
  exact ⟨Word.unsigned_eq_toNat (by omega) (by omega),
    Word.unsigned_eq_toNat (by omega) (by omega)⟩

theorem indexOf?_eq (h : grid.IsAdmissible) (hbounds : grid.inBounds position = true) :
    grid.indexOf? position = some (position.y.toNat * grid.width + position.x.toNat) ∧
      position.y.toNat * grid.width + position.x.toNat < grid.width * grid.height := by
  have hshows := h.consistent.shows_board
  have hinside := (hshows.inBounds_eq position).symm.trans hbounds
  obtain ⟨index, hindex, hplace⟩ := Board.exists_place hinside
  have hindexOf : position.y.toNat * grid.width + position.x.toNat =
      grid.board.indexOf position := by
    rw [Board.indexOf, Nat.add_comm, Nat.mul_comm]
  rw [hindexOf, hshows.indexOf?_eq h.addressable.manageable hbounds, ← hplace,
    Board.indexOf_place]
  exact ⟨rfl, hindex⟩

theorem cellOf?_eq (h : grid.IsAdmissible) {index : Nat}
    (hindex : index < grid.width * grid.height) :
    cellOf? grid.width index = some (grid.cellAt index) ∧
      Word.signed (index % grid.width : Nat) = (index % grid.width : Nat) ∧
      Word.signed (index / grid.width : Nat) = (index / grid.width : Nat) := by
  have hshort := Nat.lt_trans hindex h.addressable
  exact ⟨if_neg h.width,
    Word.signed_natCast (Nat.lt_of_le_of_lt (Nat.mod_le _ _) hshort),
    Word.signed_natCast (Nat.lt_of_le_of_lt (Nat.div_le_self _ _) hshort)⟩

theorem isInRange (h : grid.IsAdmissible) : grid.IsInRange where
  area := area?_eq h.addressable.manageable.area_lt
  signed_width := Word.signed_natCast h.extents_lt.1
  signed_area := Word.signed_natCast h.addressable
  liveCount := h.consistent.liveCount_le
  count := h.consistent.count?_eq h.addressable.manageable.area_lt
  total_count := fun _ => total_count_le
  positionAt := fun _ hindex =>
    positionAt?_eq (Nat.pos_of_ne_zero h.width) (Nat.lt_trans hindex h.addressable)
  freePositions := freePositions?_eq h.addressable.manageable.area_lt
  inBounds := fun _ => grid.inBounds?_eq
  unsigned := fun _ => h.unsigned_eq
  index := fun _ => h.indexOf?_eq
  step := fun _ => h.addressable.manageable.step?_eq
  stepBack := fun _ => h.addressable.manageable.stepBack?_eq
  cellOf := fun _ => h.cellOf?_eq
  ofPattern := ofPattern?_eq h.addressable.manageable.area_lt
  toPattern := by
    have hshows := h.consistent.shows_board
    rw [hshows.toPattern_eq, hshows.toPattern?_eq h.addressable.manageable]

end IsAdmissible

end Cellular.Grid
