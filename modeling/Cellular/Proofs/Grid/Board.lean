import Cellular.Proofs.Grid.RowMajor

/-!
# Boards

A board is the plain way to keep cells: one state for every cell, row by row, the
free ones included.  It takes the same requests as a grid, and every answer is read
off the list of states.  A batch of changes leaves each cell as the last change of
this cell has it (`get?_apply`), and a listing of cells is in row-major order because
the states are (`pairwise_cells`).
-/

namespace Cellular

structure Board (width height : Nat) where
  states : List StateId
  length_eq : states.length = width * height

namespace Board

variable {width height : Nat}

def blank (width height : Nat) : Board width height :=
  ⟨List.replicate (width * height) .free, List.length_replicate⟩

def place (_board : Board width height) (index : Nat) : Position :=
  ⟨(index % width : Nat), (index / width : Nat)⟩

def indexOf (_board : Board width height) (position : Position) : Nat :=
  position.x.toNat + width * position.y.toNat

def inBounds (_board : Board width height) (position : Position) : Bool :=
  (0 ≤ position.x ∧ position.x < width) ∧ 0 ≤ position.y ∧ position.y < height

def get? (board : Board width height) (position : Position) : Option StateId :=
  if board.inBounds position then board.states[board.indexOf position]? else none

/-! ## Changes -/

def replace (board : Board width height) (position : Position) (state : StateId) :
    Board width height :=
  ⟨board.states.set (board.indexOf position) state,
    List.length_set.trans board.length_eq⟩

def set (board : Board width height) (position : Position) (state : StateId) :
    Except OutOfBounds (StateId × Board width height) :=
  match board.get? position with
  | some old => .ok (old, board.replace position state)
  | none => .error ⟨position, width, height⟩

def lastTarget? (changes : List CellChange) (position : Position) :
    Option StateId :=
  (changes.reverse.find? fun change => change.position = position).map
    CellChange.target

/-- Makes a list of changes at once. -/
def replaceAll (board : Board width height) (changes : List CellChange) :
    Board width height :=
  ⟨board.states.mapIdx fun index old =>
      (lastTarget? changes (board.place index)).getD old,
    List.length_mapIdx.trans board.length_eq⟩

def apply (board : Board width height) (changes : List CellChange) :
    Except OutOfBounds (Board width height) :=
  match changes.find? fun change => !board.inBounds change.position with
  | some change => .error ⟨change.position, width, height⟩
  | none => .ok (board.replaceAll changes)

/-! ## Views -/

def cells (board : Board width height) : List (Position × StateId) :=
  board.states.mapIdx fun index state => (board.place index, state)

def liveCells (board : Board width height) : List (Position × StateId) :=
  board.cells.filter fun cell => !cell.2.isFree

def holding (board : Board width height) (state : StateId) : List Position :=
  (board.cells.filter fun cell => cell.2 = state).map Prod.fst

def positions (board : Board width height) (state : StateId) : List Position :=
  if state.isFree then [] else board.holding state

def count (board : Board width height) (state : StateId) : Nat :=
  board.states.count state

def liveCount (board : Board width height) : Nat :=
  board.states.countP fun state => !state.isFree

/-! ## Places and indices -/

variable {board : Board width height} {position place : Position}
  {state other : StateId} {index : Nat}

theorem inBounds_eq (board : Board width height) (position : Position) :
    board.inBounds position = (Grid.empty width height).inBounds position := by
  rw [Bool.eq_iff_iff, Grid.inBounds_iff]
  exact decide_eq_true_iff

theorem inBounds_place (h : index < width * height) :
    board.inBounds (board.place index) = true := by
  rw [inBounds_eq]
  exact Grid.inBounds_cellAt h

theorem indexOf_place (board : Board width height) (index : Nat) :
    board.indexOf (board.place index) = index := by
  simp only [indexOf, Board.place, Int.toNat_natCast]
  exact Nat.mod_add_div index width

theorem exists_place (h : board.inBounds position = true) :
    ∃ index < width * height, board.place index = position := by
  rw [inBounds_eq] at h
  exact Grid.exists_cellAt h

theorem get?_place (h : index < width * height) :
    board.get? (board.place index) = board.states[index]? := by
  rw [get?, if_pos (inBounds_place h), indexOf_place]

theorem get?_eq_none_iff :
    board.get? position = none ↔ board.inBounds position = false := by
  constructor
  · intro hnone
    rw [← Bool.not_eq_true]
    intro hbounds
    obtain ⟨index, hindex, rfl⟩ := exists_place hbounds
    rw [get?_place hindex, List.getElem?_eq_none_iff, board.length_eq] at hnone
    exact absurd hindex (Nat.not_lt.mpr hnone)
  · intro hbounds
    rw [get?, hbounds]
    rfl

theorem place_injective {first second : Nat}
    (h : board.place first = board.place second) : first = second := by
  rw [← board.indexOf_place first, h, indexOf_place]

/-! ## What a reader sees after changes -/

theorem get?_blank :
    (blank width height).get? position =
      if (blank width height).inBounds position then some .free else none := by
  split
  · rename_i hbounds
    obtain ⟨index, hindex, rfl⟩ := exists_place hbounds
    rw [get?_place hindex, blank, List.getElem?_replicate, if_pos hindex]
  · rename_i hbounds
    exact get?_eq_none_iff.mpr (Bool.not_eq_true _ ▸ hbounds)

theorem states_replace_place :
    (board.replace (board.place index) state).states = board.states.set index state :=
  congrArg (board.states.set · state) (board.indexOf_place index)

theorem get?_replace (h : board.inBounds position = true) :
    (board.replace position state).get? place =
      if position = place then some state else board.get? place := by
  obtain ⟨index, hindex, rfl⟩ := exists_place h
  by_cases hbounds : board.inBounds place = true
  · obtain ⟨other, hother, rfl⟩ := exists_place hbounds
    have hplace : ∀ after : Board width height,
        after.get? (board.place other) = after.states[other]? :=
      fun after => get?_place hother
    rw [hplace, hplace, states_replace_place, List.getElem?_set]
    by_cases heq : index = other
    · rw [if_pos heq, if_pos (by rw [board.length_eq]; exact hindex), if_pos]
      rw [heq]
    · rw [if_neg heq, if_neg fun hsame => heq (place_injective hsame)]
  · have hne : board.place index ≠ place := by
      rintro rfl
      exact hbounds (inBounds_place hindex)
    have hbounds' := Bool.not_eq_true _ ▸ hbounds
    rw [if_neg hne, get?_eq_none_iff.mpr hbounds']
    exact get?_eq_none_iff.mpr hbounds'

theorem lastTarget?_cons (change : CellChange) (changes : List CellChange) :
    lastTarget? (change :: changes) position =
      (lastTarget? changes position).or
        (if change.position = position then some change.target else none) := by
  rw [lastTarget?, lastTarget?, List.reverse_cons, List.find?_append]
  cases changes.reverse.find? fun change => change.position = position with
  | some last => rfl
  | none =>
      by_cases h : change.position = position
      · simp [h]
      · simp [h]

theorem get?_replaceAll {changes : List CellChange} :
    (board.replaceAll changes).get? position =
      (board.get? position).map fun old =>
        (lastTarget? changes position).getD old := by
  by_cases hbounds : board.inBounds position = true
  · obtain ⟨index, hindex, rfl⟩ := exists_place hbounds
    have hplace : ∀ after : Board width height,
        after.get? (board.place index) = after.states[index]? :=
      fun after => get?_place hindex
    rw [hplace, hplace, replaceAll, List.getElem?_mapIdx]
  · have hbounds' := Bool.not_eq_true _ ▸ hbounds
    rw [get?_eq_none_iff.mpr hbounds']
    exact get?_eq_none_iff.mpr hbounds'

/-! ## What the listings say -/

theorem mem_cells :
    (position, state) ∈ board.cells ↔ board.get? position = some state := by
  simp only [cells, List.mem_mapIdx, Prod.mk.injEq]
  constructor
  · rintro ⟨index, hindex, rfl, rfl⟩
    rw [get?_place (board.length_eq ▸ hindex), List.getElem?_eq_getElem hindex]
  · intro hget
    have hbounds : board.inBounds position = true := by
      by_contra hnot
      rw [get?_eq_none_iff.mpr (Bool.not_eq_true _ ▸ hnot)] at hget
      cases hget
    obtain ⟨index, hindex, rfl⟩ := exists_place hbounds
    rw [get?_place hindex] at hget
    obtain ⟨hlength, hstate⟩ := List.getElem?_eq_some_iff.mp hget
    exact ⟨index, hlength, rfl, hstate⟩

theorem pairwise_cells (board : Board width height) :
    board.cells.Pairwise fun first second => first.1.Precedes second.1 := by
  rw [cells, List.mapIdx_eq_zipIdx_map, List.pairwise_map]
  have hindices : (board.states.zipIdx.map Prod.snd).Pairwise (· < ·) := by
    rw [List.zipIdx_map_snd]
    exact List.pairwise_lt_range'
  refine (List.pairwise_map.mp hindices).imp ?_
  rintro ⟨first, index⟩ ⟨second, other⟩ hlt
  exact @Grid.precedes_cellAt (Grid.empty width height) index other hlt

theorem mem_holding :
    position ∈ board.holding state ↔ board.get? position = some state := by
  rw [holding, List.mem_map, ← mem_cells]
  simp

theorem pairwise_holding (board : Board width height) (state : StateId) :
    (board.holding state).Pairwise Position.Precedes :=
  List.pairwise_map.mpr (board.pairwise_cells.filter _)

theorem map_snd_cells (board : Board width height) :
    board.cells.map Prod.snd = board.states := by
  rw [cells, List.mapIdx_eq_zipIdx_map, List.map_map]
  exact List.zipIdx_map_fst 0 board.states

theorem count_eq_length (board : Board width height) (state : StateId) :
    board.count state = (board.holding state).length := by
  rw [count, List.count, ← map_snd_cells board, List.countP_map, holding,
    List.length_map, List.countP_eq_length_filter]
  rfl

theorem liveCount_eq_length (board : Board width height) :
    board.liveCount = board.liveCells.length := by
  rw [liveCount, ← map_snd_cells board, List.countP_map, liveCells,
    List.countP_eq_length_filter]
  rfl

theorem count_free_add_liveCount (board : Board width height) :
    board.count .free + board.liveCount = width * height := by
  have hfree : board.count .free = board.states.countP StateId.isFree := by
    rw [count, List.count_eq_countP]
    refine List.countP_congr fun state _ => ?_
    rw [beq_iff_eq, StateId.isFree_iff]
  have hlive : board.liveCount =
      board.states.countP fun state => decide ¬state.isFree = true := by
    refine List.countP_congr fun state _ => ?_
    rw [decide_eq_true_iff, Bool.not_eq_true', Bool.not_eq_true]
  rw [hfree, hlive, ← List.length_eq_countP_add_countP, board.length_eq]

end Board

/-! ## Counts of all states -/

namespace StateId

def all : List StateId := (List.range 65536).map ofIndex

theorem mem_all (state : StateId) : state ∈ all := by
  refine List.mem_map.mpr ⟨state.index, ?_, ofIndex_index state⟩
  exact List.mem_range.mpr state.value.toNat_lt

theorem nodup_all : all.Nodup := by
  refine List.Nodup.map_on ?_ List.nodup_range
  intro first hfirst second hsecond heq
  rw [← index_ofIndex (List.mem_range.mp hfirst), heq,
    index_ofIndex (List.mem_range.mp hsecond)]

theorem total_count_cons (state : StateId) (states listed : List StateId) :
    total (listed.map fun other => (state :: states).count other) =
      total (listed.map fun other => states.count other) + listed.count state := by
  induction listed with
  | nil => rfl
  | cons other listed ih =>
      have hsame : (if state == other then 1 else 0) =
          if other == state then 1 else 0 := by rw [Bool.beq_comm]
      rw [List.map_cons, total_cons, ih, List.count_cons, List.count_cons, hsame,
        List.map_cons, total_cons]
      omega

theorem total_count_nil (listed : List StateId) :
    total (listed.map fun state => [].count state) = 0 := by
  induction listed with
  | nil => rfl
  | cons state listed ih => rw [List.map_cons, total_cons, ih, List.count_nil]

theorem total_count_all (states : List StateId) :
    total (all.map fun state => states.count state) = states.length := by
  induction states with
  | nil => exact total_count_nil all
  | cons state states ih =>
      rw [total_count_cons, ih, List.count_eq_one_of_mem nodup_all (mem_all state),
        List.length_cons]

end StateId

end Cellular
