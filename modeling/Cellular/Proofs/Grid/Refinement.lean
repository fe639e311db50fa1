import Cellular.Proofs.Grid.Board
import Cellular.Proofs.Grid.History

/-!
# Grids as boards

A keeper of cells answers requests, and a request may change what it keeps.  Grids
and boards are keepers.  A view may have no answer, where a size is no word.  A grid
shows a board if both have the same extents and the same state in every cell (`Shows`).
Then they give the same answer to every request and the grid after it shows the board
after it (`Shows.answer`), and so it goes on for any number of requests
(`Shows.answers`).  A grid without live cells shows the blank board.
-/

namespace Cellular

/-! ## Keepers of cells -/

inductive View where
  | get (position : Position)
  | inBounds (position : Position)
  | count (state : StateId)
  | positions (state : StateId)
  | freePositions
  | liveCount
  | liveCells

inductive Request where
  | set (position : Position) (state : StateId)
  | apply (changes : List CellChange)
  | clear
  | view (view : View)

inductive Answer where
  | replaced (outcome : Except OutOfBounds StateId)
  | applied (outcome : Except OutOfBounds Unit)
  | cleared
  | state (found : Option StateId)
  | truth (inside : Bool)
  | number (number : Nat)
  | places (positions : List Position)
  | cells (cells : List (Position × StateId))

structure Keeper (κ : Type) where
  set : κ → Position → StateId → Except OutOfBounds (StateId × κ)
  apply : κ → List CellChange → Except OutOfBounds Unit × κ
  clear : κ → κ
  look : κ → View → Option Answer

namespace Keeper

variable {κ : Type}

def answer (keeper : Keeper κ) (kept : κ) : Request → Option Answer × κ
  | .set position state =>
      match keeper.set kept position state with
      | .ok (old, after) => (some (.replaced (.ok old)), after)
      | .error error => (some (.replaced (.error error)), kept)
  | .apply changes =>
      let (outcome, after) := keeper.apply kept changes
      (some (.applied outcome), after)
  | .clear => (some .cleared, keeper.clear kept)
  | .view view => (keeper.look kept view, kept)

def answers (keeper : Keeper κ) (kept : κ) :
    List Request → List (Option Answer) × κ
  | [] => ([], kept)
  | request :: requests =>
      let (answer, after) := keeper.answer kept request
      let (answers, last) := keeper.answers after requests
      (answer :: answers, last)

end Keeper

namespace Grid

def look (grid : Grid) : View → Option Answer
  | .get position => some (.state (grid.get? position))
  | .inBounds position => some (.truth (grid.inBounds position))
  | .count state => (grid.count? state).map .number
  | .positions state => some (.places (grid.positions state))
  | .freePositions => grid.freePositions?.map .places
  | .liveCount => some (.number grid.liveCount)
  | .liveCells => some (.cells grid.liveCells)

def keeper : Keeper Grid := ⟨Grid.set, Grid.applyInPlace, Grid.clear, look⟩

end Grid

namespace Board

variable {width height : Nat}

def applyAll (board : Board width height) (changes : List CellChange) :
    Except OutOfBounds Unit × Board width height :=
  match board.apply changes with
  | .ok after => (.ok (), after)
  | .error error => (.error error, board)

def look (board : Board width height) : View → Answer
  | .get position => .state (board.get? position)
  | .inBounds position => .truth (board.inBounds position)
  | .count state => .number (board.count state)
  | .positions state => .places (board.positions state)
  | .freePositions => .places (board.holding .free)
  | .liveCount => .number board.liveCount
  | .liveCells => .cells board.liveCells

def keeper (width height : Nat) : Keeper (Board width height) :=
  ⟨Board.set, applyAll, fun _ => blank width height, fun board view => some (board.look view)⟩

end Board

namespace Grid

/-! ## Changes of a cell, one after the other -/

theorem get?_eq_none (grid : Grid) {position : Position}
    (h : ¬grid.inBounds position = true) : grid.get? position = none := by
  rw [get?, if_neg h]

theorem get?_putAll (grid : Grid) (changes : List CellChange) (position : Position) :
    (grid.putAll changes).get? position =
      (grid.get? position).map fun old =>
        (Board.lastTarget? changes position).getD old := by
  by_cases hbounds : grid.inBounds position = true
  · induction changes generalizing grid with
    | nil => rw [putAll_nil, Board.lastTarget?]; simp
    | cons change changes ih =>
        rw [putAll_cons, ih _ (by rwa [inBounds_put]), get?_put hbounds,
          Board.lastTarget?_cons, get?_eq_some_of_inBounds hbounds]
        cases Board.lastTarget? changes position with
        | some last => split <;> rfl
        | none => split <;> rfl
  · rw [get?_eq_none grid hbounds, get?_eq_none _ (by rwa [inBounds_putAll])]
    rfl

/-! ## One request -/

/-- A grid whose reader sees what a reader of the board sees. -/
structure Shows {width height : Nat} (grid : Grid) (board : Board width height) :
    Prop where
  consistent : grid.Consistent
  width_eq : grid.width = width
  height_eq : grid.height = height
  get?_eq : ∀ position, grid.get? position = board.get? position

variable {width height : Nat} {grid : Grid} {board : Board width height}
  {position : Position} {state : StateId}

theorem shows_empty (width height : Nat) :
    (empty width height).Shows (Board.blank width height) where
  consistent := consistent_empty width height
  width_eq := rfl
  height_eq := rfl
  get?_eq position := by
    rw [Board.get?_blank, Board.inBounds_eq, get?]
    rfl

namespace Shows

theorem inBounds_eq (h : grid.Shows board) (position : Position) :
    grid.inBounds position = board.inBounds position := by
  rw [Board.inBounds_eq, inBounds, inBounds, h.width_eq, h.height_eq]
  rfl

theorem outOfBounds_eq (h : grid.Shows board) :
    grid.outOfBounds position = ⟨position, width, height⟩ := by
  rw [outOfBounds, h.width_eq, h.height_eq]

theorem addressable (h : grid.Shows board)
    (harea : width * height < Word.signedBound) : grid.Addressable := by
  rw [Addressable, h.width_eq, h.height_eq]
  exact harea

theorem put (h : grid.Shows board) (hbounds : grid.inBounds position = true) :
    (grid.put position state).Shows (board.replace position state) where
  consistent := h.consistent.put hbounds
  width_eq := width_put.trans h.width_eq
  height_eq := height_put.trans h.height_eq
  get?_eq place := by
    rw [Board.get?_replace (h.inBounds_eq position ▸ hbounds), ← h.get?_eq]
    by_cases hplace : grid.inBounds place = true
    · exact get?_put hplace
    · have hne : position ≠ place := fun heq => hplace (heq ▸ hbounds)
      rw [if_neg hne, get?_eq_none grid hplace,
        get?_eq_none _ (by rwa [inBounds_put])]

theorem putAll {changes : List CellChange} (h : grid.Shows board)
    (hbounds : ∀ change ∈ changes, grid.inBounds change.position = true) :
    (grid.putAll changes).Shows (board.replaceAll changes) where
  consistent := h.consistent.putAll hbounds
  width_eq := (width_putAll changes).trans h.width_eq
  height_eq := (height_putAll changes).trans h.height_eq
  get?_eq place := by rw [get?_putAll, Board.get?_replaceAll, h.get?_eq]

theorem answer_set (h : grid.Shows board) (position : Position) (state : StateId) :
    (Grid.keeper.answer grid (.set position state)).1 =
        ((Board.keeper width height).answer board (.set position state)).1 ∧
      (Grid.keeper.answer grid (.set position state)).2.Shows
        ((Board.keeper width height).answer board (.set position state)).2 := by
  simp only [Keeper.answer, Grid.keeper, Board.keeper, Board.set, ← h.get?_eq]
  by_cases hbounds : grid.inBounds position = true
  · rw [set_eq_ok hbounds, get?_eq_some_of_inBounds hbounds]
    exact ⟨rfl, h.put hbounds⟩
  · rw [Grid.set, if_neg hbounds, get?_eq_none grid hbounds, h.outOfBounds_eq]
    exact ⟨rfl, h⟩

theorem answer_apply (h : grid.Shows board) (changes : List CellChange) :
    (Grid.keeper.answer grid (.apply changes)).1 =
        ((Board.keeper width height).answer board (.apply changes)).1 ∧
      (Grid.keeper.answer grid (.apply changes)).2.Shows
        ((Board.keeper width height).answer board (.apply changes)).2 := by
  simp only [Keeper.answer, Grid.keeper, Board.keeper, applyInPlace_eq, Board.applyAll,
    Grid.apply, Board.apply, ← h.inBounds_eq]
  cases hfound : changes.find? fun change => !grid.inBounds change.position with
  | some change =>
      exact ⟨congrArg (fun error => some (Answer.applied (.error error))) h.outOfBounds_eq,
        h⟩
  | none =>
      refine ⟨rfl, h.putAll fun change hmem => ?_⟩
      simpa using List.find?_eq_none.mp hfound change hmem

/-! ## Listings and counts -/

theorem positions_eq (h : grid.Shows board) (state : StateId) :
    grid.positions state = board.positions state := by
  unfold Board.positions
  split
  · rename_i hfree
    have hempty : ∀ position, position ∉ grid.positions state := by
      intro position hmem
      rw [positions, Std.ExtTreeSet.mem_toList, h.consistent.mem_iff] at hmem
      exact h.consistent.live hmem (StateId.isFree_iff.mp hfree)
    exact List.eq_nil_iff_forall_not_mem.mpr hempty
  · rename_i hlive
    refine (pairwise_positions grid state).eq_of_mem_iff
      (board.pairwise_holding state) fun position => ?_
    rw [h.consistent.mem_positions (StateId.isFree_eq_false_iff.mp
      (Bool.not_eq_true _ ▸ hlive)), Board.mem_holding, h.get?_eq]

theorem freePositions?_eq (h : grid.Shows board)
    (harea : width * height < Word.signedBound) :
    grid.freePositions? = some (board.holding .free) := by
  rw [Grid.freePositions?_eq (h.addressable harea).manageable.area_lt]
  refine congrArg some ((h.addressable harea).pairwise_freePositions.eq_of_mem_iff
    (board.pairwise_holding .free) fun position => ?_)
  rw [h.consistent.mem_freePositions (h.addressable harea), Board.mem_holding,
    h.get?_eq]

theorem liveCells_eq (h : grid.Shows board) : grid.liveCells = board.liveCells := by
  have hgrid : grid.liveCells.Pairwise (InvImage Position.Precedes Prod.fst) := by
    refine Std.ExtTreeMap.ordered_keys_toList.imp fun hlt => ?_
    exact Position.compare_eq_lt_iff.mp hlt
  have hboard : board.liveCells.Pairwise (InvImage Position.Precedes Prod.fst) :=
    board.pairwise_cells.filter _
  refine hgrid.eq_of_mem_iff hboard ?_
  rintro ⟨position, state⟩
  rw [mem_liveCells, Board.liveCells, List.mem_filter, Board.mem_cells, ← h.get?_eq]
  constructor
  · intro hcell
    have hlive := h.consistent.live hcell
    exact ⟨(h.consistent.get?_eq_some_live hlive).mpr hcell,
      by simpa using StateId.isFree_eq_false_iff.mpr hlive⟩
  · rintro ⟨hget, hlive⟩
    have hlive' : state ≠ .free := StateId.isFree_eq_false_iff.mp (by simpa using hlive)
    exact (h.consistent.get?_eq_some_live hlive').mp hget

theorem liveCount_eq (h : grid.Shows board) : grid.liveCount = board.liveCount := by
  rw [Board.liveCount_eq_length, ← h.liveCells_eq, liveCells,
    Std.ExtTreeMap.length_toList, liveCount]

theorem count?_eq (h : grid.Shows board) (harea : width * height < Word.modulus)
    (state : StateId) : grid.count? state = some (board.count state) := by
  unfold Grid.count?
  split
  · rename_i hfree
    have hsum := board.count_free_add_liveCount
    have hfits : grid.width * grid.height < Word.modulus := by
      rw [h.width_eq, h.height_eq]
      exact harea
    have hrest : (grid.area : Int) - grid.liveCount = (board.count .free : Nat) := by
      rw [area, h.width_eq, h.height_eq, h.liveCount_eq]
      omega
    rw [bind_of_eq_some (area?_eq hfits), hrest, StateId.isFree_iff.mp hfree]
    exact Word.toUnsigned?_natCast (by omega)
  · rename_i hlive
    rw [Board.count_eq_length, ← Std.ExtTreeSet.length_toList]
    have hpositions := h.positions_eq state
    rw [Board.positions, if_neg hlive] at hpositions
    rw [← hpositions]
    rfl

theorem look_eq (h : grid.Shows board) (harea : width * height < Word.signedBound)
    (view : View) : grid.look view = some (board.look view) := by
  have hfits := Nat.lt_trans harea Word.signedBound_lt_modulus
  cases view with
  | get position => exact congrArg (some ∘ Answer.state) (h.get?_eq position)
  | inBounds position => exact congrArg (some ∘ Answer.truth) (h.inBounds_eq position)
  | count state =>
      rw [Grid.look, h.count?_eq hfits]
      rfl
  | positions state => exact congrArg (some ∘ Answer.places) (h.positions_eq state)
  | freePositions =>
      rw [Grid.look, h.freePositions?_eq harea]
      rfl
  | liveCount => exact congrArg (some ∘ Answer.number) h.liveCount_eq
  | liveCells => exact congrArg (some ∘ Answer.cells) h.liveCells_eq

/-! ## Any number of requests -/

theorem answer (h : grid.Shows board) (harea : width * height < Word.signedBound)
    (request : Request) :
    (Grid.keeper.answer grid request).1 =
        ((Board.keeper width height).answer board request).1 ∧
      (Grid.keeper.answer grid request).2.Shows
        ((Board.keeper width height).answer board request).2 := by
  cases request with
  | set position state => exact h.answer_set position state
  | apply changes => exact h.answer_apply changes
  | clear =>
      have hclear : grid.clear = empty width height := by
        rw [clear, h.width_eq, h.height_eq]
      refine ⟨rfl, ?_⟩
      show grid.clear.Shows (Board.blank width height)
      rw [hclear]
      exact shows_empty width height
  | view view => exact ⟨h.look_eq harea view, h⟩

theorem answers (h : grid.Shows board) (harea : width * height < Word.signedBound)
    (requests : List Request) :
    (Grid.keeper.answers grid requests).1 =
        ((Board.keeper width height).answers board requests).1 ∧
      (Grid.keeper.answers grid requests).2.Shows
        ((Board.keeper width height).answers board requests).2 := by
  induction requests generalizing grid board with
  | nil => exact ⟨rfl, h⟩
  | cons request requests ih =>
      obtain ⟨hanswer, hafter⟩ := h.answer harea request
      obtain ⟨hanswers, hlast⟩ := ih hafter
      exact ⟨congrArg₂ List.cons hanswer hanswers, hlast⟩

end Shows

/-! ## What a board says about the grid -/

def holding? (grid : Grid) (state : StateId) : Option (List Position) :=
  if state.isFree then grid.freePositions? else some (grid.positions state)

theorem Shows.holding?_eq (h : grid.Shows board)
    (harea : width * height < Word.signedBound) (state : StateId) :
    grid.holding? state = some (board.holding state) := by
  unfold holding?
  split
  · rename_i hfree
    rw [h.freePositions?_eq harea, StateId.isFree_iff.mp hfree]
  · rename_i hlive
    rw [h.positions_eq, Board.positions, if_neg hlive]

theorem isOk_set (grid : Grid) (position : Position) (state : StateId) :
    (grid.set position state).isOk = grid.inBounds position := by
  unfold set
  split
  · rename_i hbounds
    exact hbounds.symm
  · rename_i hbounds
    exact (Bool.not_eq_true _ ▸ hbounds).symm

theorem isOk_apply (grid : Grid) (changes : List CellChange) :
    (grid.apply changes).isOk =
      changes.all fun change => grid.inBounds change.position := by
  rw [Bool.eq_iff_iff, List.all_eq_true]
  constructor
  · intro hok
    cases hafter : grid.apply changes with
    | ok after => exact (apply_eq_ok_iff.mp hafter).1
    | error error => rw [hafter] at hok; cases hok
  · intro hbounds
    rw [apply_eq_ok hbounds]
    rfl

theorem get?_apply {changes : List CellChange} {after : Grid}
    (h : grid.apply changes = .ok after) (position : Position) :
    after.get? position =
      (grid.get? position).map fun old =>
        (Board.lastTarget? changes position).getD old := by
  obtain ⟨-, rfl⟩ := apply_eq_ok_iff.mp h
  exact get?_putAll grid changes position

/-- Whatever is asked of a grid without live cells, it answers as the blank board of
its extents does, and in the end both have the same state in every cell.  Then a set
and a batch of changes are accepted just if they stay inside the extents, and a
batch leaves every cell as its last change of this cell has it.  The cells of every
state are listed row by row and are as many as counted, and all counts make up the
area. -/
theorem answers_eq_board (width height : Nat)
    (harea : width * height < Word.signedBound) (requests : List Request) :
    ∃ answers grid, ∃ board : Board width height,
      Grid.keeper.answers (empty width height) requests = (answers, grid) ∧
      (Board.keeper width height).answers (.blank width height) requests =
        (answers, board) ∧
      (∀ position, grid.get? position = board.get? position) ∧
      (∀ position state, (grid.set position state).isOk = board.inBounds position) ∧
      (∀ changes, (grid.apply changes).isOk =
        changes.all fun change => board.inBounds change.position) ∧
      (∀ changes after, grid.apply changes = .ok after → ∀ position,
        after.get? position = (board.get? position).map fun old =>
          (Board.lastTarget? changes position).getD old) ∧
      (∀ state, ∃ cells, grid.holding? state = some cells ∧
        cells.Pairwise Position.Precedes ∧
        (∀ position, position ∈ cells ↔ board.get? position = some state) ∧
        grid.count? state = some cells.length) ∧
      ∃ counts, StateId.all.mapM grid.count? = some counts ∧
        total counts = width * height := by
  have hfits := Nat.lt_trans harea Word.signedBound_lt_modulus
  obtain ⟨hanswers, hshows⟩ := (shows_empty width height).answers harea requests
  refine ⟨_, _, _, rfl, Prod.ext hanswers.symm rfl, hshows.get?_eq, ?_, ?_, ?_, ?_, ?_⟩
  · intro position state
    rw [isOk_set, hshows.inBounds_eq]
  · intro changes
    simp only [isOk_apply, hshows.inBounds_eq]
  · intro changes after happly position
    rw [get?_apply happly, hshows.get?_eq]
  · intro state
    rw [hshows.count?_eq hfits, Board.count_eq_length]
    exact ⟨_, hshows.holding?_eq harea state, Board.pairwise_holding _ state,
      fun position => Board.mem_holding, rfl⟩
  · exact ⟨_, mapM_eq_some_map fun state _ => hshows.count?_eq hfits state,
      (StateId.total_count_all _).trans (Board.length_eq _)⟩

/-- Overwriting and freeing a cell, a batch refused for its last change, and a batch
that names a cell twice. -/
def editing : List Request :=
  [.set ⟨0, 0⟩ ⟨1⟩, .set ⟨0, 0⟩ ⟨2⟩, .set ⟨1, 1⟩ ⟨2⟩, .set ⟨1, 1⟩ .free,
    .apply [⟨.free, ⟨3⟩, ⟨2, 0⟩⟩, ⟨.free, ⟨3⟩, ⟨3, 0⟩⟩],
    .apply [⟨.free, ⟨3⟩, ⟨2, 0⟩⟩, ⟨⟨3⟩, ⟨2⟩, ⟨2, 0⟩⟩, ⟨.free, ⟨2⟩, ⟨1, 0⟩⟩],
    .view (.positions ⟨2⟩), .view (.count .free)]

theorem answers_eq_board_editing :
    3 * 2 < Word.signedBound ∧
      (Grid.keeper.answers (empty 3 2) editing).1 =
        [some (.replaced (.ok .free)), some (.replaced (.ok ⟨1⟩)),
          some (.replaced (.ok .free)), some (.replaced (.ok ⟨2⟩)),
          some (.applied (.error ⟨⟨3, 0⟩, 3, 2⟩)), some (.applied (.ok ())),
          some (.places [⟨0, 0⟩, ⟨1, 0⟩, ⟨2, 0⟩]), some (.number 3)] := by
  have harea : 3 * 2 < Word.signedBound := by decide
  obtain ⟨answers, grid, board, hgrid, hboard, -⟩ :=
    answers_eq_board 3 2 harea editing
  have hanswers : answers =
      ((Board.keeper 3 2).answers (.blank 3 2) editing).1 := by rw [hboard]
  refine ⟨harea, ?_⟩
  rw [hgrid, hanswers]
  rfl

end Grid

end Cellular
