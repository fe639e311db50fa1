import Cellular.Proofs.Grid.Changes
import Cellular.Proofs.Pattern.Fields

/-!
# Cells in a file

A live cell is written with its distance from the center and the name of its
state.  The distance is counted from the same center again when the line is read,
so every line puts the cell that it was written from (`readCells_eq_ok`).
-/

namespace Cellular

open Text

/-- The extents and the coordinates of the live cells are machine words, and the
coordinates have a sign. -/
structure Grid.FitsWords (grid : Grid) : Prop where
  width : grid.width < Word.modulus
  height : grid.height < Word.modulus
  x : ∀ cell ∈ grid.liveCells, cell.1.x < Word.signedBound
  y : ∀ cell ∈ grid.liveCells, cell.1.y < Word.signedBound

/-! ## Distances from the center -/

namespace Word

variable {coordinate : Int} {extent : Nat}

theorem sub_center_bounds (hlower : 0 ≤ coordinate)
    (hupper : coordinate < signedBound) (hextent : extent < modulus) :
    -signedBound ≤ coordinate - (extent / 2 : Nat) ∧
      coordinate - (extent / 2 : Nat) < signedBound := by
  unfold signedBound modulus at *
  omega

theorem signed_sub_add_center (hlower : 0 ≤ coordinate)
    (hupper : coordinate < signedBound) :
    signed (coordinate - (extent / 2 : Nat) + (extent / 2 : Nat)) = coordinate := by
  rw [Int.sub_add_cancel]
  refine signed_eq_self ?_ hupper
  unfold signedBound
  omega

theorem signed?_toString {value : Int}
    (h : -signedBound ≤ value ∧ value < signedBound) :
    signed? (signedBound - 1) (toString value).toList = some value := by
  obtain ⟨hlower, hupper⟩ := h
  unfold signedBound at *
  exact Text.signed?_toString (by omega) (by omega)

end Word

/-! ## Entries -/

namespace Pattern.CellEntry

def words (entry : CellEntry) : List (List Char) :=
  [(toString entry.x).toList, (toString entry.y).toList, entry.name.toList]

def line (entry : CellEntry) : List Char := [' '].intercalate entry.words ++ [';']

variable {entry : CellEntry}

theorem isWord_words (hname : IsCanonicalName entry.name) :
    ∀ word ∈ entry.words, IsWord word := by
  simp only [words, List.forall_mem_cons]
  exact ⟨isWord_toString_int _, isWord_toString_int _, hname.isWord, nofun⟩

theorem line_eq_append (entry : CellEntry) :
    ∃ rest, entry.line = (toString entry.x).toList ++ rest := by
  rw [line, words, List.intercalate_cons_cons, List.append_assoc, List.append_assoc]
  exact ⟨_, rfl⟩

theorem isPlain_line (hname : IsCanonicalName entry.name) :
    Section.IsPlain entry.line := by
  have hbracket : '[' ∉ (toString entry.x).toList := by
    intro hmem
    rcases eq_minus_or_isDigit_of_mem_toString hmem with h | h
    · exact absurd h (by decide)
    · exact absurd h (by decide)
  obtain ⟨rest, hrest⟩ := entry.line_eq_append
  refine ⟨unbroken_append.mpr ⟨unbroken_intercalate (by decide)
    fun word hmem => (isWord_words hname word hmem).unbroken, by decide⟩, ?_⟩
  rw [hrest]
  exact Section.isMarker_append (isWord_toString_int _) hbracket

theorem isAllBlank_line (entry : CellEntry) : isAllBlank entry.line = false := by
  obtain ⟨rest, hrest⟩ := entry.line_eq_append
  rw [hrest]
  exact (isWord_toString_int _).isAllBlank_append

theorem trim_line (entry : CellEntry) : trim entry.line = entry.line := by
  obtain ⟨c, letters, hletters, hblank⟩ := (isWord_toString_int entry.x).head
  refine trim_eq_self ?_ (by decide)
  rw [words, List.intercalate_cons_cons, hletters, List.append_assoc]
  rintro _ ⟨⟩
  exact hblank

theorem ofLine?_line (hname : IsCanonicalName entry.name)
    (hx : -Word.signedBound ≤ entry.x ∧ entry.x < Word.signedBound)
    (hy : -Word.signedBound ≤ entry.y ∧ entry.y < Word.signedBound) :
    ofLine? entry.line = some entry := by
  have hwords : Text.words ([' '].intercalate entry.words) = entry.words :=
    words_intercalate (isWord_words hname)
  rw [ofLine?, line, List.getLast?_concat, if_pos rfl, List.dropLast_concat, hwords]
  simp only [words, Word.signed?_toString hx, Word.signed?_toString hy,
    String.ofList_toList]
  rfl

end Pattern.CellEntry

namespace Pattern

variable {pattern : Pattern} {position : Position} {state : StateId} {name : String}

/-! ## The cells of a pattern -/

def entryOf (pattern : Pattern) (position : Position) (name : String) : CellEntry :=
  ⟨position.x - (center pattern.grid).x, position.y - (center pattern.grid).y, name⟩

theorem cellLine_eq (h : pattern.states.name? state = some name) :
    pattern.cellLine (position, state) = (pattern.entryOf position name).line := by
  simp [cellLine, CellEntry.line, CellEntry.words, entryOf, h,
    List.intercalate_cons_cons]

theorem isPlain_cellLine (h : pattern.states.name? state = some name) :
    Section.IsPlain (pattern.cellLine (position, state)) := by
  rw [cellLine_eq h]
  exact CellEntry.isPlain_line
    (StateUniverse.isCanonicalName_of_mem (List.mem_of_getElem? h))

theorem readCell_eq_ok {grid : Grid} {line : NumberedLine}
    (hconsistent : pattern.grid.Consistent) (hfits : pattern.grid.FitsWords)
    (hcell : (position, state) ∈ pattern.grid.liveCells)
    (hname : pattern.states.name? state = some name)
    (hwidth : grid.width = pattern.grid.width)
    (hheight : grid.height = pattern.grid.height)
    (hline : line.text = pattern.cellLine (position, state)) :
    readCell pattern.states grid line = .ok (grid.put position state) := by
  have hstored := Grid.mem_liveCells.mp hcell
  have hcanonical := StateUniverse.isCanonicalName_of_mem (List.mem_of_getElem? hname)
  have hbounds := Grid.inBounds_iff.mp (hconsistent.inBounds hstored)
  obtain ⟨⟨hx, -⟩, hy, -⟩ := hbounds
  have hentry : CellEntry.ofLine? (trim line.text) =
      some (pattern.entryOf position name) := by
    rw [hline, cellLine_eq hname, CellEntry.trim_line]
    exact CellEntry.ofLine?_line hcanonical
      (Word.sub_center_bounds hx (hfits.x _ hcell) hfits.width)
      (Word.sub_center_bounds hy (hfits.y _ hcell) hfits.height)
  have hplace : (pattern.entryOf position name).position grid = position := by
    simp only [CellEntry.position, entryOf, center, hwidth, hheight,
      Word.signed_sub_add_center hx (hfits.x _ hcell),
      Word.signed_sub_add_center hy (hfits.y _ hcell)]
  have hinside : grid.inBounds position = true := by
    rw [Grid.inBounds, hwidth, hheight]
    exact hconsistent.inBounds hstored
  have hsome : line.isBlank = false := by
    rw [NumberedLine.isBlank, hline, cellLine_eq hname, CellEntry.isAllBlank_line]
  have hstate : ((pattern.states.id? (pattern.entryOf position name).name).filter
      fun state => !state.isFree) = some state := by
    have hlive := StateId.isFree_eq_false_iff.mpr (hconsistent.live hstored)
    rw [entryOf, StateUniverse.id?_of_name? hname, Option.filter_some, hlive]
    rfl
  simp only [readCell, hsome, hentry, hstate, hplace, Grid.set_eq_ok hinside]
  rfl

theorem readCells_eq_ok {grid : Grid} {body : List NumberedLine}
    {cells : List (Position × StateId)} (hconsistent : pattern.grid.Consistent)
    (hfits : pattern.grid.FitsWords) (hcells : cells ⊆ pattern.grid.liveCells)
    (hnames : ∀ cell ∈ cells, ∃ name, pattern.states.name? cell.2 = some name)
    (hwidth : grid.width = pattern.grid.width)
    (hheight : grid.height = pattern.grid.height)
    (hbody : body.map NumberedLine.text = cells.map pattern.cellLine) :
    readCells pattern.states grid body = .ok (grid.putCells cells) := by
  -- The grid grows from line to line and keeps its extents, and so its center.
  induction cells generalizing grid body with
  | nil =>
      rw [List.map_eq_nil_iff.mp hbody]
      rfl
  | cons cell cells ih =>
      obtain ⟨line, body, rfl, hline, hbody⟩ := List.map_eq_cons_iff.mp hbody
      rw [List.cons_subset] at hcells
      rw [List.forall_mem_cons] at hnames
      obtain ⟨⟨name, hname⟩, hnames⟩ := hnames
      have hput := readCell_eq_ok hconsistent hfits hcells.1 hname hwidth hheight hline
      have hrest := @ih (grid.put cell.1 cell.2) body hcells.2 hnames
        (Grid.width_put.trans hwidth) (Grid.height_put.trans hheight) hbody
      rw [readCells, List.foldlM_cons, hput]
      exact hrest

end Pattern

end Cellular
