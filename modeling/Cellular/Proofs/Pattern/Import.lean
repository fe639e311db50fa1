import Cellular.Proofs.Pattern.Reading

/-!
# Cells that are imported

A line of cells shows an entry (`CellEntry.Shows`): two numerals and a name, counted from
the center of the grid.  Reading a text whose other sections are in order goes on over the
lines of its cells until one offends, by its shape, by its state or by its position, and
reports the number of that line in the whole text.  If none offends, the live cells are
those that the lines place, each with the state of the last line that places it
(`parse_cells`).  Positions are sums in exact arithmetic.
-/

namespace Cellular

open Text

namespace Pattern.CellEntry

variable {entry : CellEntry} {line text : List Char}

/-! ## The shape of a line -/

/-- The line shows the entry: two numerals of signed words and a name, with blanks between
them, then a semicolon.  Blanks may stand around all of it and before the semicolon. -/
inductive Shows : CellEntry → List Char → Prop
  | intro {indent x gap y space margin rest : List Char} {entry : CellEntry}
      (hindent : isAllBlank indent = true) (hx : IsNumeral (Word.signedBound - 1) x entry.x)
      (hgap : IsGap gap) (hy : IsNumeral (Word.signedBound - 1) y entry.y)
      (hspace : IsGap space) (hname : IsWord entry.name.toList)
      (hmargin : isAllBlank margin = true) (hrest : isAllBlank rest = true) :
      Shows entry
        (indent ++ x ++ gap ++ y ++ space ++ entry.name.toList ++ margin ++ [';'] ++ rest)

theorem exists_fields_of_words_eq {x y name : List Char} (h : Text.words text = [x, y, name]) :
    ∃ indent gap space margin,
      text = indent ++ (x ++ (gap ++ (y ++ (space ++ (name ++ margin))))) ∧
        isAllBlank indent = true ∧ IsGap gap ∧ IsGap space ∧ IsWord name ∧
          isAllBlank margin = true := by
  obtain ⟨indent, text, rfl, hindent, -, htext, h⟩ := exists_of_words_eq_cons h
  obtain ⟨gap, text, rfl, hgap, -, htext, h⟩ := exists_gap_of_words_eq_cons htext h
  obtain ⟨space, margin, rfl, hspace, hname, -, h⟩ := exists_gap_of_words_eq_cons htext h
  exact ⟨indent, gap, space, margin, rfl, hindent, hgap, hspace, hname,
    words_eq_nil_iff.mp h⟩

theorem words_fields {x gap y space name margin : List Char} (hx : IsWord x)
    (hgap : IsGap gap) (hy : IsWord y) (hspace : IsGap space) (hname : IsWord name)
    (hmargin : isAllBlank margin = true) :
    Text.words (x ++ (gap ++ (y ++ (space ++ (name ++ margin))))) = [x, y, name] := by
  rw [hgap.words_append hx, hspace.words_append hy,
    words_append hname (head?_map_isBlank_ne hmargin), words_eq_nil_iff.mpr hmargin]

theorem shows_of_ofLine?_trim (h : ofLine? (trim line) = some entry) : entry.Shows line := by
  rw [ofLine?] at h
  split at h
  · rename_i hlast
    split at h
    · rename_i x y name hwords
      obtain ⟨xValue, hx, h⟩ := Option.bind_eq_some_iff.mp h
      obtain ⟨yValue, hy, h⟩ := Option.bind_eq_some_iff.mp h
      cases h
      obtain ⟨front, rest, hfront, hrest, hline⟩ := exists_eq_append_trim line
      obtain ⟨indent, gap, space, margin, hfields, hindent, hgap, hspace, hname, hmargin⟩ :=
        exists_fields_of_words_eq hwords
      have htrim : trim line = (trim line).dropLast ++ [';'] :=
        (List.dropLast_append_getLast? _ hlast).symm
      rw [htrim, hfields] at hline
      have hblank : isAllBlank (front ++ indent) = true := by
        rw [isAllBlank, List.all_append, Bool.and_eq_true]
        exact ⟨hfront, hindent⟩
      have hshows : Shows ⟨xValue, yValue, String.ofList name⟩ _ :=
        Shows.intro hblank (signed?_eq_some_iff.mp hx) hgap (signed?_eq_some_iff.mp hy) hspace
          (by rwa [String.toList_ofList]) hmargin hrest
      rw [hline]
      simpa only [String.toList_ofList, List.append_assoc] using hshows
    · cases h
  · cases h

theorem Shows.ofLine?_trim (h : entry.Shows line) : ofLine? (trim line) = some entry := by
  obtain @⟨indent, x, gap, y, space, margin, rest, _, hindent, hx, hgap, hy, hspace, hname,
    hmargin, hrest⟩ := h
  have hwords := words_fields hx.isWord hgap hy.isWord hspace hname hmargin
  have htrim : trim (indent ++ x ++ gap ++ y ++ space ++ entry.name.toList ++ margin ++ [';'] ++
      rest) = x ++ (gap ++ (y ++ (space ++ (entry.name.toList ++ margin)))) ++ [';'] := by
    obtain ⟨c, letters, rfl, hc⟩ := hx.isWord.head
    rw [trim_append hrest]
    simp only [List.append_assoc]
    rw [trim_append_left hindent]
    simp only [← List.append_assoc]
    exact trim_eq_self (by rintro _ ⟨⟩; exact hc) (by decide)
  rw [htrim, ofLine?, List.getLast?_concat, if_pos rfl, List.dropLast_concat, hwords]
  simp only [signed?_eq_some_iff.mpr hx, signed?_eq_some_iff.mpr hy, String.ofList_toList]
  rfl

/-- An entry is read off a trimmed line just if the line shows it. -/
theorem ofLine?_trim_eq_some_iff : ofLine? (trim line) = some entry ↔ entry.Shows line :=
  ⟨shows_of_ofLine?_trim, Shows.ofLine?_trim⟩

theorem Shows.isAllBlank_eq_false (h : entry.Shows line) : isAllBlank line = false := by
  obtain ⟨hindent, hx⟩ := h
  obtain ⟨c, letters, rfl, hc⟩ := hx.isWord.head
  simp [isAllBlank, hc]

theorem Shows.x_bounds (h : entry.Shows line) :
    -Word.signedBound ≤ entry.x ∧ entry.x < Word.signedBound := by
  obtain ⟨-, hx⟩ := h
  have hbounds := hx.bounds
  unfold Word.signedBound at *
  omega

theorem Shows.y_bounds (h : entry.Shows line) :
    -Word.signedBound ≤ entry.y ∧ entry.y < Word.signedBound := by
  obtain ⟨-, -, -, hy⟩ := h
  have hbounds := hy.bounds
  unfold Word.signedBound at *
  omega

end Pattern.CellEntry

/-- A sum with half an extent is inside the extent just if it is in exact arithmetic: one
that leaves the range of words comes back below zero. -/
theorem Word.signed_add_half_iff {distance : Int} {extent : Nat}
    (hdistance : -signedBound ≤ distance ∧ distance < signedBound)
    (hextent : extent < signedBound) :
    0 ≤ signed (distance + (extent / 2 : Nat)) ∧
        signed (distance + (extent / 2 : Nat)) < extent ↔
      0 ≤ distance + (extent / 2 : Nat) ∧ distance + (extent / 2 : Nat) < extent := by
  simp only [signed_eq_bmod, Int.bmod_def, modulus, signedBound] at *
  split <;> omega

theorem Word.signed_add_half {distance : Int} {extent : Nat} (hextent : extent < signedBound)
    (h : 0 ≤ distance + (extent / 2 : Nat) ∧ distance + (extent / 2 : Nat) < extent) :
    signed (distance + (extent / 2 : Nat)) = distance + (extent / 2 : Nat) := by
  refine signed_eq_self ?_ ?_
  all_goals
    unfold signedBound at *
    omega

namespace Pattern

/-! ## One line -/

/-- What cells are read against: states and extents, which are signed words. -/
structure Frame where
  states : StateUniverse
  columns : Nat
  rows : Nat
  columns_lt : columns < Word.signedBound
  rows_lt : rows < Word.signedBound

namespace Frame

variable {frame : Frame} {grid after : Grid} {entry : CellEntry} {position : Position}
  {state : StateId} {word : String} {number : Nat} {line : List Char} {error : PatternError}
  {cells : List (List Char)}

def Names (frame : Frame) (word : String) (state : StateId) : Prop :=
  state ≠ .free ∧ frame.states.name? state = some (upperCase word)

def place (frame : Frame) (entry : CellEntry) : Position :=
  ⟨entry.x + (frame.columns / 2 : Nat), entry.y + (frame.rows / 2 : Nat)⟩

def Contains (frame : Frame) (position : Position) : Prop :=
  (0 ≤ position.x ∧ position.x < frame.columns) ∧ 0 ≤ position.y ∧ position.y < frame.rows

def Places (frame : Frame) (line : List Char) (position : Position) (state : StateId) : Prop :=
  ∃ entry : CellEntry, entry.Shows line ∧ frame.Names entry.name state ∧
    frame.place entry = position ∧ frame.Contains position

def Accepts (frame : Frame) (line : List Char) : Prop :=
  isAllBlank line = false → ∃ position state, frame.Places line position state

/-- Why a line is refused: its shape is looked at first, then its state, then its
position. -/
inductive Offends (frame : Frame) (number : Nat) (line : List Char) : PatternError → Prop
  | shape (hsome : isAllBlank line = false) (hshape : ∀ entry : CellEntry, ¬entry.Shows line) :
      Offends frame number line (.malformed number (.cell (String.ofList (trim line))))
  | state {entry : CellEntry} (hshows : entry.Shows line)
      (hstate : ∀ state, ¬frame.Names entry.name state) :
      Offends frame number line (.unknownState number entry.name)
  | bounds {entry : CellEntry} {state : StateId} (hshows : entry.Shows line)
      (hstate : frame.Names entry.name state) (houtside : ¬frame.Contains (frame.place entry)) :
      Offends frame number line (.outOfBounds number entry.x entry.y frame.columns frame.rows)

structure Fits (frame : Frame) (grid : Grid) : Prop where
  width : grid.width = frame.columns
  height : grid.height = frame.rows

theorem Fits.put (h : frame.Fits grid) (position : Position) (state : StateId) :
    frame.Fits (grid.put position state) :=
  ⟨Grid.width_put.trans h.width, Grid.height_put.trans h.height⟩

theorem names_iff : frame.Names word state ↔
    (frame.states.id? word).filter (fun state => !state.isFree) = some state := by
  rw [Names, Option.filter_eq_some_iff, StateUniverse.id?_eq_some_iff, and_comm,
    Bool.not_eq_true', StateId.isFree_eq_false_iff]

theorem filter_eq_none_iff : (∀ state, ¬frame.Names word state) ↔
    (frame.states.id? word).filter (fun state => !state.isFree) = none := by
  rw [Option.eq_none_iff_forall_ne_some]
  exact forall_congr' fun state => not_congr names_iff

theorem Fits.inBounds_position_iff (hgrid : frame.Fits grid) (hshows : entry.Shows line) :
    grid.inBounds (entry.position grid) = true ↔ frame.Contains (frame.place entry) := by
  rw [Grid.inBounds_iff, CellEntry.position, hgrid.width, hgrid.height]
  exact and_congr (Word.signed_add_half_iff hshows.x_bounds frame.columns_lt)
    (Word.signed_add_half_iff hshows.y_bounds frame.rows_lt)

theorem Fits.position_eq (hgrid : frame.Fits grid) (h : frame.Contains (frame.place entry)) :
    entry.position grid = frame.place entry := by
  rw [CellEntry.position, hgrid.width, hgrid.height, Word.signed_add_half frame.columns_lt h.1,
    Word.signed_add_half frame.rows_lt h.2]
  rfl

theorem readCell_blank (h : isAllBlank line = true) :
    readCell frame.states grid ⟨number, line⟩ = .ok grid := by
  rw [readCell]
  exact if_pos h

theorem Places.readCell (h : frame.Places line position state) (hgrid : frame.Fits grid) :
    readCell frame.states grid ⟨number, line⟩ = .ok (grid.put position state) := by
  obtain ⟨entry, hshows, hstate, rfl, hinside⟩ := h
  have hbounds := (hgrid.inBounds_position_iff hshows).mpr hinside
  rw [hgrid.position_eq hinside] at hbounds
  simp only [Pattern.readCell, NumberedLine.isBlank, hshows.isAllBlank_eq_false,
    CellEntry.ofLine?_trim_eq_some_iff.mpr hshows, names_iff.mp hstate,
    hgrid.position_eq hinside, Grid.set_eq_ok hbounds]
  rfl

theorem Offends.readCell (h : frame.Offends number line error) (hgrid : frame.Fits grid) :
    readCell frame.states grid ⟨number, line⟩ = .error error := by
  cases h with
  | shape hsome hshape =>
      have hentry : CellEntry.ofLine? (trim line) = none := by
        rw [Option.eq_none_iff_forall_ne_some]
        exact fun entry hentry => hshape entry (CellEntry.ofLine?_trim_eq_some_iff.mp hentry)
      simp only [Pattern.readCell, NumberedLine.isBlank, hsome, hentry]
      rfl
  | state hshows hstate =>
      simp only [Pattern.readCell, NumberedLine.isBlank, hshows.isAllBlank_eq_false,
        CellEntry.ofLine?_trim_eq_some_iff.mpr hshows, filter_eq_none_iff.mp hstate]
      rfl
  | bounds hshows hstate houtside =>
      have hset := mt (hgrid.inBounds_position_iff hshows).mp houtside
      simp only [Pattern.readCell, NumberedLine.isBlank, hshows.isAllBlank_eq_false,
        CellEntry.ofLine?_trim_eq_some_iff.mpr hshows, names_iff.mp hstate, Grid.set,
        hset, hgrid.width, hgrid.height]
      rfl

/-- A line is blank, places a cell, or offends. -/
theorem line_cases (frame : Frame) (number : Nat) (line : List Char) :
    isAllBlank line = true ∨ (∃ position state, frame.Places line position state) ∨
      ∃ error, frame.Offends number line error := by
  by_cases hblank : isAllBlank line = true
  · exact .inl hblank
  · right
    by_cases hshape : ∃ entry : CellEntry, entry.Shows line
    · obtain ⟨entry, hshows⟩ := hshape
      by_cases hname : ∃ state, frame.Names entry.name state
      · obtain ⟨state, hstate⟩ := hname
        by_cases hinside : frame.Contains (frame.place entry)
        · exact .inl ⟨_, state, entry, hshows, hstate, rfl, hinside⟩
        · exact .inr ⟨_, .bounds hshows hstate hinside⟩
      · exact .inr ⟨_, .state hshows (not_exists.mp hname)⟩
    · exact .inr ⟨_, .shape (by simpa using hblank) (not_exists.mp hshape)⟩

theorem readCell_eq_ok_iff (hgrid : frame.Fits grid) :
    readCell frame.states grid ⟨number, line⟩ = .ok after ↔
      isAllBlank line = true ∧ after = grid ∨
        ∃ position state, frame.Places line position state ∧ after = grid.put position state := by
  constructor
  · intro h
    rcases frame.line_cases number line with hblank | ⟨position, state, hplaces⟩ | ⟨error, herror⟩
    · rw [readCell_blank hblank] at h
      exact .inl ⟨hblank, (Except.ok.inj h).symm⟩
    · rw [hplaces.readCell hgrid] at h
      exact .inr ⟨position, state, hplaces, (Except.ok.inj h).symm⟩
    · rw [herror.readCell hgrid] at h
      cases h
  · rintro (⟨hblank, rfl⟩ | ⟨position, state, hplaces, rfl⟩)
    · exact readCell_blank hblank
    · exact hplaces.readCell hgrid

theorem readCell_eq_error_iff (hgrid : frame.Fits grid) :
    readCell frame.states grid ⟨number, line⟩ = .error error ↔
      frame.Offends number line error := by
  refine ⟨fun h => ?_, fun h => h.readCell hgrid⟩
  rcases frame.line_cases number line with hblank | ⟨position, state, hplaces⟩ | ⟨other, hother⟩
  · rw [readCell_blank hblank] at h
    cases h
  · rw [hplaces.readCell hgrid] at h
    cases h
  · rw [hother.readCell hgrid] at h
    cases h
    exact hother

/-! ## All lines -/

theorem Places.isAllBlank_eq_false (h : frame.Places line position state) :
    isAllBlank line = false := by
  obtain ⟨entry, hshows, -⟩ := h
  exact hshows.isAllBlank_eq_false

theorem Places.unique {place : Position} {other : StateId}
    (h : frame.Places line position state) (hother : frame.Places line place other) :
    position = place ∧ state = other := by
  obtain ⟨entry, hshows, hstate, rfl, -⟩ := h
  obtain ⟨second, hshows', hstate', rfl, -⟩ := hother
  rw [← CellEntry.ofLine?_trim_eq_some_iff] at hshows hshows'
  obtain rfl := Option.some.inj (hshows.symm.trans hshows')
  exact ⟨rfl, Option.some.inj ((names_iff.mp hstate).symm.trans (names_iff.mp hstate'))⟩

theorem accepts_of_readCell (hgrid : frame.Fits grid)
    (h : readCell frame.states grid ⟨number, line⟩ = .ok after) :
    frame.Accepts line ∧ frame.Fits after := by
  rcases (readCell_eq_ok_iff hgrid).mp h with ⟨hblank, rfl⟩ | ⟨position, state, hplaces, rfl⟩
  · exact ⟨fun hsome => absurd hblank (by simp [hsome]), hgrid⟩
  · exact ⟨fun _ => ⟨position, state, hplaces⟩, hgrid.put position state⟩

theorem Accepts.exists_readCell (h : frame.Accepts line) (hgrid : frame.Fits grid) :
    ∃ after, readCell frame.states grid ⟨number, line⟩ = .ok after := by
  by_cases hblank : isAllBlank line = true
  · exact ⟨grid, readCell_blank hblank⟩
  · obtain ⟨position, state, hplaces⟩ := h (by simpa using hblank)
    exact ⟨_, hplaces.readCell hgrid⟩

theorem getElem?_cells_of_readCell (hgrid : frame.Fits grid)
    (h : readCell frame.states grid ⟨number, line⟩ = .ok after) :
    after.cells[position]? = some state ↔
      frame.Places line position state ∨
        grid.cells[position]? = some state ∧ ∀ other, ¬frame.Places line position other := by
  rcases (readCell_eq_ok_iff hgrid).mp h with ⟨hblank, rfl⟩ | ⟨place, stored, hplaces, rfl⟩
  · have hnone : ∀ other, ¬frame.Places line position other := by
      intro other hplaces
      rw [hplaces.isAllBlank_eq_false] at hblank
      cases hblank
    simp [hnone]
  · obtain ⟨entry, -, ⟨hlive, -⟩, -⟩ := id hplaces
    rw [Grid.getElem?_cells_put, if_neg hlive]
    split
    · rename_i hplace
      subst hplace
      constructor
      · rintro ⟨⟩
        exact .inl hplaces
      · rintro (hstored | ⟨-, hnone⟩)
        · rw [(hplaces.unique hstored).2]
        · exact absurd hplaces (hnone stored)
    · rename_i hplace
      have hnone : ∀ other, ¬frame.Places line position other :=
        fun other hother => hplace (hplaces.unique hother).1
      simp [hnone]

/-- The last line that places a cell at the position puts the state there. -/
def PlacesLast (frame : Frame) (lines : List (List Char)) (position : Position)
    (state : StateId) : Prop :=
  ∃ before line after, lines = before ++ line :: after ∧ frame.Places line position state ∧
    ∀ later ∈ after, ∀ other, ¬frame.Places later position other

theorem placesLast_cons_iff : frame.PlacesLast (line :: cells) position state ↔
    frame.PlacesLast cells position state ∨
      frame.Places line position state ∧
        ∀ later ∈ cells, ∀ other, ¬frame.Places later position other := by
  constructor
  · rintro ⟨before, last, after, hlines, hplaces, hlater⟩
    cases before with
    | nil =>
        cases hlines
        exact .inr ⟨hplaces, hlater⟩
    | cons first before =>
        cases hlines
        exact .inl ⟨before, last, after, rfl, hplaces, hlater⟩
  · rintro (⟨before, last, after, rfl, hplaces, hlater⟩ | ⟨hplaces, hlater⟩)
    · exact ⟨line :: before, last, after, rfl, hplaces, hlater⟩
    · exact ⟨[], line, cells, rfl, hplaces, hlater⟩

end Frame

def numberFrom (start : Nat) (lines : List (List Char)) : List NumberedLine :=
  (lines.zipIdx start).map fun (line, index) => ⟨index + 1, line⟩

theorem numberFrom_cons (start : Nat) (line : List Char) (lines : List (List Char)) :
    numberFrom start (line :: lines) = ⟨start + 1, line⟩ :: numberFrom (start + 1) lines := rfl

theorem numberFrom_append (start : Nat) (first second : List (List Char)) :
    numberFrom start (first ++ second) =
      numberFrom start first ++ numberFrom (start + first.length) second := by
  simp [numberFrom, List.zipIdx_append]

theorem mem_of_mem_numberFrom {start : Nat} {lines : List (List Char)} {line : NumberedLine}
    (h : line ∈ numberFrom start lines) : line.text ∈ lines := by
  obtain ⟨⟨text, index⟩, hmem, rfl⟩ := List.mem_map.mp h
  exact List.fst_mem_of_mem_zipIdx hmem

namespace Frame

variable {frame : Frame} {grid after : Grid} {position : Position} {state : StateId}
  {start : Nat} {cells : List (List Char)} {error : PatternError}

theorem exists_readCells_iff (hgrid : frame.Fits grid) :
    (∃ after, readCells frame.states grid (numberFrom start cells) = .ok after) ↔
      ∀ line ∈ cells, frame.Accepts line := by
  induction cells generalizing start grid with
  | nil => exact ⟨fun _ => nofun, fun _ => ⟨grid, rfl⟩⟩
  | cons line cells ih =>
      rw [numberFrom_cons, readCells, List.foldlM_cons, List.forall_mem_cons]
      constructor
      · rintro ⟨after, h⟩
        obtain ⟨next, hline, hrest⟩ := bind_eq_ok_iff.mp h
        obtain ⟨haccepts, hnext⟩ := accepts_of_readCell hgrid hline
        exact ⟨haccepts, (ih hnext).mp ⟨after, hrest⟩⟩
      · rintro ⟨haccepts, hcells⟩
        obtain ⟨next, hline⟩ := haccepts.exists_readCell hgrid
        obtain ⟨after, hrest⟩ := (ih (accepts_of_readCell hgrid hline).2).mpr hcells
        exact ⟨after, bind_eq_ok_iff.mpr ⟨next, hline, hrest⟩⟩

/-- The lines keep the extents, and a cell is live in the end if a line places it or it was
live before and no line does. -/
theorem getElem?_cells_of_readCells (hgrid : frame.Fits grid)
    (h : readCells frame.states grid (numberFrom start cells) = .ok after) :
    frame.Fits after ∧ ∀ position state,
      after.cells[position]? = some state ↔
        frame.PlacesLast cells position state ∨
          grid.cells[position]? = some state ∧
            ∀ line ∈ cells, ∀ other, ¬frame.Places line position other := by
  induction cells generalizing start grid with
  | nil =>
      cases h
      exact ⟨hgrid, fun position state => by simp [PlacesLast]⟩
  | cons line cells ih =>
      rw [numberFrom_cons, readCells, List.foldlM_cons] at h
      obtain ⟨next, hline, hrest⟩ := bind_eq_ok_iff.mp h
      obtain ⟨hafter, hcells⟩ := ih (accepts_of_readCell hgrid hline).2 hrest
      refine ⟨hafter, fun position state => ?_⟩
      rw [hcells, placesLast_cons_iff, getElem?_cells_of_readCell hgrid hline,
        List.forall_mem_cons]
      tauto

/-- The first line that offends is reported with its number. -/
theorem readCells_eq_error_iff (hgrid : frame.Fits grid) :
    readCells frame.states grid (numberFrom start cells) = .error error ↔
      ∃ before line after, cells = before ++ line :: after ∧
        (∀ other ∈ before, frame.Accepts other) ∧
          frame.Offends (start + before.length + 1) line error := by
  induction cells generalizing start grid with
  | nil =>
      constructor
      · intro h
        cases h
      · rintro ⟨before, line, after, hcells, -⟩
        simp at hcells
  | cons line cells ih =>
      rw [numberFrom_cons, readCells, List.foldlM_cons, bind_eq_error_iff]
      constructor
      · rintro (hline | ⟨next, hline, hrest⟩)
        · exact ⟨[], line, cells, rfl, List.forall_mem_nil _,
            (readCell_eq_error_iff hgrid).mp hline⟩
        · obtain ⟨haccepts, hnext⟩ := accepts_of_readCell hgrid hline
          obtain ⟨before, other, after, rfl, hbefore, hother⟩ := (ih hnext).mp hrest
          refine ⟨line :: before, other, after, rfl,
            List.forall_mem_cons.mpr ⟨haccepts, hbefore⟩, ?_⟩
          rwa [List.length_cons, ← Nat.add_assoc, Nat.add_right_comm start]
      · rintro ⟨before, other, after, hcells, hbefore, hother⟩
        cases before with
        | nil =>
            cases hcells
            exact .inl ((readCell_eq_error_iff hgrid).mpr hother)
        | cons first before =>
            cases hcells
            rw [List.forall_mem_cons] at hbefore
            obtain ⟨next, hline⟩ := hbefore.1.exists_readCell hgrid
            have hnext := (accepts_of_readCell hgrid hline).2
            rw [List.length_cons, ← Nat.add_assoc, Nat.add_right_comm start] at hother
            exact .inr ⟨next, hline,
              (ih hnext).mpr ⟨before, other, after, rfl, hbefore.2, hother⟩⟩

end Frame

end Pattern

/-! ## The section -/

/-- The lines of a section, with the lines in front of its first marker: they go on to the
next marker or to the end of the text. -/
structure Section.IsBody (part : Section) (text front body : List (List Char)) : Prop where
  layout : ∃ marker back, text = front ++ marker :: (body ++ back) ∧
    ofLine? marker = some part ∧ ∀ line ∈ back.head?, isMarker line = true
  first : ∀ line ∈ front, ofLine? line ≠ some part
  plain : ∀ line ∈ body, isMarker line = false

theorem Section.exists_isBody {part : Section} {text : List (List Char)}
    (h : ∃ line ∈ text, ofLine? line = some part) :
    ∃ front body, part.IsBody text front body := by
  obtain ⟨front, rest, htext, hfront, hrest⟩ :
      ∃ front rest, text = front ++ rest ∧ (∀ line ∈ front, ofLine? line ≠ some part) ∧
        ∀ marker ∈ rest.head?, ofLine? marker = some part := by
    refine ⟨text.takeWhile fun line => ofLine? line ≠ some part,
      text.dropWhile fun line => ofLine? line ≠ some part,
      List.takeWhile_append_dropWhile.symm, fun line hline => ?_, fun marker hmarker => ?_⟩
    · simpa using List.mem_takeWhile_imp hline
    · have hstop := List.head?_dropWhile_not (fun line => decide (ofLine? line ≠ some part)) text
      rw [Option.mem_def.mp hmarker] at hstop
      exact not_not.mp (of_decide_eq_false hstop)
  cases rest with
  | nil =>
      obtain ⟨line, hline, hpart⟩ := h
      rw [htext, List.append_nil] at hline
      exact absurd hpart (hfront line hline)
  | cons marker rest =>
      refine ⟨front, rest.takeWhile fun line => !isMarker line, ⟨marker,
        rest.dropWhile fun line => !isMarker line, ?_, hrest marker rfl, fun line hline => ?_⟩,
        hfront, fun line hline => ?_⟩
      · rw [List.takeWhile_append_dropWhile, htext]
      · have hstop := List.head?_dropWhile_not (fun line => !isMarker line) rest
        rw [Option.mem_def.mp hline] at hstop
        simpa using hstop
      · simpa using List.mem_takeWhile_imp hline

theorem Section.IsBody.body?_eq {part : Section} {text : List Char}
    {front body : List (List Char)} (h : part.IsBody (lines text) front body) :
    part.body? (numberedLines text) = some (Pattern.numberFrom (front.length + 1) body) := by
  obtain ⟨⟨marker, back, hlines, hmarker, hback⟩, hfront, hbody⟩ := h
  have hnumbered : numberedLines text = Pattern.numberFrom 0 front ++
      ⟨front.length + 1, marker⟩ :: (Pattern.numberFrom (front.length + 1) body ++
        Pattern.numberFrom (front.length + 1 + body.length) back) := by
    rw [← Pattern.numberFrom_append, ← Nat.zero_add front.length, ← Pattern.numberFrom_cons,
      ← Pattern.numberFrom_append, ← hlines]
    rfl
  rw [hnumbered,
    body?_append_of_ne fun line hline => hfront _ (Pattern.mem_of_mem_numberFrom hline)]
  refine body?_cons_append hmarker
    (fun line hline => hbody _ (Pattern.mem_of_mem_numberFrom hline)) fun line hline => ?_
  cases back with
  | nil => cases hline
  | cons next back =>
      cases hline
      exact hback next rfl

namespace Pattern

/-- Everything in the text is in order but for its cells. -/
structure Frame.IsReady (frame : Frame) (text : String) : Prop where
  states : ∃ body, Section.states.body? (numberedLines text.toList) = some body ∧
    readStates body = .ok frame.states
  rules : ∃ body, Section.rules.body? (numberedLines text.toList) = some body
  neighborhood : ∃ body neighborhood,
    Section.neighbors.body? (numberedLines text.toList) = some body ∧
      readNeighborhood body = .ok neighborhood
  size : ∃ body, Section.size.body? (numberedLines text.toList) = some body ∧
    readSize body = .ok (frame.rows, frame.columns)
  cells : ∃ line ∈ lines text.toList, Section.ofLine? line = some .cells

theorem Frame.IsReady.parse_eq {frame : Frame} {text : String} {front cells : List (List Char)}
    (h : frame.IsReady text) (hcells : Section.cells.IsBody (lines text.toList) front cells) :
    ∃ rules neighborhood, parse text =
      (readCells frame.states (.empty frame.columns frame.rows)
        (numberFrom (front.length + 1) cells)).map fun grid =>
          ⟨readSettings (numberedLines text.toList), frame.states, rules, neighborhood,
            grid⟩ := by
  obtain ⟨⟨states, hstates, hread⟩, ⟨rules, hrules⟩, ⟨neighbors, neighborhood, hneighbors,
    hneighborhood⟩, ⟨size, hsize, hextents⟩, -⟩ := h
  refine ⟨readRules rules, neighborhood, ?_⟩
  simp only [parse, parseLines, requireSection, hstates, hread, hrules, hneighbors,
    hneighborhood, hsize, hextents, hcells.body?_eq, bind, Except.bind]
  cases readCells frame.states (.empty frame.columns frame.rows)
    (numberFrom (front.length + 1) cells) <;> rfl

/-- A text that is ready is read if each of its lines of cells is blank or places a cell,
and otherwise fails at the first line that does not, which is reported with its number in
the whole text.  The live cells are the ones that were placed last. -/
theorem parse_cells {frame : Frame} {text : String} (h : frame.IsReady text) :
    ∃ front cells, Section.cells.IsBody (lines text.toList) front cells ∧
      ((∃ pattern, parse text = .ok pattern) ↔ ∀ line ∈ cells, frame.Accepts line) ∧
      (∀ error, parse text = .error error ↔
        ∃ before line after, cells = before ++ line :: after ∧
          (∀ other ∈ before, frame.Accepts other) ∧
            frame.Offends (front.length + 1 + before.length + 1) line error) ∧
      ∀ pattern, parse text = .ok pattern →
        pattern.states = frame.states ∧ frame.Fits pattern.grid ∧
          ∀ position state, (position, state) ∈ pattern.grid.liveCells ↔
            frame.PlacesLast cells position state := by
  obtain ⟨front, cells, hcells⟩ := Section.exists_isBody h.cells
  obtain ⟨rules, neighborhood, hparse⟩ := h.parse_eq hcells
  have hempty : frame.Fits (.empty frame.columns frame.rows) := ⟨rfl, rfl⟩
  refine ⟨front, cells, hcells, ?_, fun error => ?_, fun pattern hpattern => ?_⟩
  · rw [← Frame.exists_readCells_iff hempty, hparse]
    constructor
    · rintro ⟨pattern, hpattern⟩
      obtain ⟨grid, hgrid, -⟩ := exists_ok_of_map_eq_ok hpattern
      exact ⟨grid, hgrid⟩
    · rintro ⟨grid, hgrid⟩
      exact ⟨_, by rw [hgrid]; rfl⟩
  · rw [← Frame.readCells_eq_error_iff hempty, hparse]
    exact map_eq_error_iff
  · rw [hparse] at hpattern
    obtain ⟨grid, hgrid, rfl⟩ := exists_ok_of_map_eq_ok hpattern
    obtain ⟨hfits, hlive⟩ := Frame.getElem?_cells_of_readCells hempty hgrid
    refine ⟨rfl, hfits, fun position state => ?_⟩
    rw [Grid.mem_liveCells, hlive]
    simp [Grid.empty]

/-- A text with a cell inside, and one whose distance is so large that its sum with half an
extent is no word. -/
def distantText : String :=
  "[STATES]\nAlive;\n[RULES]\n[NEIGHBORS]\nN\n[SIZE]\n3 4\n[CELLS]\n-1 0 alive;\n\n" ++
    "9223372036854775807 0 ALIVE ;\n[Rules]\n"

def distantFrame : Frame := ⟨AutomatonConfig.lifeStates, 4, 3, by decide, by decide⟩

theorem parse_cells_distant :
    distantFrame.IsReady distantText ∧ ∃ front before line after,
      Section.cells.IsBody (lines distantText.toList) front (before ++ line :: after) ∧
        (∀ other ∈ before, distantFrame.Accepts other) ∧
          distantFrame.Offends (front.length + 1 + before.length + 1) line
            (.outOfBounds 11 9223372036854775807 0 4 3) := by
  have hready : distantFrame.IsReady distantText := by
    refine ⟨⟨[⟨2, "Alive;".toList⟩], ?_, ?_⟩, ⟨[], ?_⟩, ⟨[⟨5, ['N']⟩], .ofList [.north], ?_, ?_⟩,
      ⟨[⟨7, "3 4".toList⟩], ?_, ?_⟩, ⟨"[CELLS]".toList, ?_⟩⟩
    all_goals decide +kernel
  have hparse : parse distantText = .error (.outOfBounds 11 9223372036854775807 0 4 3) := by
    decide +kernel
  obtain ⟨front, cells, hcells, -, herror, -⟩ := parse_cells hready
  obtain ⟨before, line, after, rfl, hbefore, hline⟩ := (herror _).mp hparse
  exact ⟨hready, front, before, line, after, hcells, hbefore, hline⟩

end Pattern

end Cellular
