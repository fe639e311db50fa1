import Cellular.Proofs.Pattern.RoundTrip

/-!
# What is read from a file

Whatever a file looks like, the pattern that is read from it can be stored: its rules
are lines that are neither blank nor markers, its extents are words, and its cells are
declared live states inside the grid (`isStorable_of_parse`).
-/

namespace Cellular

open Text

/-! ## Lines of the text -/

theorem Section.mem_of_mem_body? {part : Section} {text body : List NumberedLine}
    (h : part.body? text = some body) {line : NumberedLine} (hmem : line ∈ body) :
    line ∈ text := by
  simp only [body?] at h
  split at h
  · cases h
  · rename_i marker rest hrest
    cases h
    have hline : line ∈ marker :: rest :=
      List.mem_cons_of_mem _ ((List.takeWhile_prefix _).subset hmem)
    exact (List.dropWhile_suffix _).subset (hrest ▸ hline)

theorem mem_lines_of_mem_numberedLines {text : List Char} {line : NumberedLine}
    (h : line ∈ numberedLines text) : line.text ∈ lines text :=
  map_text_numberedLines text ▸ List.mem_map_of_mem h

theorem Section.isPlain_of_mem_body? {part : Section} {text : List Char}
    {body : List NumberedLine} (h : part.body? (numberedLines text) = some body)
    (hreturn : '\r' ∉ text) {line : NumberedLine} (hmem : line ∈ body) :
    IsPlain line.text :=
  ⟨unbroken_of_mem_lines hreturn (mem_lines_of_mem_numberedLines (mem_of_mem_body? h hmem)),
    isMarker_of_mem_body? h hmem⟩

namespace Pattern

variable {text : List NumberedLine} {body : List NumberedLine} {pattern : Pattern}

/-! ## Sections -/

theorem requireSection_eq_ok_iff {part : Section} :
    requireSection text part = .ok body ↔ part.body? text = some body := by
  rw [requireSection]
  split
  · rename_i found hfound
    rw [hfound, Except.ok.injEq, Option.some.injEq]
  · rename_i hnone
    simp [hnone]

/-! ## Size -/

theorem le_of_unsigned?_eq_some {limit n : Nat} {word : List Char}
    (h : unsigned? limit word = some n) : n ≤ limit :=
  of_decide_eq_true (Option.filter_eq_some_iff.mp h).2

theorem sizeOfLine?_bounds {line : List Char} {rows columns : Nat}
    (h : sizeOfLine? line = some (rows, columns)) :
    (0 < rows ∧ rows < Word.modulus) ∧ 0 < columns ∧ columns < Word.modulus := by
  obtain ⟨numbers, hnumbers, hsize⟩ := Option.bind_eq_some_iff.mp h
  have hlimit : ∀ n ∈ numbers, n < Word.modulus := by
    intro n hmem
    obtain ⟨word, -, hword⟩ := exists_of_mem_of_mapM_eq_some hnumbers hmem
    exact Nat.lt_of_le_pred (by decide) (le_of_unsigned?_eq_some hword)
  split at hsize
  · rename_i first second
    split at hsize
    · rename_i hpos
      cases hsize
      simp only [List.forall_mem_cons] at hlimit
      exact ⟨⟨hpos.1, hlimit.1⟩, hpos.2, hlimit.2.1⟩
    · cases hsize
  · cases hsize

theorem readSize_bounds {rows columns : Nat}
    (h : readSize body = .ok (rows, columns)) :
    (0 < rows ∧ rows < Word.modulus) ∧ 0 < columns ∧ columns < Word.modulus := by
  rw [readSize] at h
  split at h
  · cases h
  · split at h
    · rename_i size hsize
      cases h
      exact sizeOfLine?_bounds hsize
    · cases h

/-! ## Cells -/

structure IsDrawn (states : StateUniverse) (grid : Grid) : Prop where
  consistent : grid.Consistent
  x : ∀ cell ∈ grid.liveCells, cell.1.x < Word.signedBound
  y : ∀ cell ∈ grid.liveCells, cell.1.y < Word.signedBound
  names : ∀ cell ∈ grid.liveCells, ∃ name, states.name? cell.2 = some name

variable {states : StateUniverse} {grid after : Grid}

theorem isDrawn_empty (width height : Nat) : IsDrawn states (.empty width height) where
  consistent := Grid.consistent_empty width height
  x := by simp [Grid.empty, Grid.liveCells]
  y := by simp [Grid.empty, Grid.liveCells]
  names := by simp [Grid.empty, Grid.liveCells]

theorem eq_or_put_of_readCell {line : NumberedLine}
    (h : readCell states grid line = .ok after) :
    after = grid ∨ ∃ (position : Position) (state : StateId),
      after = grid.put position state ∧ grid.inBounds position = true ∧
        position.x < Word.signedBound ∧ position.y < Word.signedBound ∧
        ∃ name, states.name? state = some name := by
  rw [readCell] at h
  split at h
  · exact .inl (Except.ok.inj h).symm
  · split at h
    · cases h
    · rename_i entry _
      split at h
      · cases h
      · rename_i state hstate
        have hnamed := StateUniverse.exists_name?_of_id?
          (Option.filter_eq_some_iff.mp hstate).1
        by_cases hinside : grid.inBounds (entry.position grid) = true
        · rw [Grid.set_eq_ok hinside] at h
          exact .inr ⟨_, state, (Except.ok.inj h).symm, hinside,
            (Word.signed_bounds _).2, (Word.signed_bounds _).2, hnamed⟩
        · rw [Grid.set, if_neg hinside] at h
          cases h

theorem IsDrawn.put (h : IsDrawn states grid) {position : Position} {state : StateId}
    (hinside : grid.inBounds position = true) (hx : position.x < Word.signedBound)
    (hy : position.y < Word.signedBound)
    (hnamed : ∃ name, states.name? state = some name) :
    IsDrawn states (grid.put position state) := by
  -- A cell of the new grid is the one that was put or one of the old grid.
  have hcells : ∀ cell ∈ (grid.put position state).liveCells,
      cell = (position, state) ∨ cell ∈ grid.liveCells := by
    rintro ⟨place, other⟩ hcell
    rw [Grid.mem_liveCells, Grid.getElem?_cells_put] at hcell
    split at hcell
    · rename_i hplace
      split at hcell
      · cases hcell
      · exact .inl (by rw [hplace, Option.some.inj hcell])
    · exact .inr (Grid.mem_liveCells.mpr hcell)
  refine ⟨h.consistent.put hinside, ?_, ?_, ?_⟩
  all_goals
    intro cell hcell
    rcases hcells cell hcell with rfl | hold
  · exact hx
  · exact h.x cell hold
  · exact hy
  · exact h.y cell hold
  · exact hnamed
  · exact h.names cell hold

theorem isDrawn_of_readCells (hgrid : IsDrawn states grid)
    (h : readCells states grid body = .ok after) :
    after.width = grid.width ∧ after.height = grid.height ∧ IsDrawn states after := by
  induction body generalizing grid with
  | nil =>
      cases h
      exact ⟨rfl, rfl, hgrid⟩
  | cons line body ih =>
      obtain ⟨next, hline, hrest⟩ := bind_eq_ok_iff.mp h
      rcases eq_or_put_of_readCell hline with
        rfl | ⟨position, state, rfl, hinside, hx, hy, hnamed⟩
      · exact ih hgrid hrest
      · simpa using ih (hgrid.put hinside hx hy hnamed) hrest

/-! ## The whole text -/

theorem exists_bodies_of_parseLines (h : parseLines text = .ok pattern) :
    ∃ states rules neighbors size cells, ∃ rows columns : Nat,
      (Section.states.body? text = some states ∧
        readStates states = .ok pattern.states) ∧
      (Section.rules.body? text = some rules ∧ readRules rules = pattern.rules) ∧
      (Section.neighbors.body? text = some neighbors ∧
        readNeighborhood neighbors = .ok pattern.neighborhood) ∧
      (Section.size.body? text = some size ∧ readSize size = .ok (rows, columns)) ∧
      (Section.cells.body? text = some cells ∧
        readCells pattern.states (.empty columns rows) cells = .ok pattern.grid) ∧
      readSettings text = pattern.settings := by
  simp only [parseLines, bind_eq_ok_iff, requireSection_eq_ok_iff] at h
  obtain ⟨states, hstates, names, hnames, rules, hrules, neighbors, hneighbors,
    neighborhood, hneighborhood, size, hsize, ⟨rows, columns⟩, hextents, cells, hcells,
    grid, hgrid, hpattern⟩ := h
  cases hpattern
  exact ⟨states, rules, neighbors, size, cells, rows, columns, ⟨hstates, hnames⟩,
    ⟨hrules, rfl⟩, ⟨hneighbors, hneighborhood⟩, ⟨hsize, hextents⟩, ⟨hcells, hgrid⟩, rfl⟩

/-- The extents of a grid from a file are words other than zero, and the grid can be
drawn. -/
theorem isDrawn_of_parse {text : String} (h : parse text = .ok pattern) :
    ((0 < pattern.grid.width ∧ pattern.grid.width < Word.modulus) ∧
      0 < pattern.grid.height ∧ pattern.grid.height < Word.modulus) ∧
      IsDrawn pattern.states pattern.grid := by
  obtain ⟨_, _, _, size, cells, rows, columns, -, -, -, ⟨-, hsize⟩, ⟨-, hcells⟩, -⟩ :=
    exists_bodies_of_parseLines h
  obtain ⟨hwidth, hheight, hdrawn⟩ := isDrawn_of_readCells (isDrawn_empty _ _) hcells
  obtain ⟨hrows, hcolumns⟩ := readSize_bounds hsize
  exact ⟨⟨hwidth ▸ hcolumns, hheight ▸ hrows⟩, hdrawn⟩

theorem exists_ruleLines_of_parse {text : String} (h : parse text = .ok pattern)
    (hreturn : '\r' ∉ text.toList) :
    ∃ written, pattern.rules.toList = unlines written ∧
      ∀ line ∈ written, Section.IsPlain line ∧ isAllBlank line = false := by
  obtain ⟨_, rules, _, _, _, _, _, -, ⟨hbody, hrules⟩, -⟩ := exists_bodies_of_parseLines h
  refine ⟨_, by rw [← hrules, readRules, String.toList_ofList], ?_⟩
  intro written hwritten
  obtain ⟨line, hline, rfl⟩ := List.mem_map.mp hwritten
  obtain ⟨hmem, hsome⟩ := List.mem_filter.mp hline
  exact ⟨Section.isPlain_of_mem_body? hbody hreturn hmem,
    by simpa [NumberedLine.isBlank] using hsome⟩

theorem isStorable_of_parse {text : String} (h : parse text = .ok pattern)
    (hreturn : '\r' ∉ text.toList) : pattern.IsStorable := by
  obtain ⟨⟨⟨hwidth, hwidth'⟩, hheight, hheight'⟩, hdrawn⟩ := isDrawn_of_parse h
  obtain ⟨written, hrules, hwritten⟩ := exists_ruleLines_of_parse h hreturn
  have hlines : pattern.ruleLines = written := by
    rw [ruleLines, hrules,
      lines_unlines_eq_self fun line hmem => (hwritten line hmem).1.unbroken,
      List.filter_eq_self]
    intro line hmem
    rw [(hwritten line hmem).2]
    rfl
  exact {
    rules := hlines ▸ hrules
    plain := fun line hline => (hwritten line (hlines ▸ hline)).1
    consistent := hdrawn.consistent
    fits := ⟨hwidth', hheight', hdrawn.x, hdrawn.y⟩
    width := hwidth
    height := hheight
    names := hdrawn.names }

/-! ## The summary -/

theorem isPlain_settings_of_parse {text : String} (h : parse text = .ok pattern)
    (hreturn : '\r' ∉ text.toList) :
    '\r' ∉ pattern.settings.toList ∧
      ∀ line ∈ Text.linesOf pattern.settings, Section.isMarker line.toList = false := by
  obtain ⟨_, _, _, _, _, _, _, -, -, -, -, -, hsettings⟩ := exists_bodies_of_parseLines h
  obtain ⟨written, hwritten, hplain⟩ :
      ∃ written, pattern.settings.toList = ['\n'].intercalate written ∧
        ∀ line ∈ written, Section.IsPlain line := by
    refine ⟨((Section.settings.body? (numberedLines text.toList)).getD []).map
      NumberedLine.text, ?_, ?_⟩
    · rw [← hsettings, readSettings, String.toList_intercalate, List.map_map]
      simp [Function.comp_def]
    · intro line hline
      obtain ⟨numbered, hnumbered, rfl⟩ := List.mem_map.mp hline
      cases hbody : Section.settings.body? (numberedLines text.toList) with
      | none =>
          rw [hbody] at hnumbered
          cases hnumbered
      | some body =>
          rw [hbody] at hnumbered
          exact Section.isPlain_of_mem_body? hbody hreturn hnumbered
  constructor
  · rw [hwritten]
    exact notMem_intercalate (by decide) fun line hmem => (hplain line hmem).unbroken.2
  · intro line hline
    obtain ⟨letters, hletters, rfl⟩ := List.mem_map.mp hline
    rw [hwritten] at hletters
    rw [String.toList_ofList]
    exact (hplain letters (mem_of_mem_lines_intercalate
      (fun line hmem => (hplain line hmem).unbroken) hletters)).isMarker_eq_false

end Pattern

end Cellular
