import Cellular.Proofs.Pattern.Cells

/-!
# Keeping patterns in files

A pattern that was made of compiled rules and a consistent grid is the same after
it has been written and read, whatever its summary says (`parse_render`).  Of the
summary the lines that are no markers come back.
-/

namespace Cellular

open Text

theorem map_text_numberedLines (text : List Char) :
    (numberedLines text).map NumberedLine.text = lines text := by
  rw [numberedLines, List.map_map]
  exact List.zipIdx_map_fst 0 (lines text)

namespace Pattern

/-- A pattern with a text of plain lines for its rules and a consistent grid of named
states. -/
structure IsStorable (pattern : Pattern) : Prop where
  rules : pattern.rules.toList = unlines pattern.ruleLines
  plain : ∀ line ∈ pattern.ruleLines, Section.IsPlain line
  consistent : pattern.grid.Consistent
  fits : pattern.grid.FitsWords
  width : 0 < pattern.grid.width
  height : 0 < pattern.grid.height
  names : ∀ cell ∈ pattern.grid.liveCells,
    ∃ name, pattern.states.name? cell.2 = some name

variable {pattern : Pattern}

/-! ## The lines of the file -/

theorem IsStorable.isPlain_of_mem (h : pattern.IsStorable) {part : Section}
    (hpart : part ≠ .settings) {line : List Char}
    (hline : line ∈ pattern.linesOf part) : Section.IsPlain line := by
  cases part with
  | settings => exact absurd rfl hpart
  | states => exact isPlain_stateLine hline
  | rules => exact h.plain line hline
  | neighbors => exact List.mem_singleton.mp hline ▸ isPlain_neighborhoodLine _
  | size => exact List.mem_singleton.mp hline ▸ isPlain_sizeLine pattern
  | cells =>
      obtain ⟨cell, hcell, rfl⟩ := List.mem_map.mp hline
      obtain ⟨name, hname⟩ := h.names cell hcell
      exact isPlain_cellLine hname

def readLines (pattern : Pattern) (part : Section) : List (List Char) :=
  (pattern.linesOf part).map stripReturn

theorem IsStorable.readLines_eq (h : pattern.IsStorable) {part : Section}
    (hpart : part ≠ .settings) : pattern.readLines part = pattern.linesOf part := by
  rw [readLines, List.map_congr_left fun line hline =>
    stripReturn_eq_self (h.isPlain_of_mem hpart hline).unbroken.2, List.map_id']

theorem mem_settingsLines {line : List Char} (h : line ∈ pattern.settingsLines) :
    line ∈ lines pattern.settings.toList ∧ Section.isMarker line = false := by
  simpa [settingsLines] using h

theorem IsStorable.isMarker_readLines (h : pattern.IsStorable) (part : Section) :
    ∀ line ∈ pattern.readLines part, Section.isMarker line = false := by
  intro line hline
  by_cases hpart : part = .settings
  · subst hpart
    obtain ⟨written, hwritten, rfl⟩ := List.mem_map.mp hline
    rw [Section.isMarker_stripReturn]
    exact (mem_settingsLines hwritten).2
  · rw [h.readLines_eq hpart] at hline
    exact (h.isPlain_of_mem hpart hline).isMarker_eq_false

theorem IsStorable.lines_render (h : pattern.IsStorable) :
    lines pattern.render.toList =
      Section.all.flatMap fun part =>
        part.marker.toList :: pattern.readLines part := by
  have hfeeds : ∀ line ∈ pattern.fileLines, '\n' ∉ line := by
    intro line hline hmem
    obtain ⟨part, -, hline⟩ := List.mem_flatMap.mp hline
    rcases List.mem_cons.mp hline with rfl | hline
    · revert hmem
      cases part <;> decide
    · by_cases hpart : part = .settings
      · subst hpart
        exact (mem_of_mem_lines (mem_settingsLines hline).1 hmem).2 rfl
      · exact (h.isPlain_of_mem hpart hline).unbroken.1 hmem
  have hmarker : ∀ part : Section,
      stripReturn part.marker.toList = part.marker.toList := by
    intro part
    cases part <;> decide
  rw [render, String.toList_ofList, lines_unlines hfeeds, fileLines,
    List.map_flatMap]
  simp only [List.map_cons, hmarker]
  rfl

theorem IsStorable.exists_body? (h : pattern.IsStorable) (part : Section) :
    ∃ body, part.body? (numberedLines pattern.render.toList) = some body ∧
      body.map NumberedLine.text = pattern.readLines part := by
  have htext := (map_text_numberedLines _).trans h.lines_render
  exact Section.exists_body? htext (fun part _ => h.isMarker_readLines part)
    (by decide) part.mem_all

/-! ## The whole file -/

def readSummary (pattern : Pattern) : String :=
  "\n".intercalate ((pattern.readLines .settings).map String.ofList)

theorem IsStorable.parse_render_eq_ok (h : pattern.IsStorable) :
    parse pattern.render = .ok (pattern.withSettings pattern.readSummary) := by
  have hsection : ∀ part, ∃ body,
      requireSection (numberedLines pattern.render.toList) part = .ok body ∧
        body.map NumberedLine.text = pattern.readLines part := by
    intro part
    obtain ⟨body, hbody, hlines⟩ := h.exists_body? part
    exact ⟨body, by rw [requireSection, hbody], hlines⟩
  obtain ⟨summary, hsummary, hsummary'⟩ := h.exists_body? .settings
  obtain ⟨states, hstates, hstates'⟩ := hsection .states
  obtain ⟨rules, hrules, hrules'⟩ := hsection .rules
  obtain ⟨neighbors, hneighbors, hneighbors'⟩ := hsection .neighbors
  obtain ⟨size, hsize, hsize'⟩ := hsection .size
  obtain ⟨cells, hcells, hcells'⟩ := hsection .cells
  rw [h.readLines_eq (by decide)] at hstates' hrules' hneighbors' hsize' hcells'
  have hsettings : readSettings (numberedLines pattern.render.toList) =
      pattern.readSummary := by
    rw [readSettings, hsummary, readSummary, ← hsummary', List.map_map]
    rfl
  have hgrid : readCells pattern.states (.empty pattern.grid.width pattern.grid.height)
      cells = .ok pattern.grid := by
    have hput := @readCells_eq_ok pattern
      (.empty pattern.grid.width pattern.grid.height) cells pattern.grid.liveCells
      h.consistent h.fits (List.Subset.refl _) h.names rfl rfl hcells'
    rwa [h.consistent.putCells_liveCells] at hput
  simp only [parse, parseLines, hstates, hrules, hneighbors, hsize, hcells, bind,
    Except.bind, readStates_eq_ok hstates', readRules_eq h.rules hrules',
    readNeighborhood_eq_ok hneighbors',
    readSize_eq_ok h.width h.height h.fits.width h.fits.height hsize', hgrid,
    hsettings]
  rfl

/-! ## The summary -/

theorem readSummary_eq (h : '\r' ∉ pattern.settings.toList) :
    pattern.readSummary = "\n".intercalate
      ((Text.linesOf pattern.settings).filter fun line =>
        !Section.isMarker line.toList) := by
  have hlines : pattern.readLines .settings = pattern.settingsLines := by
    rw [readLines, linesOf, List.map_congr_left fun line hline =>
      stripReturn_eq_self fun hmem =>
        h (mem_of_mem_lines (mem_settingsLines hline).1 hmem).1, List.map_id']
  rw [readSummary, hlines, settingsLines, Text.linesOf, List.filter_map]
  simp [Function.comp_def]

theorem intercalate_linesOf {text : String} (hreturn : '\r' ∉ text.toList)
    (hlast : text.toList.getLast? ≠ some '\n') :
    "\n".intercalate (Text.linesOf text) = text := by
  rw [← String.toList_inj, String.toList_intercalate, Text.linesOf, List.map_map]
  have hmap : (lines text.toList).map (String.toList ∘ String.ofList) =
      lines text.toList := by
    simp [Function.comp_def]
  rw [hmap]
  exact intercalate_lines hreturn hlast

theorem readSummary_eq_self (hreturn : '\r' ∉ pattern.settings.toList)
    (hlast : pattern.settings.toList.getLast? ≠ some '\n')
    (hplain : ∀ line ∈ Text.linesOf pattern.settings,
      Section.isMarker line.toList = false) :
    pattern.readSummary = pattern.settings := by
  have hall : ((Text.linesOf pattern.settings).filter fun line =>
      !Section.isMarker line.toList) = Text.linesOf pattern.settings :=
    List.filter_eq_self.mpr fun line hline => by rw [hplain line hline]; rfl
  rw [readSummary_eq hreturn, hall, intercalate_linesOf hreturn hlast]

/-! ## Patterns of compiled rules -/

theorem isStorable_ofGrid {states : StateUniverse} {table : RuleTable}
    {scope neighborhood : Neighborhood} {grid : Grid} {settings : String}
    (hsound : ∀ rule ∈ table.rules, rule.IsSound states scope)
    (hconsistent : grid.isConsistent = true) (hfits : grid.FitsWords)
    (hwidth : grid.width ≠ 0) (hheight : grid.height ≠ 0)
    (hdeclared : ∀ cell ∈ grid.liveCells, cell.2.index < states.size) :
    ((ofGrid states table neighborhood grid).withSettings settings).IsStorable where
  rules := rules_eq_unlines rfl hsound
  plain _ hline := isPlain_ruleLine rfl hsound hline
  consistent := Grid.isConsistent_iff.mp hconsistent
  fits := hfits
  width := Nat.pos_of_ne_zero hwidth
  height := Nat.pos_of_ne_zero hheight
  names cell hmem := ⟨_, List.getElem?_eq_getElem (hdeclared cell hmem)⟩

/-- A pattern of a compiled table and a consistent grid of declared states is read
back as it was written: its states, its rules, its neighborhood and its grid with
the index, whatever the summary says.  Without carriage returns the summary loses
its markers and nothing else, but for a line feed at the end. -/
theorem parse_render (compiler : Compiler) (text : String)
    (neighborhood : Neighborhood) (grid : Grid) (settings : String)
    (hconsistent : grid.isConsistent = true) (hfits : grid.FitsWords)
    (hwidth : grid.width ≠ 0) (hheight : grid.height ≠ 0)
    (hdeclared : ∀ cell ∈ grid.liveCells, cell.2.index < compiler.states.size) :
    let pattern := (ofGrid compiler.states (compiler.compile text).table neighborhood
      grid).withSettings settings
    ∃ parsed, parse pattern.render = .ok parsed ∧
      parsed.states = pattern.states ∧ parsed.rules = pattern.rules ∧
      parsed.neighborhood = pattern.neighborhood ∧ parsed.grid = pattern.grid ∧
      parsed.cells? = pattern.cells? ∧
      ('\r' ∉ settings.toList → parsed.settings = "\n".intercalate
        ((Text.linesOf settings).filter fun line =>
          !Section.isMarker line.toList)) ∧
      ('\r' ∉ settings.toList → settings.toList.getLast? ≠ some '\n' →
        (∀ line ∈ Text.linesOf settings, Section.isMarker line.toList = false) →
        parsed.settings = settings) := by
  intro pattern
  have hstorable : pattern.IsStorable :=
    isStorable_ofGrid (fun _ hmem => Compiler.isSound_of_mem_compile hmem) hconsistent
      hfits hwidth hheight hdeclared
  have hsettings : pattern.settings = settings := rfl
  -- From here on it does not matter what the pattern was made of.
  clear_value pattern
  subst hsettings
  exact ⟨_, hstorable.parse_render_eq_ok, rfl, rfl, rfl, rfl, rfl, readSummary_eq,
    readSummary_eq_self⟩

def wordRule : String := "and / 3 : ( [NW,SE] @ = 1#3 | ALL @ = +2#and ) ;"

def wordGrid : Grid := ((Grid.empty 3 2).put ⟨0, 0⟩ ⟨1⟩).put ⟨2, 1⟩ ⟨2⟩

def markedSummary : String := "Epoch: 3\n [Cells] \n\nFitness: 12.5"

theorem parse_render_words :
    wordGrid.isConsistent = true ∧ wordGrid.FitsWords ∧
      (∀ cell ∈ wordGrid.liveCells, cell.2.index < Compiler.wordStates.size) ∧
      ∃ parsed, parse ((ofGrid Compiler.wordStates
          (Compiler.compile ⟨Compiler.wordStates, .moore, .standard⟩ wordRule).table
          .vonNeumann wordGrid).withSettings markedSummary).render = .ok parsed ∧
        parsed.grid = wordGrid ∧ parsed.settings = "Epoch: 3\n\nFitness: 12.5" := by
  have hconsistent : wordGrid.isConsistent = true := by decide
  have hfits : wordGrid.FitsWords :=
    ⟨by decide, by decide, by decide, by decide⟩
  have hdeclared : ∀ cell ∈ wordGrid.liveCells,
      cell.2.index < Compiler.wordStates.size := by decide
  obtain ⟨parsed, hparsed, -, -, -, hgrid, -, hsettings, -⟩ :=
    parse_render ⟨Compiler.wordStates, .moore, .standard⟩ wordRule .vonNeumann
      wordGrid markedSummary hconsistent hfits (by decide) (by decide) hdeclared
  exact ⟨hconsistent, hfits, hdeclared, parsed, hparsed, hgrid,
    (hsettings (by decide)).trans (by decide +kernel)⟩

end Pattern

end Cellular
