import Cellular.Proofs.Pattern.RoundTrip
import Cellular.Proofs.Rule.Growth

/-!
# Playing patterns from files

A pattern keeps the compiled rules of its automaton as text, but not the limits that
they were compiled under.  Read from a file and compiled again, it has the rules whose
text is short enough for the standard limits, and nothing to report if they all are
and there are not too many (`compile_parse_render`).  Rules that were compiled under
the standard limits need not be short enough, for they may have grown in print
(`compile_parse_render_crowd`).
-/

namespace Cellular

/-! ## Extents -/

theorem AutomatonConfig.check_eq_ok {config : AutomatonConfig}
    (h : config.check = .ok ()) :
    config.width ≠ 0 ∧ config.height ≠ 0 ∧
      config.width * config.height < Word.signedBound := by
  have haddressable : isAddressable config.width config.height = true := by
    by_contra hnot
    rw [Bool.not_eq_true] at hnot
    simp [check, hnot] at h
  simpa [isAddressable, and_assoc] using haddressable

theorem Grid.Consistent.fitsWords {grid : Grid} (h : grid.Consistent)
    (hwidth : grid.width ≠ 0) (hheight : grid.height ≠ 0)
    (harea : grid.width * grid.height < Word.signedBound) : grid.FitsWords := by
  have hextents : grid.width < Word.signedBound ∧ grid.height < Word.signedBound :=
    ⟨Nat.lt_of_le_of_lt (Nat.le_mul_of_pos_right _ (Nat.pos_of_ne_zero hheight)) harea,
      Nat.lt_of_le_of_lt (Nat.le_mul_of_pos_left _ (Nat.pos_of_ne_zero hwidth)) harea⟩
  have hwords : Word.signedBound < Word.modulus := by decide
  have hcells : ∀ cell ∈ grid.liveCells,
      cell.1.x < grid.width ∧ cell.1.y < grid.height := by
    intro cell hmem
    have hbounds := inBounds_iff.mp (h.inBounds (mem_liveCells.mp hmem))
    exact ⟨hbounds.1.2, hbounds.2.2⟩
  refine ⟨by omega, by omega, fun cell hmem => ?_, fun cell hmem => ?_⟩
  · have hx := (hcells cell hmem).1
    omega
  · have hy := (hcells cell hmem).2
    omega

namespace Pattern

variable {config : AutomatonConfig} {grid : Grid}

/-! ## The automaton of a file -/

def reader (config : AutomatonConfig) : Compiler :=
  ⟨config.states, config.neighborhood, .standard⟩

theorem isPrintable_table (config : AutomatonConfig) :
    config.compile.table.IsPrintable (reader config) :=
  RuleTable.isPrintable_compile (Compiler.covers_standard config.compiler) config.rules

theorem compile_eq {pattern : Pattern} {text : String}
    (h : pattern.config = { config with rules := text, limits := .standard }) :
    pattern.compile = (reader config).compile text := by
  have hcompiler : pattern.config.compiler = reader config := by
    rw [h]
    rfl
  have hrules : pattern.config.rules = text := by rw [h]
  rw [Pattern.compile, AutomatonConfig.compile, hcompiler, hrules]

theorem withSettings_ofGrid (states : StateUniverse) (table : RuleTable)
    (neighborhood : Neighborhood) (grid : Grid) :
    (ofGrid states table neighborhood grid).withSettings "" =
      ofGrid states table neighborhood grid := rfl

theorem exists_parse_render (hcheck : config.check = .ok ())
    (hconsistent : grid.isConsistent = true)
    (hwidth : grid.width = config.width) (hheight : grid.height = config.height)
    (hdeclared : ∀ cell ∈ grid.liveCells, cell.2.index < config.states.size) :
    ∃ parsed,
      parse (ofGrid config.states config.compile.table config.neighborhood grid).render =
        .ok parsed ∧
      parsed.grid = grid ∧
      parsed.config = { config with
        rules := config.compile.table.render
        limits := .standard } := by
  obtain ⟨hsomeWidth, hsomeHeight, harea⟩ := AutomatonConfig.check_eq_ok hcheck
  rw [← hwidth] at hsomeWidth
  rw [← hheight] at hsomeHeight
  rw [← hwidth, ← hheight] at harea
  have hfits := (Grid.isConsistent_iff.mp hconsistent).fitsWords hsomeWidth hsomeHeight
    harea
  have hsound : ∀ rule ∈ config.compile.table.rules,
      rule.IsSound config.states config.neighborhood :=
    fun _ hmem => Compiler.isSound_of_mem_compile hmem
  have hstorable :
      (ofGrid config.states config.compile.table config.neighborhood grid).IsStorable := by
    rw [← withSettings_ofGrid]
    exact isStorable_ofGrid hsound hconsistent hfits hsomeWidth hsomeHeight hdeclared
  refine ⟨_, hstorable.parse_render_eq_ok, rfl, ?_⟩
  simp only [Pattern.config, withSettings, ofGrid, hwidth, hheight]

/-- Of the rules of an automaton those come back from its file that are short enough
for the standard limits as they are printed.  Nothing is reported if all of them are
and there are not too many. -/
theorem compile_parse_render (config : AutomatonConfig) (grid : Grid)
    (hcheck : config.check = .ok ()) (hconsistent : grid.isConsistent = true)
    (hwidth : grid.width = config.width) (hheight : grid.height = config.height)
    (hdeclared : ∀ cell ∈ grid.liveCells, cell.2.index < config.states.size) :
    let table := config.compile.table
    ∃ parsed,
      parse (ofGrid config.states table config.neighborhood grid).render = .ok parsed ∧
      parsed.grid = grid ∧
      parsed.config = { config with rules := table.render, limits := .standard } ∧
      parsed.compile.table.rules.map Rule.transition =
        (table.rules.filter (Rule.Fits .standard)).map Rule.transition ∧
      (parsed.compile.isOk = true ↔ table.Fits .standard) := by
  intro table
  obtain ⟨parsed, hparsed, hgrid, hconfig⟩ :=
    exists_parse_render hcheck hconsistent hwidth hheight hdeclared
  refine ⟨parsed, hparsed, hgrid, hconfig, ?_⟩
  rw [compile_eq hconfig]
  exact ⟨RuleTable.rules_compile_render (isPrintable_table config),
    RuleTable.isOk_compile_render_iff (isPrintable_table config)⟩

def wordConfig : AutomatonConfig :=
  ⟨Compiler.wordStates, .moore, 3, 2, "and/3:(n@=#3);", ⟨1, 32, 14, 1⟩⟩

theorem compile_parse_render_words :
    wordConfig.check = .ok () ∧ wordConfig.compile.isOk = true ∧
      wordGrid.isConsistent = true ∧
      (∀ cell ∈ wordGrid.liveCells, cell.2.index < wordConfig.states.size) ∧
      ∃ parsed,
        parse (ofGrid wordConfig.states wordConfig.compile.table wordConfig.neighborhood
          wordGrid).render = .ok parsed ∧
        parsed.compile.isOk = true := by
  have hcheck : wordConfig.check = .ok () := rfl
  have hok : wordConfig.compile.isOk = true := by decide +kernel
  have hconsistent : wordGrid.isConsistent = true := by decide
  have hdeclared : ∀ cell ∈ wordGrid.liveCells,
      cell.2.index < wordConfig.states.size := by decide
  have hfits : wordConfig.compile.table.Fits .standard := by decide +kernel
  obtain ⟨parsed, hparsed, -, -, -, hparsedOk⟩ :=
    compile_parse_render wordConfig wordGrid hcheck hconsistent rfl rfl hdeclared
  exact ⟨hcheck, hok, hconsistent, hdeclared, parsed, hparsed, hparsedOk.mpr hfits⟩

/-! ## An automaton that does not come back -/

def crowdStates : StateUniverse where
  userNames := ["A"]
  canonical := by
    intro name hmem
    rw [List.mem_singleton.mp hmem]
    exact isCanonicalName_of_all (by decide) (by decide) (by decide)
  distinct := by decide
  free_notMem := by decide
  length_le := by decide

def crowdConfig : AutomatonConfig :=
  ⟨crowdStates, .moore, 1, 1, crowdText "" 253, .standard⟩

/-- The rule has 773 characters, of the 1024 that it may have, and is printed with
1026. -/
theorem compile_parse_render_crowd :
    crowdConfig.check = .ok () ∧ crowdConfig.compile.isOk = true ∧
      (Grid.empty 1 1).isConsistent = true ∧
      ∃ parsed,
        parse (ofGrid crowdConfig.states crowdConfig.compile.table
          crowdConfig.neighborhood (.empty 1 1)).render = .ok parsed ∧
        parsed.compile.isOk = false := by
  have hfree : crowdConfig.compiler.Admits "FREE" := ⟨by decide, by decide⟩
  have hstate : crowdConfig.compiler.Admits "A" := ⟨by decide, by decide⟩
  have hcheck : crowdConfig.check = .ok () := rfl
  have hconsistent : (Grid.empty 1 1).isConsistent = true := by decide
  have hdeclared : ∀ cell ∈ (Grid.empty 1 1).liveCells,
      cell.2.index < crowdConfig.states.size := by decide
  have hterms : 253 ≠ 0 := by decide
  have hfits : 14 + 253 * 3 ≤ crowdConfig.compiler.limits.ruleCharsMax := by decide
  have hroom : 0 < crowdConfig.compiler.limits.rulesMax := by decide
  obtain ⟨offset, hcompile⟩ : ∃ offset, crowdConfig.compile =
      ⟨⟨[.ofParts "FREE" "A" (some (crowdCondition 253)) offset]⟩, []⟩ :=
    compile_crowd hterms hfree hstate hfits hroom
  have hok : crowdConfig.compile.isOk = true := by
    rw [hcompile]
    rfl
  have hlong : ¬crowdConfig.compile.table.Fits .standard := by
    rintro ⟨-, hshort⟩
    rw [hcompile, List.forall_mem_singleton, Rule.Fits,
      chars_crowd hterms hfree hstate] at hshort
    exact absurd hshort (by decide)
  obtain ⟨parsed, hparsed, -, hconfig⟩ :=
    exists_parse_render hcheck hconsistent rfl rfl hdeclared
  refine ⟨hcheck, hok, hconsistent, parsed, hparsed, ?_⟩
  rw [compile_eq hconfig, ← Bool.not_eq_true,
    RuleTable.isOk_compile_render_iff (isPrintable_table crowdConfig)]
  exact hlong

end Pattern

end Cellular
