import Cellular.Proofs.Grid.Sizes
import Cellular.Proofs.Pattern.Reading
import Cellular.Proofs.Pattern.Reproduction
import Cellular.Proofs.Search.Course

/-!
# Extents that get in

Extents come in through a pattern file, with an automaton that a search is made for, or
in an automaton configuration.  Only the last way asks for an addressable area; the
others let in everything but zero (`admits_iff_extents`).  Sizes are exact on the grids with an
addressable area and on no other grid that gets in.
-/

namespace Cellular

/-! ## Doors -/

inductive Door where
  /-- A file that is read as a pattern. -/
  | file
  /-- A search for an automaton that is already compiled. -/
  | automaton
  /-- A search for a configuration, which is compiled first. -/
  | config
  deriving DecidableEq, Repr

/-- Whether a grid with the extents gets in. -/
def Door.Admits (width height : Nat) : Door → Prop
  | file => ∃ text pattern, Pattern.parse text = .ok pattern ∧
      pattern.grid.width = width ∧ pattern.grid.height = height
  | automaton => ∃ (σ : Type) (source : σ) (config : SearchConfig)
      (automaton : Automaton) (search : Search σ),
      Search.ofAutomaton config automaton width height source = .ok search
  | config => ∃ (σ : Type) (source : σ) (config : SearchConfig)
      (automaton : AutomatonConfig) (search : Search σ),
      Search.ofConfig config automaton source = .ok search ∧
        automaton.width = width ∧ automaton.height = height

variable {width height : Nat}

/-! ## Files -/

theorem Pattern.exists_parse_of_extents (hwidth : width ≠ 0)
    (hheight : height ≠ 0) (hwidth' : width < Word.modulus)
    (hheight' : height < Word.modulus) :
    ∃ text pattern, parse text = .ok pattern ∧ pattern.grid = .empty width height := by
  have hsound : ∀ rule ∈ (⟨[]⟩ : RuleTable).rules, rule.IsSound .freeOnly .moore := nofun
  have hstorable : ((ofGrid .freeOnly ⟨[]⟩ .moore (.empty width height)).withSettings
      "").IsStorable :=
    isStorable_ofGrid hsound (Grid.isConsistent_iff.mpr (Grid.consistent_empty _ _))
      ⟨hwidth', hheight', nofun, nofun⟩ hwidth hheight nofun
  exact ⟨_, _, hstorable.parse_render_eq_ok, rfl⟩

theorem admits_file_iff :
    Door.file.Admits width height ↔
      (0 < width ∧ width < Word.modulus) ∧ 0 < height ∧ height < Word.modulus := by
  constructor
  · rintro ⟨text, pattern, hpattern, rfl, rfl⟩
    exact (Pattern.isDrawn_of_parse hpattern).1
  · rintro ⟨⟨hwidth, hwidth'⟩, hheight, hheight'⟩
    obtain ⟨text, pattern, hpattern, hgrid⟩ := Pattern.exists_parse_of_extents
      (Nat.ne_of_gt hwidth) (Nat.ne_of_gt hheight) hwidth' hheight'
    exact ⟨text, pattern, hpattern, by rw [hgrid]; rfl, by rw [hgrid]; rfl⟩

/-! ## Searches -/

namespace Search

variable {σ : Type} {source : σ} {config : SearchConfig}

theorem exists_ofAutomaton_iff {automaton : Automaton} :
    (∃ search, ofAutomaton config automaton width height source = .ok search) ↔
      config.check = .ok () ∧ (width ≠ 0 ∧ height ≠ 0) ∧
        automaton.states.userCount ≠ 0 ∧ automaton.table.isEmpty = false := by
  unfold ofAutomaton
  constructor
  · rintro ⟨search, hsearch⟩
    split at hsearch
    · cases hsearch
    · rename_i hcheck
      split at hsearch
      · cases hsearch
      · rename_i hextents
        split at hsearch
        · cases hsearch
        · rename_i hlive
          split at hsearch
          · cases hsearch
          · rename_i hrules
            exact ⟨hcheck, not_or.mp hextents, hlive, Bool.not_eq_true _ ▸ hrules⟩
  · rintro ⟨hcheck, hextents, hlive, hrules⟩
    rw [hcheck]
    simp [hextents, hlive, hrules]

theorem check_of_ofConfig {automaton : AutomatonConfig} {search : Search σ}
    (h : ofConfig config automaton source = .ok search) : automaton.check = .ok () := by
  unfold ofConfig at h
  split at h
  · cases h
  · rename_i hcheck
    exact hcheck

end Search

def plainConfig (width height : Nat) : AutomatonConfig :=
  ⟨Pattern.crowdStates, .moore, width, height, "FREE / A ;", .standard⟩

def plainAutomaton : Automaton :=
  .ofTable Pattern.crowdStates .moore
    (Compiler.compile ⟨Pattern.crowdStates, .moore, .standard⟩ "FREE / A ;").table

theorem exists_ofAutomaton_plain (hwidth : width ≠ 0) (hheight : height ≠ 0) :
    ∃ search, Search.ofAutomaton .standard plainAutomaton width height () = .ok search := by
  have hchecks : SearchConfig.standard.check.isOk = true ∧
      plainAutomaton.table.isEmpty = false := by
    decide +kernel
  obtain ⟨⟨⟩, hcheck⟩ := exists_ok_of_isOk hchecks.1
  exact Search.exists_ofAutomaton_iff.mpr
    ⟨hcheck, ⟨hwidth, hheight⟩, by decide, hchecks.2⟩

theorem check_plainConfig (h : AutomatonConfig.isAddressable width height = true) :
    (plainConfig width height).check = .ok () := by
  have hextents : AutomatonConfig.isAddressable (plainConfig width height).width
      (plainConfig width height).height = true := h
  rw [AutomatonConfig.check, hextents]
  rfl

theorem admits_automaton_iff :
    Door.automaton.Admits width height ↔ 0 < width ∧ 0 < height := by
  constructor
  · rintro ⟨σ, source, config, automaton, search, hsearch⟩
    obtain ⟨-, ⟨hwidth, hheight⟩, -⟩ := Search.exists_ofAutomaton_iff.mp ⟨search, hsearch⟩
    exact ⟨Nat.pos_of_ne_zero hwidth, Nat.pos_of_ne_zero hheight⟩
  · rintro ⟨hwidth, hheight⟩
    obtain ⟨search, hsearch⟩ :=
      exists_ofAutomaton_plain (Nat.ne_of_gt hwidth) (Nat.ne_of_gt hheight)
    exact ⟨Unit, (), .standard, plainAutomaton, search, hsearch⟩

theorem admits_config_iff :
    Door.config.Admits width height ↔
      AutomatonConfig.isAddressable width height = true := by
  constructor
  · rintro ⟨σ, source, config, automaton, search, hsearch, rfl, rfl⟩
    obtain ⟨hwidth, hheight, harea⟩ :=
      AutomatonConfig.check_eq_ok (Search.check_of_ofConfig hsearch)
    simp [AutomatonConfig.isAddressable, hwidth, hheight, harea]
  · intro h
    obtain ⟨hwidth, hheight, -⟩ :=
      AutomatonConfig.check_eq_ok (check_plainConfig h)
    obtain ⟨search, hsearch⟩ := exists_ofAutomaton_plain hwidth hheight
    have hcompiles : (plainConfig width height).compile.isOk = true := by
      show (Compiler.compile ⟨Pattern.crowdStates, .moore, .standard⟩ "FREE / A ;").isOk =
        true
      decide +kernel
    refine ⟨Unit, (), .standard, plainConfig width height, search, ?_, rfl, rfl⟩
    rw [Search.ofConfig, check_plainConfig h]
    dsimp only
    rw [if_pos hcompiles]
    exact hsearch

/-! ## All doors -/

/-- A file lets in all extents but zero that are words, a compiled automaton all but
zero, and a configuration those with an addressable area.  The grid of a file and any
grid that a search plays have exact sizes just if their area is addressable, and a search
knows its area just if that is a word. -/
theorem admits_iff_extents (width height : Nat) :
    (Door.file.Admits width height ↔
      (0 < width ∧ width < Word.modulus) ∧ 0 < height ∧ height < Word.modulus) ∧
    (Door.automaton.Admits width height ↔ 0 < width ∧ 0 < height) ∧
    (Door.config.Admits width height ↔
      AutomatonConfig.isAddressable width height = true) ∧
    (∀ text pattern, Pattern.parse text = .ok pattern →
      (pattern.grid.HasExactSizes ↔
        AutomatonConfig.isAddressable pattern.grid.width pattern.grid.height = true)) ∧
    ∀ {σ : Type} (source : σ) (config : SearchConfig) (automaton : Automaton)
      (search : Search σ),
      Search.ofAutomaton config automaton width height source = .ok search →
      (search.area? = some (width * height) ↔ width * height < Word.modulus) ∧
      ∀ genes, (Grid.ofPattern width height genes).HasExactSizes ↔
        AutomatonConfig.isAddressable width height = true := by
  refine ⟨admits_file_iff, admits_automaton_iff, admits_config_iff, ?_, ?_⟩
  · intro text pattern hpattern
    obtain ⟨⟨⟨hwidth, -⟩, hheight, -⟩, hdrawn⟩ := Pattern.isDrawn_of_parse hpattern
    exact hdrawn.consistent.hasExactSizes_iff hwidth hheight
  · intro σ source config automaton search hsearch
    obtain ⟨-, ⟨hwidth, hheight⟩, -⟩ := Search.exists_ofAutomaton_iff.mp ⟨search, hsearch⟩
    obtain ⟨-, rfl⟩ := Search.ofAutomaton_eq_ok hsearch
    have harea : (Search.created config automaton width height source).area? =
        some (width * height) ↔ width * height < Word.modulus := Search.area?_eq_some_iff
    refine ⟨harea, fun genes => ?_⟩
    have hplanted := Grid.planted_ofPattern width height genes
    have hwidth' : (Grid.ofPattern width height genes).width = width := hplanted.width
    have hheight' : (Grid.ofPattern width height genes).height = height := hplanted.height
    have hexact := hplanted.consistent.hasExactSizes_iff
      (by rw [hwidth']; exact Nat.pos_of_ne_zero hwidth)
      (by rw [hheight']; exact Nat.pos_of_ne_zero hheight)
    rwa [hwidth', hheight'] at hexact

theorem admits_iff_extents_wide :
    Door.file.Admits 4294967296 2147483648 ∧ Door.automaton.Admits 4294967296 2147483648 ∧
      ¬Door.config.Admits 4294967296 2147483648 ∧
      Door.config.Admits 4294967296 2147483647 := by
  obtain ⟨hfile, hautomaton, hconfig, -⟩ := admits_iff_extents 4294967296 2147483648
  obtain ⟨-, -, hnarrow, -⟩ := admits_iff_extents 4294967296 2147483647
  exact ⟨hfile.mpr (by decide), hautomaton.mpr (by decide),
    fun hadmits => absurd (hconfig.mp hadmits) (by decide), hnarrow.mpr (by decide)⟩

/-! ## A grid without an area -/

def vastFile : String :=
  "[STATES]\nA;\n[RULES]\nFREE / A ;\n[NEIGHBORS]\nN S\n" ++
    "[SIZE]\n4294967296 4294967296\n[CELLS]\n0 0 A;\n"

/-- The extents are read and a search is made for them, but their product is no word: the
grid with its live cell has neither an area nor a pattern, the search knows no area, and the
configuration of the file is refused. -/
theorem admits_unaddressable :
    (∃ pattern, Pattern.parse vastFile = .ok pattern ∧
      pattern.grid.width = 4294967296 ∧ pattern.grid.height = 4294967296 ∧
      pattern.grid.liveCount = 1 ∧ pattern.grid.area? = none ∧
      pattern.grid.toPattern? = none ∧
      pattern.config.check = .error .invalidDimensions) ∧
    ∃ search,
      Search.ofAutomaton .standard plainAutomaton 4294967296 4294967296 () = .ok search ∧
      search.area? = none := by
  constructor
  · have hread : (Pattern.parse vastFile).map
        (fun pattern => (pattern.grid.width, pattern.grid.height, pattern.grid.liveCount)) =
        .ok (4294967296, 4294967296, 1) := by
      decide +kernel
    obtain ⟨pattern, hpattern, hparts⟩ := exists_ok_of_map_eq_ok hread
    simp only [Prod.mk.injEq] at hparts
    obtain ⟨hwidth, hheight, hlive⟩ := hparts
    have harea : pattern.grid.area? = none := by
      rw [Grid.area?, hwidth, hheight]
      rfl
    have hcells : pattern.grid.toPattern? = none := by
      rw [Grid.toPattern?, harea]
      rfl
    have hrefused : AutomatonConfig.isAddressable pattern.config.width
        pattern.config.height = false := by
      show AutomatonConfig.isAddressable pattern.grid.width pattern.grid.height = false
      rw [hwidth, hheight]
      rfl
    refine ⟨pattern, hpattern, hwidth, hheight, hlive, harea, hcells, ?_⟩
    rw [AutomatonConfig.check, hrefused]
    rfl
  · have hextent : 4294967296 ≠ 0 := by decide
    obtain ⟨search, hsearch⟩ := exists_ofAutomaton_plain hextent hextent
    refine ⟨search, hsearch, Search.area?_eq_none ?_⟩
    obtain ⟨-, rfl⟩ := Search.ofAutomaton_eq_ok hsearch
    decide

end Cellular
