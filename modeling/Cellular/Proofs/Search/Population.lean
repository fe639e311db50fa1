import Cellular.Proofs.Search.Stages

/-!
# The population of a search

From the first random population on every stage keeps the size of the population,
the number of genes of its members, the range of the genes and the record of how
many of them are live (`Reached.isSettled`).  Neither the selection method nor the
draws matter.  All that a run does goes through these stages (`reached_run`).
-/

namespace Cellular.Search

open Chromosome

variable {σ : Type} {draws : Draws σ} {search start after : Search σ}

def area (search : Search σ) : Nat := search.playOut.width * search.playOut.height

theorem area?_eq_some (h : search.area < Word.modulus) :
    search.area? = some search.area := by
  unfold area? PlayOut.area? area at *
  exact Word.toUnsigned?_natCast h

theorem area?_eq_none (h : Word.modulus ≤ search.area) : search.area? = none := by
  unfold area? PlayOut.area? area at *
  exact Word.toUnsigned?_natCast_eq_none h

theorem area?_eq_some_iff : search.area? = some search.area ↔ search.area < Word.modulus := by
  refine ⟨fun harea => ?_, area?_eq_some⟩
  by_contra hlong
  rw [area?_eq_none (Nat.not_lt.mp hlong)] at harea
  cases harea

/-- As many members as configured, with one gene for every cell out of the states
of the automaton, and with the number of live genes on record. -/
structure IsSettled (search : Search σ) : Prop where
  length_eq : search.population.length = search.config.populationSize
  fits : ∀ member ∈ search.population,
    member.Fits search.area search.states.size
  initialSize_eq : ∀ member ∈ search.population,
    member.stats.initialSize = liveGenes member.pattern

structure SameTask (first second : Search σ) : Prop where
  config : first.config = second.config
  playOut : first.playOut = second.playOut

theorem IsSettled.congr (h : search.IsSettled) (htask : after.SameTask search)
    (hpopulation : after.population = search.population) : after.IsSettled := by
  obtain ⟨hlength, hfits, hinitial⟩ := h
  have hstates : after.states = search.states := by rw [states, states, htask.playOut]
  have harea : after.area = search.area := by rw [area, area, htask.playOut]
  refine ⟨?_, ?_, ?_⟩ <;> rw [hpopulation]
  · rw [hlength, htask.config]
  · rw [hstates, harea]
    exact hfits
  · exact hinitial

/-! ## The stages -/

theorem populate_eq_some_iff :
    search.populate draws = some after ↔
      search.area < Word.modulus ∧
        after = { search with
          population := (randomPopulation draws search.area search.states.userCount
            search.config.populationSize search.source).1
          source := (randomPopulation draws search.area search.states.userCount
            search.config.populationSize search.source).2
          epoch := 0
          evaluations := 0
          best := none
          last := .unevaluated
          history := .empty } := by
  by_cases hfits : search.area < Word.modulus
  · rw [populate, bind_of_eq_some (area?_eq_some hfits), and_iff_right hfits,
      Option.some.injEq, eq_comm]
  · rw [populate, area?_eq_none (Nat.not_lt.mp hfits)]
    simp [hfits]

theorem exists_populate (draws : Draws σ) (h : search.area < Word.modulus) :
    ∃ after, search.populate draws = some after :=
  ⟨_, populate_eq_some_iff.mpr ⟨h, rfl⟩⟩

theorem populate_keeps (h : search.populate draws = some after) :
    after.SameTask search ∧ after.cancelled = search.cancelled := by
  obtain ⟨-, rfl⟩ := populate_eq_some_iff.mp h
  exact ⟨⟨rfl, rfl⟩, rfl⟩

theorem isSettled_populate (h : search.populate draws = some after) :
    after.IsSettled := by
  obtain ⟨-, rfl⟩ := populate_eq_some_iff.mp h
  exact ⟨length_randomPopulation, fun _ hmem => fits_of_mem_randomPopulation hmem,
    fun _ hmem => initialSize_of_mem_randomPopulation hmem⟩

theorem liveCount_ofPattern_eq {width height : Nat} {member : Chromosome} {count : Nat}
    (h : member.Fits (width * height) count) :
    (Grid.ofPattern width height member.pattern).liveCount =
      liveGenes member.pattern := by
  have htake : member.pattern.take (width * height) = member.pattern :=
    List.take_of_length_le (Nat.le_of_eq h.length_eq)
  rw [Grid.liveCount_ofPattern, htake, liveGenes]

theorem evaluateWithin_eq_ok_iff {budget : Nat} :
    search.evaluateWithin budget = some (.ok after) ↔
      ∃ population, search.playOut.evaluateAll budget search.cancelled
          search.population = some (.ok population) ∧
        search.takeEvaluated population = after := by
  rw [Search.evaluateWithin]
  rcases search.playOut.evaluateAll budget search.cancelled search.population with
    _ | _ | population <;> simp [Except.map]

theorem IsSettled.evaluateWithin {budget : Nat} (h : search.IsSettled)
    (hafter : search.evaluateWithin budget = some (.ok after)) : after.IsSettled := by
  obtain ⟨population, hpopulation, rfl⟩ := evaluateWithin_eq_ok_iff.mp hafter
  rw [PlayOut.evaluateAll_eq_ok_iff] at hpopulation
  have hmember : ∀ evaluated ∈ population, ∃ member ∈ search.population,
      evaluated.pattern = member.pattern ∧
        evaluated.stats.initialSize = liveGenes member.pattern := by
    intro evaluated hmem
    obtain ⟨member, hmember, hevaluated⟩ :=
      exists_mem_of_forall₂ hpopulation.flip hmem
    obtain ⟨hpattern, hinitial⟩ := PlayOut.evaluateChromosome_eq_ok hevaluated
    exact ⟨member, hmember, hpattern,
      hinitial.trans (liveCount_ofPattern_eq (h.fits member hmember))⟩
  refine ⟨hpopulation.length_eq.symm.trans h.length_eq, ?_, ?_⟩
  · intro evaluated hmem
    obtain ⟨member, hmember, hpattern, -⟩ := hmember evaluated hmem
    have hfits := h.fits member hmember
    exact ⟨by rw [hpattern]; exact hfits.length_eq,
      by rw [hpattern]; exact hfits.index_lt⟩
  · intro evaluated hmem
    obtain ⟨member, -, hpattern, hinitial⟩ := hmember evaluated hmem
    rw [hpattern]
    exact hinitial

theorem IsSettled.breed {selected : List Chromosome} {source : σ}
    (h : search.IsSettled)
    (hlength : selected.length = search.config.populationSize)
    (hselected : ∀ member ∈ selected,
      member.Fits search.area search.states.size) :
    (search.breed draws selected source).1.length = search.config.populationSize ∧
      ∀ member ∈ (search.breed draws selected source).1,
        member.Fits search.area search.states.size ∧
          member.stats.initialSize = liveGenes member.pattern := by
  have helites : ∀ member ∈ Selection.elites search.population
      (spared search.config), member.Fits search.area search.states.size :=
    fun member hmem => h.fits member (Selection.elites_subset _ _ hmem)
  simp only [Search.breed, List.length_map, length_mutationStage]
  constructor
  · split
    · exact hlength
    · exact length_crossoverStage hlength
  · intro member hmem
    obtain ⟨mutant, hmutant, rfl⟩ := List.mem_map.mp hmem
    have hfits : mutant.Fits search.area search.states.size := by
      refine fits_mutationStage ?_ mutant hmutant
      split
      · exact hselected
      · exact fits_crossoverStage helites hselected
    exact ⟨⟨hfits.length_eq, hfits.index_lt⟩, rfl⟩

theorem IsSettled.reproduce (h : search.IsSettled)
    (hafter : search.reproduce draws = some after) : after.IsSettled := by
  simp only [Search.reproduce, nextPopulation, Option.bind_eq_bind,
    Option.bind_eq_some_iff, Prod.exists, Option.ite_none_left_eq_some,
    Option.some.injEq] at hafter
  obtain ⟨population, last, ⟨selected, next, hselect, -, hbreed⟩, rfl⟩ := hafter
  obtain ⟨hlength, hselected⟩ := Selection.select_eq_some hselect h.fits
  obtain ⟨hsize, hmembers⟩ :=
    h.breed (hlength.trans h.length_eq) hselected
  rw [hbreed] at hsize hmembers
  exact ⟨hsize, fun member hmem => (hmembers member hmem).1,
    fun member hmem => (hmembers member hmem).2⟩

/-! ## Any number of epochs -/

/-- The searches that calls of the stages lead to.  Between the calls anything may
be noted, the request to stop may change and the source may move on. -/
inductive Reached (draws : Draws σ) (start : Search σ) : Search σ → Prop
  | populated {before after : Search σ} (htask : before.SameTask start)
      (hafter : before.populate draws = some after) :
      Reached draws start after
  | evaluated {search after : Search σ} (budget : Nat)
      (h : Reached draws start search)
      (hafter : search.evaluateWithin budget = some (.ok after)) :
      Reached draws start after
  | reproduced {search after : Search σ} (h : Reached draws start search)
      (hafter : search.reproduce draws = some after) :
      Reached draws start after
  | noted {search after : Search σ} (h : Reached draws start search)
      (htask : after.SameTask search)
      (hpopulation : after.population = search.population) :
      Reached draws start after

theorem Reached.isSettled (h : Reached draws start search) : search.IsSettled := by
  induction h with
  | populated _ hafter => exact isSettled_populate hafter
  | evaluated budget _ hafter ih => exact ih.evaluateWithin hafter
  | reproduced _ hafter ih => exact ih.reproduce hafter
  | noted _ htask hpopulation ih => exact ih.congr htask hpopulation

theorem evaluateWithin_keeps {budget : Nat}
    (h : search.evaluateWithin budget = some (.ok after)) :
    after.SameTask search ∧ after.cancelled = search.cancelled := by
  obtain ⟨population, -, rfl⟩ := evaluateWithin_eq_ok_iff.mp h
  exact ⟨⟨rfl, rfl⟩, rfl⟩

theorem reproduce_keeps (h : search.reproduce draws = some after) :
    after.SameTask search ∧ after.cancelled = search.cancelled := by
  simp only [Search.reproduce, Option.bind_eq_bind, Option.bind_eq_some_iff,
    Option.some.injEq, Prod.exists] at h
  obtain ⟨population, source, -, rfl⟩ := h
  exact ⟨⟨rfl, rfl⟩, rfl⟩

theorem SameTask.trans {third : Search σ} (h : after.SameTask search)
    (h' : search.SameTask third) : after.SameTask third :=
  ⟨h.config.trans h'.config, h.playOut.trans h'.playOut⟩

theorem Reached.sameTask (h : Reached draws start search) :
    search.SameTask start := by
  induction h with
  | populated htask hafter => exact (populate_keeps hafter).1.trans htask
  | evaluated budget _ hafter ih => exact (evaluateWithin_keeps hafter).1.trans ih
  | reproduced _ hafter ih => exact (reproduce_keeps hafter).1.trans ih
  | noted _ htask _ ih => exact htask.trans ih

/-! ## Whole runs -/

theorem updateBest_keeps (search : Search σ) :
    search.updateBest.SameTask search ∧
      search.updateBest.population = search.population := by
  unfold updateBest
  split <;> exact ⟨⟨rfl, rfl⟩, rfl⟩

@[simp] theorem epoch_updateBest (search : Search σ) :
    search.updateBest.epoch = search.epoch := by
  unfold updateBest
  split <;> rfl

@[simp] theorem evaluations_updateBest (search : Search σ) :
    search.updateBest.evaluations = search.evaluations := by
  unfold updateBest
  split <;> rfl

@[simp] theorem cancelled_updateBest (search : Search σ) :
    search.updateBest.cancelled = search.cancelled := by
  unfold updateBest
  split <;> rfl

@[simp] theorem population_updateBest (search : Search σ) :
    search.updateBest.population = search.population :=
  search.updateBest_keeps.2

theorem Reached.report {run : Run σ} {cancelAt : Option Nat}
    (h : Reached draws start run.search) :
    Reached draws start (run.report cancelAt).search :=
  h.noted ⟨rfl, rfl⟩ rfl

theorem Reached.updateBest (h : Reached draws start search) :
    Reached draws start search.updateBest :=
  h.noted search.updateBest_keeps.1 search.updateBest_keeps.2

theorem Reached.halt {run last : Run σ} {outcome : Except StepError StopReason}
    (h : Reached draws start run.search) (hhalt : run.halt = some (last, outcome)) :
    Reached draws start last.search := by
  simp only [Run.halt, Option.ite_none_right_eq_some, Option.some.injEq,
    Prod.mk.injEq] at hhalt
  obtain ⟨-, rfl, -⟩ := hhalt
  exact h

theorem Reached.epochs {run last : Run σ} {cancelAt : Option Nat}
    {budget fuel : Nat} {outcome : Except StepError StopReason}
    (h : Reached draws start run.search)
    (hlast : Run.epochs draws cancelAt budget fuel run = some (last, outcome)) :
    Reached draws start last.search := by
  induction fuel generalizing run with
  | zero => cases hlast
  | succ fuel ih =>
      rw [Run.epochs] at hlast
      split at hlast
      · cases hlast
        exact h
      · split at hlast
        · exact h.halt hlast
        · rename_i reproduced hreproduced
          have hchild := h.reproduced hreproduced
          split at hlast
          · cases hlast
          · have hhalted : Reached draws start
                (Run.search { run with search := reproduced }) := hchild
            exact hhalted.halt hlast
          · cases hlast
            exact hchild
          · rename_i evaluated hevaluated
            refine ih (Reached.report (Reached.updateBest ?_)) hlast
            exact (hchild.evaluated _ hevaluated).noted ⟨rfl, rfl⟩ rfl

theorem Reached.runFrom {run last : Run σ} {cancelAt : Option Nat} {budget : Nat}
    {outcome : Except StepError StopReason} (h : Reached draws start run.search)
    (hlast : Search.runFrom draws cancelAt budget run = some (last, outcome)) :
    Reached draws start last.search := by
  unfold Search.runFrom at hlast
  split at hlast
  · cases hlast
  · exact h.halt hlast
  · cases hlast
    exact h
  · rename_i evaluated hevaluated
    exact (h.evaluated _ hevaluated).updateBest.report.epochs hlast

/-- What a run leaves behind comes out of the stages, however the run ends. -/
theorem reached_run {cancelAt : Option Nat} {last : Run σ}
    {outcome : Except SearchError SearchResult}
    (hrun : search.run draws cancelAt = some (last, outcome)) :
    Reached draws search last.search := by
  simp only [Search.run, runWithin, Option.bind_eq_bind, Option.bind_eq_some_iff] at hrun
  obtain ⟨populated, hpopulated, ⟨ended, reason⟩, hended, hrun⟩ := hrun
  have hstarted : Reached draws search populated := by
    refine .populated ?_ hpopulated
    exact ⟨rfl, rfl⟩
  have hreached := Reached.runFrom hstarted.report hended
  cases reason with
  | error error =>
      cases hrun
      exact hreached.noted ⟨rfl, rfl⟩ rfl
  | ok reason =>
      obtain ⟨result, -, hrun⟩ := Option.bind_eq_some_iff.mp hrun
      cases hrun
      refine Reached.report ?_
      exact hreached.noted ⟨rfl, rfl⟩ rfl

/-- Whatever the configuration, the automaton, the extents and the draws, after any number
of stages and also after a run the population is as large as configured, every pattern has
one gene for each cell, every gene is a state of the automaton, and the number of live
genes is on record. -/
theorem Reached.population_sound {config : SearchConfig} {automaton : Automaton}
    {width height : Nat} {source : σ}
    (h : Reached draws (created config automaton width height source) search) :
    search.population.length = config.populationSize ∧
      ∀ member ∈ search.population,
        member.pattern.length = width * height ∧
          (∀ gene ∈ member.pattern, gene.index < automaton.states.size) ∧
          member.stats.initialSize = liveGenes member.pattern := by
  obtain ⟨hconfig, hplayOut⟩ := h.sameTask
  obtain ⟨hlength, hfits, hinitial⟩ := h.isSettled
  rw [states, area, hplayOut] at hfits
  refine ⟨by rw [hlength, hconfig]; rfl, fun member hmem => ?_⟩
  have hmember := hfits member hmem
  exact ⟨hmember.length_eq, hmember.index_lt, hinitial member hmem⟩

/-! ## A search for trails -/

theorem exists_evaluateWithin {budget : Nat}
    (hsound : search.playOut.automaton.IsSound)
    (hextents : Manageable search.playOut.width search.playOut.height)
    (htarget : 0 < search.playOut.targets.generations)
    (hbudget : search.playOut.targets.generations ≤ budget)
    (hrunning : search.cancelled = false) :
    ∃ after, search.evaluateWithin budget = some (.ok after) := by
  obtain ⟨members, hmembers⟩ := search.playOut.exists_evaluateAll hsound hextents htarget
    hbudget search.population
  exact ⟨_, evaluateWithin_eq_ok_iff.mpr ⟨members, by rw [hrunning, hmembers], rfl⟩⟩

theorem exists_reproduce (draws : Draws σ) (hrunning : search.cancelled = false)
    (hmethod : search.config.selection ≠ .random) :
    ∃ after, search.reproduce draws = some after := by
  simp only [Search.reproduce, nextPopulation, Selection.select, hrunning]
  cases hselection : search.config.selection with
  | random => exact absurd hselection hmethod
  | _ => exact ⟨_, rfl⟩

def trailSearch : Search Unit :=
  created ⟨3, 0.5, 0.5, .elitism, .standard, ⟨2, 0, 1⟩, 2, 0.5, 0.5, none⟩
    (.ofTable Automaton.trailStates .moore
      (Compiler.compile ⟨Automaton.trailStates, .moore, .standard⟩
        Automaton.followText).table)
    2 2 ()

def evenDraws : Draws Unit where
  unit source := (0.5, source)
  below source bound := (bound - 1, source)
  below_lt _ _ h := Nat.sub_lt h Nat.one_pos

theorem manageable_trailSearch :
    Manageable trailSearch.playOut.width trailSearch.playOut.height := by
  have haddressable : (Grid.empty 2 2).Addressable := by decide
  exact haddressable.manageable

theorem isSound_trailSearch : trailSearch.playOut.automaton.IsSound :=
  Automaton.isSound_ofTable fun _ hmem => Compiler.isSound_of_mem_compile hmem

theorem Reached.population_sound_trail :
    ∃ populated first second third : Search Unit,
      trailSearch.populate evenDraws = some populated ∧
        populated.evaluatePopulation = some (.ok first) ∧
        first.reproduce evenDraws = some second ∧
        second.evaluatePopulation = some (.ok third) ∧
        third.population.length = 3 ∧
        ∀ member ∈ third.population, member.pattern.length = 4 ∧
          (∀ gene ∈ member.pattern, gene.index < 3) ∧
          member.stats.initialSize = liveGenes member.pattern := by
  have hevaluates : ∀ search : Search Unit, search.SameTask trailSearch →
      search.cancelled = false →
      ∃ after, search.evaluatePopulation = some (.ok after) := by
    intro search htask hrunning
    refine exists_evaluateWithin ?_ ?_ ?_ ?_ hrunning <;> rw [htask.playOut]
    · exact isSound_trailSearch
    · exact manageable_trailSearch
    · decide
    · decide
  have hpopulated : trailSearch.populate evenDraws = some _ :=
    populate_eq_some_iff.mpr ⟨manageable_trailSearch.area_lt, rfl⟩
  obtain ⟨htask, hrunning⟩ := populate_keeps hpopulated
  obtain ⟨first, hfirst⟩ := hevaluates _ htask (hrunning.trans rfl)
  obtain ⟨htask', hrunning'⟩ := evaluateWithin_keeps hfirst
  obtain ⟨second, hsecond⟩ := exists_reproduce evenDraws
    (hrunning'.trans (hrunning.trans rfl)) (by rw [htask'.config, htask.config]; decide)
  obtain ⟨htask'', hrunning''⟩ := reproduce_keeps hsecond
  obtain ⟨third, hthird⟩ := hevaluates second (htask''.trans (htask'.trans htask))
    (hrunning''.trans (hrunning'.trans (hrunning.trans rfl)))
  have hreached := (((Reached.populated ⟨rfl, rfl⟩ hpopulated).evaluated _ hfirst).reproduced
    hsecond).evaluated _ hthird
  exact ⟨_, first, second, third, hpopulated, hfirst, hsecond, hthird,
    Reached.population_sound hreached⟩

end Cellular.Search
