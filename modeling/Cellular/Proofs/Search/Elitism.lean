import Cellular.Proofs.Search.Record
import Mathlib.Data.List.Nodup

/-!
# Elitism

The ranking of a population lists its members by their place in the total order of
scores, and those with the same place by their index (`pairwise_ranking`).  Under
elitism the patterns of the first members of the ranking are the first patterns of
the next population, whatever is drawn (`exists_reproduce_elites`).  An unchanged
pattern is evaluated to what it was evaluated to before, so with one elite or more
no epoch falls behind an earlier one (`nextEpoch_reaches`).
-/

namespace Cellular

/-! ## The ranking -/

namespace Selection

/-- A member with an index ranks before another by its place or, the places being
equal, by its index. -/
def Outranks (first second : Chromosome × Nat) : Prop :=
  second.1.fitness.place < first.1.fitness.place ∨
    second.1.fitness.place = first.1.fitness.place ∧ first.2 < second.2

instance (first second : Chromosome × Nat) : Decidable (Outranks first second) :=
  inferInstanceAs (Decidable (_ ∨ _))

instance : Std.Asymm Outranks where
  asymm first second h h' := by
    unfold Outranks at h h'
    omega

theorem Outranks.place_le {first second : Chromosome × Nat}
    (h : Outranks first second) :
    second.1.fitness.place ≤ first.1.fitness.place := by
  rcases h with hlt | ⟨heq, -⟩
  · exact Int.le_of_lt hlt
  · exact Int.le_of_eq heq

theorem ranking_perm (population : List Chromosome) :
    (ranking population).Perm population.zipIdx :=
  List.mergeSort_perm _ _

def isNoWeaker (first second : Chromosome × Nat) : Bool :=
  second.1.fitness.place ≤ first.1.fitness.place

theorem isNoWeaker_trans (first second third : Chromosome × Nat)
    (h : isNoWeaker first second) (h' : isNoWeaker second third) :
    isNoWeaker first third := by
  simp only [isNoWeaker, decide_eq_true_eq] at h h' ⊢
  exact Int.le_trans h' h

theorem isNoWeaker_total (first second : Chromosome × Nat) :
    isNoWeaker first second || isNoWeaker second first := by
  simp only [isNoWeaker, Bool.or_eq_true, decide_eq_true_eq]
  exact Int.le_total _ _

theorem eq_index_of_mem_zipIdx {population : List Chromosome}
    {ranked : (Chromosome × Nat) × Nat} (h : ranked ∈ population.zipIdx.zipIdx) :
    ranked.2 = ranked.1.2 := by
  obtain ⟨⟨member, index⟩, place⟩ := ranked
  rw [List.mem_zipIdx_iff_getElem?, List.getElem?_zipIdx] at h
  obtain ⟨_, -, heq⟩ := Option.map_eq_some_iff.mp h
  rw [Prod.mk.injEq, Nat.zero_add] at heq
  exact heq.2

theorem pairwise_ranking (population : List Chromosome) :
    (ranking population).Pairwise Outranks := by
  -- The members have their indices twice when the stable sort adds its own.
  have hperm := List.mergeSort_perm population.zipIdx.zipIdx
    (List.zipIdxLE isNoWeaker)
  have hranking : ranking population = (population.zipIdx.zipIdx.mergeSort
      (List.zipIdxLE isNoWeaker)).map Prod.fst := List.mergeSort_zipIdx.symm
  rw [hranking, List.pairwise_map]
  refine (pairwise_mergeSort_zipIdx isNoWeaker_trans isNoWeaker_total
    population.zipIdx).imp_of_mem ?_
  rintro ⟨first, index⟩ ⟨second, index'⟩ hfirst hsecond ⟨hle, hback⟩
  obtain rfl : index = first.2 := eq_index_of_mem_zipIdx (hperm.subset hfirst)
  obtain rfl : index' = second.2 := eq_index_of_mem_zipIdx (hperm.subset hsecond)
  simp only [isNoWeaker, decide_eq_true_eq] at hle hback
  rcases Int.lt_or_eq_of_le hle with hlt | heq
  · exact .inl hlt
  · exact .inr ⟨heq, hback (Int.le_of_eq heq.symm)⟩

theorem length_elites (population : List Chromosome) (count : Nat) :
    (elites population count).length = min count population.length := by
  rw [elites, List.length_map, List.length_take, (ranking_perm population).length_eq,
    List.length_zipIdx]

theorem exists_mem_elites {population : List Chromosome} {count : Nat}
    (hsome : population ≠ []) (hcount : 0 < count) :
    ∃ top ∈ elites population count, top ∈ population ∧
      ∀ member ∈ population, member.fitness.place ≤ top.fitness.place := by
  have hranked : ∀ member ∈ population, ∃ index, (member, index) ∈ ranking population := by
    intro member hmem
    obtain ⟨index, hindex⟩ := List.mem_iff_getElem?.mp hmem
    exact ⟨index, (ranking_perm population).symm.subset
      (List.mem_zipIdx_iff_getElem?.mpr hindex)⟩
  have hsorted := pairwise_ranking population
  cases hranking : ranking population with
  | nil =>
      obtain ⟨member, hmem⟩ := List.exists_mem_of_ne_nil _ hsome
      obtain ⟨index, hrank⟩ := hranked member hmem
      rw [hranking] at hrank
      cases hrank
  | cons top others =>
      have helite : top.1 ∈ elites population count := by
        obtain ⟨more, rfl⟩ := Nat.exists_eq_succ_of_ne_zero (Nat.ne_of_gt hcount)
        rw [elites, hranking, List.take_succ_cons]
        exact List.mem_cons_self
      refine ⟨top.1, helite, elites_subset population count helite, ?_⟩
      intro member hmem
      obtain ⟨index, hrank⟩ := hranked member hmem
      rw [hranking] at hrank hsorted
      rcases List.mem_cons.mp hrank with heq | hlater
      · rw [← heq]
      · exact ((List.pairwise_cons.mp hsorted).1 _ hlater).place_le

end Selection

namespace Search

variable {σ : Type} {draws : Draws σ} {source : σ} {budget epoch : Nat}
  {start search next : Search σ}

/-! ## The stages -/

theorem take_crossoverStage {rate : Float} {size spared : Nat}
    {elites selected : List Chromosome} (hlength : elites.length = spared)
    (h : spared ≤ size) :
    (crossoverStage draws source rate size elites selected).1.take spared = elites := by
  rw [crossoverStage, List.take_take, Nat.min_eq_left h, List.append_assoc, ← hlength,
    List.take_left]

theorem take_mutationStage {rate : Float} {states spared : Nat}
    {population : List Chromosome} (h : spared ≤ population.length) :
    (mutationStage draws source rate states spared population).1.take spared =
      population.take spared := by
  rw [mutationStage, List.take_append_of_le_length (by simp [h]), List.take_take,
    Nat.min_self]

theorem breed_elites {selected : List Chromosome}
    (hmethod : search.config.selection = .elitism)
    (helites : search.config.elites ≤ search.config.populationSize)
    (hpopulation : search.population.length = search.config.populationSize)
    (hselected : selected.length = search.config.populationSize) :
    (search.breed draws selected source).1.length = search.config.populationSize ∧
      ((search.breed draws selected source).1.take search.config.elites).map
          Chromosome.pattern =
        (Selection.elites search.population search.config.elites).map
          Chromosome.pattern := by
  have hspared : spared search.config = search.config.elites := if_pos hmethod
  have hsteady : ¬search.config.selection = .steadyState := by
    rw [hmethod]
    decide
  have hlength : (Selection.elites search.population search.config.elites).length =
      search.config.elites := by
    rw [Selection.length_elites, hpopulation, Nat.min_eq_left helites]
  simp only [breed, hspared, if_neg hsteady, List.length_map, length_mutationStage,
    length_crossoverStage hselected]
  refine ⟨trivial, ?_⟩
  rw [← List.map_take, take_mutationStage (by rwa [length_crossoverStage hselected]),
    take_crossoverStage hlength helites, List.map_map]
  rfl

theorem exists_reproduce_elites (draws : Draws σ)
    (hmethod : search.config.selection = .elitism)
    (hrunning : search.cancelled = false)
    (hlength : search.population.length = search.config.populationSize)
    (helites : search.config.elites < search.config.populationSize) :
    ∃ next, search.reproduce draws = some next ∧
      next.population.length = search.config.populationSize ∧
      (next.population.take search.config.elites).map Chromosome.pattern =
        (Selection.elites search.population search.config.elites).map
          Chromosome.pattern := by
  have hselect : Selection.select draws search.source search.config search.cancelled
      search.population = some (search.population, search.source) := by
    rw [Selection.select, hrunning, hmethod]
    rfl
  refine ⟨_, by rw [Search.reproduce, nextPopulation, hselect, hrunning]; rfl, ?_⟩
  exact breed_elites hmethod (Nat.le_of_lt helites) hlength hlength

/-! ## From epoch to epoch -/

structure KeepsElites (config : SearchConfig) : Prop where
  method : config.selection = .elitism
  some : 0 < config.elites
  below : config.elites < config.populationSize

theorem KeepsElites.size {config : SearchConfig} (h : KeepsElites config) :
    0 < config.populationSize :=
  Nat.lt_of_le_of_lt (Nat.zero_le _) h.below

/-- The best pattern of an epoch is evaluated again in the next one, to the same
score. -/
theorem nextEpoch_reaches (hkeeps : KeepsElites search.config)
    (hrunning : search.cancelled = false)
    (hlength : search.population.length = search.config.populationSize)
    (hevaluated : search.IsEvaluated budget)
    (hnext : search.nextEpoch draws budget = some next) :
    ∀ member ∈ search.population, ∃ kept ∈ next.population,
      member.fitness.place ≤ kept.fitness.place := by
  obtain ⟨reproduced, evaluated, hreproduced, hagain, rfl⟩ :=
    nextEpoch_eq_some_iff.mp hnext
  obtain ⟨bred, hbred, -, hpatterns⟩ :=
    exists_reproduce_elites draws hkeeps.method hrunning hlength hkeeps.below
  cases hreproduced.symm.trans hbred
  obtain ⟨htask, hcancelled⟩ := reproduce_keeps hreproduced
  intro member hmem
  obtain ⟨top, helite, htop, hhighest⟩ :=
    Selection.exists_mem_elites (List.ne_nil_of_mem hmem) hkeeps.some
  obtain ⟨child, hchild, hpattern⟩ : ∃ child ∈ reproduced.population,
      child.pattern = top.pattern := by
    have hmember := List.mem_map_of_mem (f := Chromosome.pattern) helite
    rw [← hpatterns] at hmember
    obtain ⟨child, hchild, hpattern⟩ := List.mem_map.mp hmember
    exact ⟨child, List.mem_of_mem_take hchild, hpattern⟩
  obtain ⟨population, rfl, -, hpopulation⟩ := evaluateWithin_eq_ok hagain
  obtain ⟨kept, hkept, -, hstats⟩ := exists_mem_of_forall₂ hpopulation hchild
  refine ⟨kept, by rwa [population_updateBest], ?_⟩
  rw [htask.playOut, hcancelled, hrunning, hpattern, hevaluated top htop] at hstats
  have hsame : top.fitness = kept.fitness :=
    congrArg ChromosomeStats.fitness (Except.ok.inj (Option.some.inj hstats))
  rw [← hsame]
  exact hhighest member hmem

theorem exists_updateBest_of_epochAt (h : start.epochAt draws budget epoch = some search) :
    ∃ noted : Search σ, search = noted.updateBest := by
  cases epoch with
  | zero =>
      obtain ⟨populated, evaluated, -, -, rfl⟩ := firstEpoch_eq_some_iff.mp h
      exact ⟨evaluated, rfl⟩
  | succ epoch =>
      obtain ⟨before, -, hnext⟩ := Option.bind_eq_some_iff.mp h
      obtain ⟨reproduced, evaluated, -, -, rfl⟩ := nextEpoch_eq_some_iff.mp hnext
      exact ⟨_, rfl⟩

theorem exists_last_eq (hsome : search.population ≠ [])
    (hdefined : ∀ member ∈ search.population, member.fitness.isUndefined = false)
    (h : start.epochAt draws budget epoch = some search) :
    ∃ best ∈ search.population, search.last = best.stats ∧
      ∀ member ∈ search.population, member.fitness.level ≤ best.fitness.level := by
  obtain ⟨noted, rfl⟩ := exists_updateBest_of_epochAt h
  rw [population_updateBest] at hsome hdefined ⊢
  unfold updateBest
  split
  · rename_i hnone
    exact absurd hnone hsome
  · rename_i first others hpopulation
    simp only [hpopulation] at hdefined ⊢
    exact ⟨fittest first others, fittest_mem first others, rfl,
      level_le_fittest hdefined⟩

theorem epochAt_reaches (hkeeps : KeepsElites start.config)
    (hrunning : start.cancelled = false)
    (h : start.epochAt draws budget epoch = some search)
    (hnext : search.nextEpoch draws budget = some next) :
    ∀ member ∈ search.population, ∃ kept ∈ next.population,
      member.fitness.place ≤ kept.fitness.place := by
  obtain ⟨⟨hconfig, -⟩, hstill, -⟩ := epochAt_keeps h
  refine nextEpoch_reaches (by rwa [hconfig]) (hstill.trans hrunning) ?_
    (isEvaluated_epochAt hrunning h) hnext
  rw [length_epochAt h, hconfig]

theorem evaluatedIn_reaches {later : Nat} (hkeeps : KeepsElites start.config)
    (hrunning : start.cancelled = false) (hle : epoch ≤ later)
    (h : start.epochAt draws budget later = some search) :
    ∀ member ∈ start.evaluatedIn draws budget epoch,
      ∃ kept ∈ start.evaluatedIn draws budget later,
        member.fitness.place ≤ kept.fitness.place := by
  induction later generalizing search with
  | zero =>
      rw [Nat.le_zero.mp hle]
      exact fun member hmem => ⟨member, hmem, Int.le_refl _⟩
  | succ later ih =>
      intro member hmem
      rcases Nat.le_succ_iff.mp hle with hbefore | rfl
      · obtain ⟨before, hepoch, hnext⟩ := Option.bind_eq_some_iff.mp h
        obtain ⟨kept, hkept, hplace⟩ := ih hbefore hepoch member hmem
        rw [evaluatedIn_eq hepoch] at hkept
        obtain ⟨again, hagain, hplace'⟩ :=
          epochAt_reaches hkeeps hrunning hepoch hnext kept hkept
        rw [evaluatedIn_eq h]
        exact ⟨again, hagain, Int.le_trans hplace hplace'⟩
      · exact ⟨member, hmem, Int.le_refl _⟩

theorem Attains.exists_last_eq (h : Attains draws budget start epoch search) :
    ∃ best ∈ search.population, search.last = best.stats ∧
      ∀ member ∈ search.population, member.fitness.level ≤ best.fitness.level := by
  have hlength := length_epochAt h.epochAt_eq
  refine Search.exists_last_eq (List.ne_nil_of_length_pos (hlength ▸ h.size)) ?_
    h.epochAt_eq
  intro member hmem
  exact h.defined (epoch, member)
    (mem_chronicle.mpr ⟨Nat.lt_succ_self _, by rwa [evaluatedIn_eq h.epochAt_eq]⟩)

theorem last_le_last (hkeeps : KeepsElites start.config)
    (h : Attains draws budget start epoch search)
    (hnext : search.nextEpoch draws budget = some next)
    (hlater : Attains draws budget start (epoch + 1) next) :
    search.last.fitness.level ≤ next.last.fitness.level := by
  obtain ⟨best, hbest, hlast, -⟩ := h.exists_last_eq
  obtain ⟨best', -, hlast', hhighest⟩ := hlater.exists_last_eq
  obtain ⟨kept, hkept, hplace⟩ :=
    epochAt_reaches hkeeps h.running h.epochAt_eq hnext best hbest
  -- The member that was kept need not be the best of its epoch.
  rw [hlast, hlast']
  exact Int.le_trans (Score.level_le_of_place_le hplace) (hhighest kept hkept)

/-! ## The reports of a run -/

/-- After the first report, made before there is anything to report, no epoch falls
behind an earlier one. -/
structure Climbs (run : Run σ) : Prop where
  begun : run.reports ≠ []
  ascending : run.reports.tail.Pairwise fun earlier later =>
    earlier.last.fitness.level ≤ later.last.fitness.level
  below : ∀ report ∈ run.reports.tail,
    report.last.fitness.level ≤ run.search.last.fitness.level

theorem Climbs.report {run : Run σ} {cancelAt : Option Nat} (h : Climbs run)
    (hbelow : ∀ report ∈ run.reports.tail,
      report.last.fitness.level ≤ next.last.fitness.level) :
    Climbs ({ run with search := next }.report cancelAt) := by
  have htail : ({ run with search := next }.report cancelAt).reports.tail =
      run.reports.tail ++ [next.progress] := List.tail_append_of_ne_nil h.begun
  refine ⟨List.append_ne_nil_of_left_ne_nil h.begun _, ?_, ?_⟩
  · rw [htail, List.pairwise_append]
    refine ⟨h.ascending, List.pairwise_singleton _ _, fun report hmem later hlater => ?_⟩
    rw [List.mem_singleton.mp hlater]
    exact hbelow report hmem
  · rw [htail, List.forall_mem_append, List.forall_mem_singleton]
    exact ⟨hbelow, Int.le_refl _⟩

theorem search_report {run : Run σ} {cancelAt : Option Nat}
    (h : (run.report cancelAt).search.cancelled = false) :
    (run.report cancelAt).search = run.search := by
  simp only [Run.report, Bool.or_eq_false_iff] at h ⊢
  rw [h.2, Bool.or_false]

theorem climbs_epochs {cancelAt : Option Nat} {fuel : Nat} {run last : Run σ}
    {reason : StopReason} (hkeeps : KeepsElites start.config)
    (hrunning : start.cancelled = false) (hclimbs : Climbs run)
    (hcourse : run.search.cancelled = false →
      start.epochAt draws budget run.search.epoch = some run.search)
    (hlast : Run.epochs draws cancelAt budget fuel run = some (last, .ok reason))
    (hdefined : IsDefined (start.chronicle draws budget (last.search.epoch + 1))) :
    Climbs last := by
  have hmotive := (Run.epochs_induct (motive := fun run =>
    (run.search.cancelled = false →
      start.epochAt draws budget run.search.epoch = some run.search) ∧
    (IsDefined (start.chronicle draws budget (run.search.epoch + 1)) → Climbs run))
    ?_ ⟨hcourse, fun _ => hclimbs⟩ hlast).1
  · exact hmotive.2 hdefined
  · rintro run next ⟨hcourse, hclimbs⟩ hgoes hnext
    have hepoch := hcourse (running_of_stopReason? hgoes)
    obtain ⟨-, -, hnumber⟩ := nextEpoch_keeps hnext
    have hlater : start.epochAt draws budget (run.search.epoch + 1) = some next := by
      rw [epochAt, hepoch, Option.bind_some, hnext]
    refine ⟨fun hstill => by rwa [search_report hstill, hnumber], fun hdefined => ?_⟩
    have hdefined' : IsDefined (start.chronicle draws budget (next.epoch + 1)) :=
      hdefined
    rw [hnumber] at hdefined'
    have hearlier := hdefined'.chronicle (Nat.le_succ _)
    have hbefore := hclimbs hearlier
    have hstep := last_le_last hkeeps ⟨hrunning, hkeeps.size, hearlier, hepoch⟩ hnext
      ⟨hrunning, hkeeps.size, hdefined', hlater⟩
    exact hbefore.report fun report hmem => Int.le_trans (hbefore.below report hmem) hstep

theorem climbs_runWithin {cancelAt : Option Nat} {last : Run σ} {result : SearchResult}
    (hkeeps : KeepsElites start.config) (hrunning : start.cancelled = false)
    (hrun : start.runWithin draws cancelAt budget = some (last, .ok result))
    (hdefined : IsDefined (start.chronicle draws budget (last.search.epoch + 1))) :
    Climbs last := by
  obtain ⟨populated, ended, reason, hpopulated, hended, rfl, -⟩ := runWithin_eq_ok hrun
  have hclimbs : Climbs ended := by
    have hbegun : Climbs (Run.report ⟨populated, []⟩ cancelAt) :=
      ⟨List.cons_ne_nil _ _, .nil, nofun⟩
    rcases runFrom_eq_ok hended with ⟨-, rfl⟩ | ⟨evaluated, hevaluated, hepochs⟩
    · exact hbegun
    · refine climbs_epochs hkeeps hrunning (hbegun.report nofun) (fun hstill => ?_)
        hepochs hdefined
      -- Nobody has asked to stop, so this is the first epoch of the course.
      have hsearch := search_report hstill
      rw [hsearch, cancelled_updateBest] at hstill
      have hstarted := (evaluateWithin_keeps hevaluated).2.symm.trans hstill
      rw [search_report hstarted] at hevaluated
      have hfirst : start.firstEpoch draws budget = some evaluated.updateBest :=
        firstEpoch_eq_some_iff.mpr ⟨_, _, hpopulated, hevaluated, rfl⟩
      obtain ⟨-, rfl⟩ := populate_eq_some_iff.mp hpopulated
      obtain ⟨population, rfl, -, -⟩ := evaluateWithin_eq_ok hevaluated
      rw [hsearch, epoch_updateBest]
      exact hfirst
  exact hclimbs.report hclimbs.below

/-- Under elitism the first patterns of the next population are those of as many
members as are elites, the fittest first and of equal ones that with the smaller
index; the population keeps its size.  With one elite or more every score of an epoch
is reached in each later one.  If no score is undefined, no report of a run is of an
epoch that falls behind an earlier one, also if the run is asked to stop. -/
theorem elites_survive {config : SearchConfig} (hcheck : config.check = .ok ())
    (hmethod : config.selection = .elitism) (draws : Draws σ) (budget : Nat) :
    (∀ search : Search σ, search.config = config → search.cancelled = false →
      search.population.length = config.populationSize →
      ∃ next, ∃ elites others : List (Chromosome × Nat),
        search.reproduce draws = some next ∧
        next.population.length = config.populationSize ∧
        (elites ++ others).Perm search.population.zipIdx ∧
        (elites ++ others).Pairwise Selection.Outranks ∧
        elites.length = config.elites ∧
        (next.population.take config.elites).map Chromosome.pattern =
          elites.map fun elite => elite.1.pattern) ∧
    (0 < config.elites → ∀ automaton width height source start,
      ofAutomaton config automaton width height source = .ok start →
      (∀ earlier later, earlier ≤ later →
        (start.epochAt draws budget later).isSome →
        ∀ member ∈ start.evaluatedIn draws budget earlier,
          ∃ kept ∈ start.evaluatedIn draws budget later,
            member.fitness.exceeds kept.fitness = false) ∧
      ∀ cancelAt last result,
        start.runWithin draws cancelAt budget = some (last, .ok result) →
        IsDefined (start.chronicle draws budget (last.search.epoch + 1)) →
        last.reports.tail.Pairwise fun earlier later =>
          earlier.last.fitness.exceeds later.last.fitness = false) := by
  obtain ⟨-, helites⟩ := SearchConfig.check_eq_ok hcheck
  refine ⟨?_, ?_⟩
  · rintro search rfl hrunning hlength
    obtain ⟨next, hnext, hsize, hpatterns⟩ :=
      exists_reproduce_elites draws hmethod hrunning hlength (helites hmethod)
    have hsplit := List.take_append_drop search.config.elites
      (Selection.ranking search.population)
    refine ⟨next, (Selection.ranking search.population).take search.config.elites,
      (Selection.ranking search.population).drop search.config.elites, hnext, hsize,
      ?_, ?_, ?_, ?_⟩
    · rw [hsplit]
      exact Selection.ranking_perm search.population
    · rw [hsplit]
      exact Selection.pairwise_ranking search.population
    · rw [List.length_take, (Selection.ranking_perm _).length_eq, List.length_zipIdx,
        hlength]
      exact Nat.min_eq_left (Nat.le_of_lt (helites hmethod))
    · rw [hpatterns, Selection.elites, List.map_map]
      rfl
  · intro hsome automaton width height source start haccepted
    obtain ⟨-, rfl⟩ := ofAutomaton_eq_ok haccepted
    have hkeeps : KeepsElites config := ⟨hmethod, hsome, helites hmethod⟩
    refine ⟨?_, ?_⟩
    · intro earlier later hle hreached member hmem
      obtain ⟨search, hsearch⟩ := Option.isSome_iff_exists.mp hreached
      obtain ⟨kept, hkept, hplace⟩ :=
        evaluatedIn_reaches hkeeps rfl hle hsearch member hmem
      exact ⟨kept, hkept,
        Score.not_exceeds_of_level_le (Score.level_le_of_place_le hplace)⟩
    · intro cancelAt last result hrun hdefined
      exact (climbs_runWithin hkeeps rfl hrun hdefined).ascending.imp
        Score.not_exceeds_of_level_le

theorem isUndefined_trailSearch {pattern : List StateId} {stats : ChromosomeStats}
    (hlength : pattern.length = 4) (hgenes : ∀ gene ∈ pattern, gene.index < 3)
    (h : trailSearch.playOut.evaluateWithin 2 pattern false = some (.ok stats)) :
    stats.fitness.isUndefined = false := by
  have hall : ∀ first second third fourth : Fin 3,
      ((trailSearch.playOut.evaluateWithin 2
        [.ofIndex first, .ofIndex second, .ofIndex third, .ofIndex fourth] false).all
          fun played => played.toOption.all fun stats => !stats.fitness.isUndefined) = true := by
    decide +kernel
  obtain ⟨first, second, third, fourth, rfl⟩ := List.length_eq_four.mp hlength
  simp only [List.forall_mem_cons] at hgenes
  obtain ⟨hfirst, hsecond, hthird, hfourth, -⟩ := hgenes
  have hpattern := hall ⟨_, hfirst⟩ ⟨_, hsecond⟩ ⟨_, hthird⟩ ⟨_, hfourth⟩
  simp only [StateId.ofIndex_index, h] at hpattern
  simpa [Except.toOption] using hpattern

theorem isDefined_chronicle_trailSearch (epochs : Nat) :
    IsDefined (trailSearch.chronicle evenDraws 2 epochs) := by
  rintro ⟨epoch, member⟩ hmem
  obtain ⟨-, hmem⟩ := mem_chronicle.mp hmem
  obtain ⟨search, hepoch⟩ : ∃ search, trailSearch.epochAt evenDraws 2 epoch = some search := by
    by_contra hnone
    rw [evaluatedIn, Option.eq_none_iff_forall_ne_some.mpr (not_exists.mp hnone)] at hmem
    cases hmem
  rw [evaluatedIn_eq hepoch] at hmem
  have hfits := (reached_epochAt hepoch).isSettled.fits member hmem
  have hevaluated := isEvaluated_epochAt rfl hepoch member hmem
  rw [area, states, (epochAt_keeps hepoch).1.playOut] at hfits
  rw [(epochAt_keeps hepoch).1.playOut] at hevaluated
  exact isUndefined_trailSearch hfits.length_eq hfits.index_lt hevaluated

def gradedSearch : Search Unit :=
  { trailSearch with
    population :=
      [⟨[.free, .free, ⟨1⟩, .free], ⟨0, 0, 1, .ofFloat 1.0⟩⟩,
        ⟨[⟨1⟩, ⟨1⟩, .free, .free], ⟨2, 2, 2, .ofFloat 3.0⟩⟩,
        ⟨[⟨1⟩, ⟨2⟩, .free, .free], ⟨2, 1, 2, .ofFloat 3.0⟩⟩] }

theorem elites_survive_trail :
    (∃ next, gradedSearch.reproduce evenDraws = some next ∧
      next.population.length = 3 ∧
      (next.population.take 2).map Chromosome.pattern =
        [[⟨1⟩, ⟨1⟩, .free, .free], [⟨1⟩, ⟨2⟩, .free, .free]]) ∧
    ∃ last result, trailSearch.runWithin evenDraws none 2 = some (last, .ok result) ∧
      result.stats.epochs = 1 ∧
      last.reports.tail.Pairwise fun earlier later =>
        earlier.last.fitness.exceeds later.last.fitness = false := by
  have hcheck : trailSearch.config.check = .ok () := by
    have hok : trailSearch.config.check.isOk = true := by decide +kernel
    obtain ⟨⟨⟩, hcheck⟩ := exists_ok_of_isOk hok
    exact hcheck
  obtain ⟨hstep, hruns⟩ := elites_survive hcheck rfl evenDraws 2
  refine ⟨?_, ?_⟩
  · obtain ⟨next, elites, others, hnext, hsize, hperm, hpairwise, hcount, hpatterns⟩ :=
      hstep gradedSearch rfl rfl rfl
    -- There is one list of all members that is in the order of the ranks.
    have hranked : elites ++ others =
        (gradedSearch.population.zipIdx.drop 1) ++ gradedSearch.population.zipIdx.take 1 := by
      refine List.Perm.eq_of_pairwise (fun first second _ _ h h' =>
        absurd h' (Std.Asymm.asymm _ _ h)) hpairwise (by decide +kernel) (hperm.trans ?_)
      decide +kernel
    rw [← List.take_left' hcount, hranked] at hpatterns
    exact ⟨next, hnext, hsize, hpatterns⟩
  · have haccepts : (ofAutomaton trailSearch.config trailSearch.playOut.automaton 2 2
        ()).isOk = true := by decide +kernel
    obtain ⟨search, haccepted⟩ := exists_ok_of_isOk haccepts
    obtain ⟨-, rfl⟩ := ofAutomaton_eq_ok haccepted
    have hends : Ends 2 trailSearch :=
      ⟨isSound_trailSearch, manageable_trailSearch, by decide, by decide, by decide, rfl⟩
    obtain ⟨last, result, hrun⟩ :=
      hends.exists_runWithin evenDraws (by decide) (by decide)
    obtain ⟨epoch, final, reason, harrives, hreason, hresult⟩ :=
      exists_epochAt_of_runWithin rfl hrun
    obtain ⟨hepoch, -⟩ := harrives.epoch_eq_target rfl (by decide) hreason
    obtain ⟨best, -, hresult⟩ := Option.bind_eq_some_iff.mp hresult
    cases hresult
    refine ⟨last, _, hrun, (epochAt_keeps harrives.epochAt_eq).2.2.trans hepoch, ?_⟩
    exact (hruns (by decide) _ _ _ _ _ haccepted).2 none last _ hrun
      (isDefined_chronicle_trailSearch _)

end Search

end Cellular
