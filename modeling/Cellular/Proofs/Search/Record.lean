import Cellular.Proofs.Search.Course

/-!
# What a search has on record

After every epoch a search has on record how many chromosomes it has evaluated, the
champion of them all, and for each epoch so far the fitness of the champion up to
this epoch (`Recorded`).  Each epoch that is evaluated continues the record
(`Recorded.evaluate`), so this holds of every epoch (`Attains.recorded`), whatever
the selection method and the draws.
-/

namespace Cellular.Search

variable {σ : Type} {draws : Draws σ} {budget epoch : Nat}
  {start search after : Search σ}

/-! ## One evaluation -/

theorem evaluateWithin_eq_ok (h : search.evaluateWithin budget = some (.ok after)) :
    ∃ population, after = { search with
        population := population
        evaluations := search.evaluations + population.length
        phase := .evaluating } ∧
      population.length = search.population.length ∧
      List.Forall₂ (fun member evaluated => evaluated.pattern = member.pattern ∧
        search.playOut.evaluateWithin budget member.pattern search.cancelled =
          some (.ok evaluated.stats)) search.population population := by
  obtain ⟨population, hpopulation, rfl⟩ := evaluateWithin_eq_ok_iff.mp h
  rw [PlayOut.evaluateAll_eq_ok_iff] at hpopulation
  refine ⟨population, rfl, hpopulation.length_eq.symm, hpopulation.imp ?_⟩
  intro member evaluated hevaluated
  obtain ⟨stats, hstats, rfl⟩ := PlayOut.evaluateChromosome_eq_ok_iff.mp hevaluated
  exact ⟨rfl, hstats⟩

/-- Evaluated once more, a member gets the statistics it has. -/
def IsEvaluated (search : Search σ) (budget : Nat) : Prop :=
  ∀ member ∈ search.population,
    search.playOut.evaluateWithin budget member.pattern false = some (.ok member.stats)

theorem isEvaluated_evaluateWithin (hrunning : search.cancelled = false)
    (h : search.evaluateWithin budget = some (.ok after)) : after.IsEvaluated budget := by
  obtain ⟨population, rfl, -, hmembers⟩ := evaluateWithin_eq_ok h
  intro evaluated hmem
  obtain ⟨member, -, hpattern, hstats⟩ := exists_mem_of_forall₂ hmembers.flip hmem
  rw [hrunning] at hstats
  rw [hpattern]
  exact hstats

theorem IsEvaluated.updateBest (h : search.IsEvaluated budget) :
    search.updateBest.IsEvaluated budget := by
  rw [IsEvaluated, population_updateBest, search.updateBest_keeps.1.playOut]
  exact h

/-! ## The epochs of a course -/

theorem epochAt_keeps (h : start.epochAt draws budget epoch = some search) :
    search.SameTask start ∧ search.cancelled = start.cancelled ∧ search.epoch = epoch := by
  induction epoch generalizing search with
  | zero => exact firstEpoch_keeps h
  | succ epoch ih =>
      obtain ⟨before, hbefore, hnext⟩ := Option.bind_eq_some_iff.mp h
      obtain ⟨htask, hrunning, hnumber⟩ := ih hbefore
      obtain ⟨htask', hrunning', hnumber'⟩ := nextEpoch_keeps hnext
      exact ⟨htask'.trans htask, hrunning'.trans hrunning, hnumber'.trans (by rw [hnumber])⟩

theorem reached_epochAt (h : start.epochAt draws budget epoch = some search) :
    Reached draws start search := by
  induction epoch generalizing search with
  | zero =>
      obtain ⟨populated, evaluated, hpopulated, hevaluated, rfl⟩ :=
        firstEpoch_eq_some_iff.mp h
      refine Reached.updateBest (.evaluated budget (.populated ?_ hpopulated) hevaluated)
      exact ⟨rfl, rfl⟩
  | succ epoch ih =>
      obtain ⟨before, hbefore, hnext⟩ := Option.bind_eq_some_iff.mp h
      obtain ⟨reproduced, evaluated, hreproduced, hevaluated, rfl⟩ :=
        nextEpoch_eq_some_iff.mp hnext
      refine Reached.updateBest (.noted (.evaluated budget (.reproduced (ih hbefore)
        hreproduced) hevaluated) ?_ rfl)
      exact ⟨rfl, rfl⟩

theorem length_epochAt (h : start.epochAt draws budget epoch = some search) :
    search.population.length = start.config.populationSize := by
  rw [(reached_epochAt h).isSettled.length_eq, (epochAt_keeps h).1.config]

theorem isEvaluated_epochAt (hrunning : start.cancelled = false)
    (h : start.epochAt draws budget epoch = some search) : search.IsEvaluated budget := by
  cases epoch with
  | zero =>
      obtain ⟨populated, evaluated, hpopulated, hevaluated, rfl⟩ :=
        firstEpoch_eq_some_iff.mp h
      exact (isEvaluated_evaluateWithin ((populate_keeps hpopulated).2.trans hrunning)
        hevaluated).updateBest
  | succ epoch =>
      obtain ⟨before, hbefore, hnext⟩ := Option.bind_eq_some_iff.mp h
      obtain ⟨reproduced, evaluated, hreproduced, hevaluated, rfl⟩ :=
        nextEpoch_eq_some_iff.mp hnext
      have hstill := (reproduce_keeps hreproduced).2.trans (epochAt_keeps hbefore).2.1
      have hevaluates := isEvaluated_evaluateWithin (hstill.trans hrunning) hevaluated
      refine IsEvaluated.updateBest ?_
      exact hevaluates

/-! ## The best so far -/

theorem history_updateBest (hsome : search.population ≠ []) :
    search.updateBest.history =
      search.history.record (bestFitness search.updateBest.best)
        search.averageFitness := by
  unfold updateBest
  split
  · rename_i hnone
    exact absurd hnone hsome
  · rfl

theorem best_updateBest (hsome : search.population ≠ [])
    (hbest : ∀ entry ∈ search.best, entry.2.fitness.isUndefined = false)
    (hdefined : ∀ member ∈ search.population, member.fitness.isUndefined = false) :
    search.updateBest.best =
      leader search.best (search.population.map (search.epoch, ·)) := by
  unfold updateBest
  split
  · rename_i hnone
    exact absurd hnone hsome
  · rename_i first others hpopulation
    rw [hpopulation] at hdefined ⊢
    exact improve_fittest search.epoch first others hbest hdefined

/-! ## The record of an epoch -/

def peaks (draws : Draws σ) (budget : Nat) (start : Search σ) (epochs : Nat) :
    List Score :=
  (List.range epochs).map fun epoch =>
    bestFitness (leader none (start.chronicle draws budget (epoch + 1)))

structure Recorded (draws : Draws σ) (budget : Nat) (start : Search σ) (epochs : Nat)
    (search : Search σ) : Prop where
  evaluations_eq : search.evaluations = start.config.populationSize * epochs
  length_average : search.history.average.length = epochs
  best_eq : search.best = leader none (start.chronicle draws budget epochs)
  history_eq : search.history.best = start.peaks draws budget epochs

theorem recorded_populate
    (h : { start with phase := .initializing }.populate draws = some search) :
    Recorded draws budget start 0 search := by
  obtain ⟨-, rfl⟩ := populate_eq_some_iff.mp h
  exact ⟨rfl, rfl, rfl, rfl⟩

theorem Recorded.reproduce {epochs : Nat} (h : Recorded draws budget start epochs search)
    (hafter : search.reproduce draws = some after) :
    Recorded draws budget start epochs after := by
  obtain ⟨⟨population, source⟩, -, hafter⟩ := Option.bind_eq_some_iff.mp hafter
  cases hafter
  exact ⟨h.evaluations_eq, h.length_average, h.best_eq, h.history_eq⟩

/-- Evaluating a population and noting its best puts one more epoch on record. -/
theorem Recorded.evaluate {evaluated numbered : Search σ}
    (h : Recorded draws budget start epoch search)
    (hsize : 0 < start.config.populationSize)
    (hevaluated : search.evaluateWithin budget = some (.ok evaluated))
    (hnumbered : numbered = { evaluated with epoch := epoch })
    (hepoch : start.epochAt draws budget epoch = some numbered.updateBest)
    (hdefined : IsDefined (start.chronicle draws budget (epoch + 1))) :
    Recorded draws budget start (epoch + 1) numbered.updateBest := by
  have hlength : numbered.population.length = start.config.populationSize := by
    rw [← population_updateBest]
    exact length_epochAt hepoch
  have hsome : numbered.population ≠ [] := List.ne_nil_of_length_pos (hlength ▸ hsize)
  obtain ⟨population, rfl, -, -⟩ := evaluateWithin_eq_ok hevaluated
  -- The epoch adds its members to the chronicle.
  have hchronicle : start.chronicle draws budget (epoch + 1) =
      start.chronicle draws budget epoch ++ numbered.population.map (epoch, ·) := by
    rw [chronicle_succ, evaluatedIn_eq hepoch, population_updateBest]
  have hleader : numbered.best = leader none (start.chronicle draws budget epoch) := by
    rw [hnumbered]
    exact h.best_eq
  have hbest : numbered.updateBest.best =
      leader none (start.chronicle draws budget (epoch + 1)) := by
    rw [hchronicle] at hdefined ⊢
    obtain ⟨hbefore, hnow⟩ := hdefined.of_append
    have hnumber : numbered.epoch = epoch := by rw [hnumbered]
    rw [best_updateBest hsome, hleader, hnumber, leader_append]
    · rw [hleader]
      exact hbefore.leader
    · exact fun member hmem => hnow (epoch, member) (List.mem_map_of_mem hmem)
  have hhistory : numbered.updateBest.history =
      search.history.record
        (bestFitness (leader none (start.chronicle draws budget (epoch + 1))))
        numbered.averageFitness := by
    rw [history_updateBest hsome, hbest, hnumbered]
  refine ⟨?_, ?_, hbest, ?_⟩
  · rw [evaluations_updateBest, Nat.mul_succ, ← h.evaluations_eq, ← hlength, hnumbered]
  · rw [hhistory, SearchHistory.record, List.length_append, h.length_average]
    rfl
  · rw [hhistory, SearchHistory.record, h.history_eq, peaks, peaks, List.range_succ,
      List.map_append]
    rfl

theorem IsDefined.chronicle {epochs more : Nat}
    (h : IsDefined (start.chronicle draws budget more)) (hle : epochs ≤ more) :
    IsDefined (start.chronicle draws budget epochs) := by
  intro entry hmem
  obtain ⟨hepoch, hmember⟩ := mem_chronicle.mp hmem
  exact h entry (mem_chronicle.mpr ⟨Nat.lt_of_lt_of_le hepoch hle, hmember⟩)

/-- A course gets to an epoch with whole populations and defined scores alone, and
nobody asks it to stop. -/
structure Attains (draws : Draws σ) (budget : Nat) (start : Search σ) (epoch : Nat)
    (search : Search σ) : Prop where
  running : start.cancelled = false
  size : 0 < start.config.populationSize
  defined : IsDefined (start.chronicle draws budget (epoch + 1))
  epochAt_eq : start.epochAt draws budget epoch = some search

theorem Attains.of_le {earlier : Nat} (h : Attains draws budget start epoch search)
    (hle : earlier ≤ epoch) : ∃ before, Attains draws budget start earlier before := by
  obtain ⟨before, hbefore⟩ : ∃ before, start.epochAt draws budget earlier = some before := by
    have hepoch := h.epochAt_eq
    clear h
    induction epoch generalizing search with
    | zero => exact ⟨search, Nat.le_zero.mp hle ▸ hepoch⟩
    | succ epoch ih =>
        rcases Nat.le_succ_iff.mp hle with hbefore | rfl
        · obtain ⟨before, hlast, -⟩ := Option.bind_eq_some_iff.mp hepoch
          exact ih hbefore hlast
        · exact ⟨search, hepoch⟩
  exact ⟨before, h.running, h.size, h.defined.chronicle (Nat.succ_le_succ hle), hbefore⟩

theorem Attains.recorded (h : Attains draws budget start epoch search) :
    Recorded draws budget start (epoch + 1) search := by
  induction epoch generalizing search with
  | zero =>
      obtain ⟨populated, evaluated, hpopulated, hevaluated, rfl⟩ :=
        firstEpoch_eq_some_iff.mp h.epochAt_eq
      refine (recorded_populate hpopulated).evaluate h.size hevaluated ?_
        h.epochAt_eq h.defined
      have hnumber := (epochAt_keeps h.epochAt_eq).2.2
      rw [epoch_updateBest] at hnumber
      rw [← hnumber]
  | succ epoch ih =>
      obtain ⟨before, hbefore, hnext⟩ := Option.bind_eq_some_iff.mp h.epochAt_eq
      obtain ⟨reproduced, evaluated, hreproduced, hevaluated, rfl⟩ :=
        nextEpoch_eq_some_iff.mp hnext
      have hrecorded :=
        ih ⟨h.running, h.size, h.defined.chronicle (Nat.le_succ _), hbefore⟩
      refine (hrecorded.reproduce hreproduced).evaluate h.size hevaluated ?_
        h.epochAt_eq h.defined
      have hnumber := (epochAt_keeps h.epochAt_eq).2.2
      rw [epoch_updateBest] at hnumber
      rw [← hnumber]

theorem Attains.evaluatedIn_complete (h : Attains draws budget start epoch search) :
    (start.evaluatedIn draws budget epoch).length = start.config.populationSize ∧
      ∀ member ∈ start.evaluatedIn draws budget epoch,
        start.playOut.evaluateWithin budget member.pattern false =
          some (.ok member.stats) := by
  have hevaluated := isEvaluated_epochAt h.running h.epochAt_eq
  rw [IsEvaluated, (epochAt_keeps h.epochAt_eq).1.playOut] at hevaluated
  rw [evaluatedIn_eq h.epochAt_eq]
  exact ⟨length_epochAt h.epochAt_eq, hevaluated⟩

theorem Attains.exists_champion (h : Attains draws budget start epoch search) :
    ∃ champion, leader none (start.chronicle draws budget (epoch + 1)) =
        some champion ∧
      IsChampion (start.chronicle draws budget (epoch + 1)) champion := by
  refine isChampion_leader ?_ h.defined
  rw [chronicle_succ]
  refine List.append_ne_nil_of_right_ne_nil _ (List.ne_nil_of_length_pos ?_)
  rw [List.length_map, h.evaluatedIn_complete.1]
  exact h.size

theorem getElem?_peaks {epochs earlier : Nat} (h : earlier < epochs) :
    (start.peaks draws budget epochs)[earlier]? =
      some (bestFitness (leader none (start.chronicle draws budget (earlier + 1)))) := by
  rw [peaks, List.getElem?_map, List.getElem?_range h]
  rfl

theorem Attains.pairwise_peaks (h : Attains draws budget start epoch search) :
    (start.peaks draws budget (epoch + 1)).Pairwise fun earlier later =>
      earlier.exceeds later = false := by
  refine List.pairwise_map.mpr (List.pairwise_lt_range.imp_of_mem ?_)
  intro earlier later hearlier hlater hlt
  rw [List.mem_range, Nat.lt_succ_iff] at hearlier hlater
  obtain ⟨before, hbefore⟩ := h.of_le hearlier
  obtain ⟨after, hafter⟩ := h.of_le hlater
  obtain ⟨first, hfirst, hchampion⟩ := hbefore.exists_champion
  obtain ⟨second, hsecond, hchampion'⟩ := hafter.exists_champion
  rw [hfirst, hsecond]
  -- The later champion has been measured against the earlier one.
  obtain ⟨hepoch, hmem⟩ := mem_chronicle.mp hchampion.mem
  exact hchampion'.not_exceeded hafter.defined
    (mem_chronicle.mpr ⟨by omega, hmem⟩)

/-! ## The result of a run -/

theorem Arrives.epoch_eq_target {reason : StopReason}
    (h : Arrives draws budget start epoch search)
    (hrunning : start.cancelled = false) (htarget : 0 < start.config.targets.epochs)
    (hreason : search.stopReason? = some reason) :
    epoch = start.config.targets.epochs ∧ reason = .epochTarget := by
  have hstops : ∀ {number : Nat} {before : Search σ},
      start.epochAt draws budget number = some before →
        before.stopReason? =
          if start.config.targets.epochs ≤ number then some .epochTarget else none := by
    intro number before hepoch
    obtain ⟨⟨hconfig, -⟩, hstill, hnumber⟩ := epochAt_keeps hepoch
    rw [stopReason?_eq (hstill.trans hrunning) (by rwa [hconfig]), hconfig, hnumber]
  have hle : epoch ≤ start.config.targets.epochs := by
    by_contra hlater
    obtain ⟨before, hbefore, hgoes⟩ :=
      h.going start.config.targets.epochs (Nat.lt_of_not_le hlater)
    rw [hstops hbefore, if_pos (Nat.le_refl _)] at hgoes
    cases hgoes
  rw [hstops h.epochAt_eq] at hreason
  split at hreason
  · rename_i hge
    cases hreason
    exact ⟨Nat.le_antisymm hle hge, rfl⟩
  · cases hreason

/-- Whatever the selection method and the draws, a run with an epoch target that
nobody asks to stop and that evaluates to defined scores alone ends at the target.
Each entry of its history is the highest fitness up to its epoch, and the best
chromosome is the first of the fittest in the order of epochs and members, with the
statistics that its pattern is evaluated to. -/
theorem result_is_record {config : SearchConfig} {automaton : Automaton}
    {width height : Nat} {source : σ} {last : Run σ} {result : SearchResult}
    (haccepted : ofAutomaton config automaton width height source = .ok start)
    (htarget : 0 < config.targets.epochs)
    (hrun : start.runWithin draws none budget = some (last, .ok result))
    (hdefined : ∀ epoch ≤ config.targets.epochs,
      ∀ member ∈ start.evaluatedIn draws budget epoch,
        member.fitness.isUndefined = false) :
    result.stats.stopReason = .epochTarget ∧
      result.stats.epochs = config.targets.epochs ∧
      result.history.best.length = config.targets.epochs + 1 ∧
      result.history.average.length = config.targets.epochs + 1 ∧
      result.stats.totalEvaluations =
        config.populationSize * (config.targets.epochs + 1) ∧
      (∀ epoch ≤ config.targets.epochs,
        (start.evaluatedIn draws budget epoch).length = config.populationSize ∧
        ∀ member ∈ start.evaluatedIn draws budget epoch,
          start.playOut.evaluateWithin budget member.pattern false =
            some (.ok member.stats)) ∧
      (result.history.best.Pairwise fun earlier later =>
        earlier.exceeds later = false) ∧
      (∀ epoch ≤ config.targets.epochs, ∃ peak,
        result.history.best[epoch]? = some peak ∧
        (∃ entry ∈ start.chronicle draws budget (epoch + 1),
          entry.2.fitness = peak) ∧
        ∀ entry ∈ start.chronicle draws budget (epoch + 1),
          entry.2.fitness.exceeds peak = false) ∧
      (∃ champion,
        IsChampion (start.chronicle draws budget (config.targets.epochs + 1))
          (result.best.epoch, champion) ∧
        result.best = champion.snapshot result.best.epoch width height ∧
        start.playOut.evaluateWithin budget result.best.pattern false =
          some (.ok result.best.stats)) ∧
      result.history.best.getLast? = some result.stats.bestFitness := by
  obtain ⟨hcheck, rfl⟩ := ofAutomaton_eq_ok haccepted
  have hsize : 0 < config.populationSize :=
    Nat.lt_of_lt_of_le Nat.two_pos (SearchConfig.check_eq_ok hcheck).1
  obtain ⟨epoch, final, reason, harrives, hreason, hresult⟩ :=
    exists_epochAt_of_runWithin rfl hrun
  have hchronicle : IsDefined ((created config automaton width height source).chronicle
      draws budget (config.targets.epochs + 1)) := fun entry hmem =>
    hdefined entry.1 (Nat.lt_succ_iff.mp (mem_chronicle.mp hmem).1) entry.2
      (mem_chronicle.mp hmem).2
  obtain ⟨rfl, rfl⟩ := harrives.epoch_eq_target rfl htarget hreason
  have hattains : Attains draws budget (created config automaton width height source)
      config.targets.epochs final := ⟨rfl, hsize, hchronicle, harrives.epochAt_eq⟩
  have hrecorded := hattains.recorded
  obtain ⟨htask, -, hnumber⟩ := epochAt_keeps harrives.epochAt_eq
  obtain ⟨⟨epoch, champion⟩, hleader, hchampion⟩ := hattains.exists_champion
  have hbest : final.best = some (epoch, champion) :=
    hrecorded.best_eq.trans hleader
  have hwinner : final.winner? = some (champion.snapshot epoch width height) := by
    rw [winner?, bestSnapshot?, hbest, htask.playOut]
    rfl
  rw [result?, bind_of_eq_some hwinner, Option.some.injEq] at hresult
  subst hresult
  have hpeaks : final.history.best =
      (created config automaton width height source).peaks draws budget
        (config.targets.epochs + 1) := hrecorded.history_eq
  refine ⟨rfl, hnumber, ?_, hrecorded.length_average,
    hrecorded.evaluations_eq, ?_, ?_, ?_, ?_, ?_⟩
  · dsimp only
    rw [hpeaks, peaks, List.length_map, List.length_range]
  · intro epoch hle
    obtain ⟨before, hbefore⟩ := hattains.of_le hle
    exact hbefore.evaluatedIn_complete
  · dsimp only
    rw [hpeaks]
    exact hattains.pairwise_peaks
  · intro epoch hle
    obtain ⟨before, hbefore⟩ := hattains.of_le hle
    obtain ⟨champion, hleader, hchampion⟩ := hbefore.exists_champion
    dsimp only
    rw [hpeaks, getElem?_peaks (Nat.lt_succ_of_le hle), hleader]
    exact ⟨champion.2.fitness, rfl, ⟨champion, hchampion.mem, rfl⟩, fun entry hmem =>
      hchampion.not_exceeded hbefore.defined hmem⟩
  · obtain ⟨hepoch, hmem⟩ := mem_chronicle.mp hchampion.mem
    obtain ⟨before, hbefore⟩ := hattains.of_le (Nat.lt_succ_iff.mp hepoch)
    exact ⟨champion, hchampion, rfl, hbefore.evaluatedIn_complete.2 champion hmem⟩
  · dsimp only
    rw [hpeaks, peaks, List.range_succ, List.map_append, List.map_singleton,
      List.getLast?_concat, hleader]
    rfl

def contestSearch : Search Unit :=
  created ⟨3, 0.5, 0.5, .tournament, .standard, ⟨2, 0, 2⟩, 0, 0.5, 0.5, none⟩
    trailSearch.playOut.automaton 2 2 ()

theorem result_is_record_contest :
    ∃ last result,
      contestSearch.runWithin evenDraws none 2 = some (last, .ok result) ∧
        result.stats.epochs = 2 ∧ result.stats.totalEvaluations = 9 ∧
        result.history.best.getLast? = some result.stats.bestFitness := by
  have haccepts : (ofAutomaton contestSearch.config contestSearch.playOut.automaton 2 2
      ()).isOk = true := by decide +kernel
  have hreturns : ((contestSearch.runWithin evenDraws none 2).any fun ended =>
      ended.2.isOk) = true := by decide +kernel
  have hdefined : ∀ epoch ≤ 2, ∀ member ∈ contestSearch.evaluatedIn evenDraws 2 epoch,
      member.fitness.isUndefined = false := by decide +kernel
  obtain ⟨search, haccepted⟩ := exists_ok_of_isOk haccepts
  obtain ⟨-, rfl⟩ := ofAutomaton_eq_ok haccepted
  obtain ⟨⟨last, outcome⟩, hrun, hok⟩ := (Option.any_eq_true _ _).mp hreturns
  obtain ⟨result, rfl⟩ := exists_ok_of_isOk hok
  obtain ⟨-, hepochs, -, -, hevaluations, -, -, -, -, hlast⟩ :=
    result_is_record haccepted (by decide) hrun hdefined
  exact ⟨last, result, hrun, hepochs, hevaluations, hlast⟩

end Cellular.Search
