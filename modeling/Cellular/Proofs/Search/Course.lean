import Cellular.Proofs.Search.Champion
import Cellular.Proofs.Search.Population

/-!
# The course of a search

Without a request to stop a search goes from one evaluated epoch to the next, for as
long as no stage fails (`epochAt`).  Whatever a step from epoch to epoch preserves
holds when a run returns (`Run.epochs_induct`), and a run that nobody asks to stop
returns what its last epoch comes to (`exists_epochAt_of_runWithin`).
-/

namespace Cellular

theorem SearchConfig.check_eq_ok {config : SearchConfig} (h : config.check = .ok ()) :
    2 ≤ config.populationSize ∧
      (config.selection = .elitism → config.elites < config.populationSize) := by
  unfold check at h
  simp only at h
  by_cases hsize : config.populationSize < 2
  · rw [if_pos hsize] at h
    cases h
  rw [if_neg hsize] at h
  simp only [bind_eq_ok_iff] at h
  obtain ⟨_, -, _, -, _, -, _, -, _, -, _, -, _, -, h⟩ := h
  by_cases htargets : config.targets.generations = 0 ∧ config.targets.population = 0
  · rw [if_pos htargets] at h
    cases h
  rw [if_neg htargets] at h
  by_cases helites : config.selection = .elitism ∧ config.populationSize ≤ config.elites
  · rw [if_pos helites] at h
    cases h
  exact ⟨Nat.le_of_not_lt hsize, fun hmethod =>
    Nat.lt_of_not_le fun hmany => helites ⟨hmethod, hmany⟩⟩

namespace Search

variable {σ : Type} {draws : Draws σ} {budget : Nat} {search after : Search σ}

theorem ofAutomaton_eq_ok {config : SearchConfig} {automaton : Automaton}
    {width height : Nat} {source : σ}
    (h : ofAutomaton config automaton width height source = .ok search) :
    config.check = .ok () ∧ search = created config automaton width height source := by
  unfold ofAutomaton at h
  split at h
  · cases h
  · rename_i hcheck
    split at h
    · cases h
    · split at h
      · cases h
      · split at h
        · cases h
        · cases h
          exact ⟨hcheck, rfl⟩

/-! ## Epochs -/

def firstEpoch (draws : Draws σ) (budget : Nat) (search : Search σ) :
    Option (Search σ) := do
  let populated ← { search with phase := .initializing }.populate draws
  let evaluated ← (← populated.evaluateWithin budget).toOption
  some evaluated.updateBest

def nextEpoch (draws : Draws σ) (budget : Nat) (search : Search σ) :
    Option (Search σ) := do
  let reproduced ← search.reproduce draws
  let evaluated ← (← reproduced.evaluateWithin budget).toOption
  some { evaluated with epoch := evaluated.epoch + 1 }.updateBest

/-- The search once an epoch is evaluated and on record. -/
def epochAt (draws : Draws σ) (budget : Nat) (search : Search σ) :
    Nat → Option (Search σ)
  | 0 => search.firstEpoch draws budget
  | epoch + 1 => (search.epochAt draws budget epoch).bind (nextEpoch draws budget)

def evaluatedIn (draws : Draws σ) (budget : Nat) (search : Search σ) (epoch : Nat) :
    List Chromosome :=
  ((search.epochAt draws budget epoch).map population).getD []

/-- Everything that is evaluated before an epoch, in the order of the epochs and of
the members of each. -/
def chronicle (draws : Draws σ) (budget : Nat) (search : Search σ) (epochs : Nat) :
    List Entry :=
  (List.range epochs).flatMap fun epoch =>
    (search.evaluatedIn draws budget epoch).map (epoch, ·)

theorem evaluatedIn_eq {epoch : Nat}
    (h : search.epochAt draws budget epoch = some after) :
    search.evaluatedIn draws budget epoch = after.population := by
  rw [evaluatedIn, h]
  rfl

theorem chronicle_succ (draws : Draws σ) (budget : Nat) (search : Search σ)
    (epochs : Nat) :
    search.chronicle draws budget (epochs + 1) =
      search.chronicle draws budget epochs ++
        (search.evaluatedIn draws budget epochs).map (epochs, ·) := by
  rw [chronicle, List.range_succ, List.flatMap_append, List.flatMap_singleton]
  rfl

theorem mem_chronicle {epochs : Nat} {entry : Entry} :
    entry ∈ search.chronicle draws budget epochs ↔
      entry.1 < epochs ∧ entry.2 ∈ search.evaluatedIn draws budget entry.1 := by
  obtain ⟨epoch, member⟩ := entry
  simp only [chronicle, List.mem_flatMap, List.mem_range, List.mem_map, Prod.mk.injEq]
  constructor
  · rintro ⟨epoch, hepoch, member, hmem, rfl, rfl⟩
    exact ⟨hepoch, hmem⟩
  · rintro ⟨hepoch, hmem⟩
    exact ⟨epoch, hepoch, member, hmem, rfl, rfl⟩

/-- A search at an epoch, none of the epochs before having been the last. -/
structure Arrives (draws : Draws σ) (budget : Nat) (start : Search σ) (epoch : Nat)
    (search : Search σ) : Prop where
  epochAt_eq : start.epochAt draws budget epoch = some search
  going : ∀ earlier < epoch, ∃ before,
    start.epochAt draws budget earlier = some before ∧ before.stopReason? = none

theorem toOption_eq_some {ε α : Type} {outcome : Except ε α} {value : α} :
    outcome.toOption = some value ↔ outcome = .ok value := by
  cases outcome <;> simp [Except.toOption]

theorem firstEpoch_eq_some_iff :
    search.firstEpoch draws budget = some after ↔
      ∃ populated evaluated,
        { search with phase := .initializing }.populate draws = some populated ∧
        populated.evaluateWithin budget = some (.ok evaluated) ∧
        evaluated.updateBest = after := by
  simp [firstEpoch, Option.bind_eq_some_iff, toOption_eq_some]

theorem nextEpoch_eq_some_iff :
    search.nextEpoch draws budget = some after ↔
      ∃ reproduced evaluated, search.reproduce draws = some reproduced ∧
        reproduced.evaluateWithin budget = some (.ok evaluated) ∧
        { evaluated with epoch := evaluated.epoch + 1 }.updateBest = after := by
  simp [nextEpoch, Option.bind_eq_some_iff, toOption_eq_some]

theorem firstEpoch_keeps (h : search.firstEpoch draws budget = some after) :
    after.SameTask search ∧ after.cancelled = search.cancelled ∧ after.epoch = 0 := by
  obtain ⟨populated, evaluated, hpopulated, hevaluated, rfl⟩ := firstEpoch_eq_some_iff.mp h
  obtain ⟨-, rfl⟩ := populate_eq_some_iff.mp hpopulated
  obtain ⟨population, -, rfl⟩ := evaluateWithin_eq_ok_iff.mp hevaluated
  obtain ⟨⟨hconfig, hplayOut⟩, -⟩ := updateBest_keeps (takeEvaluated _ population)
  exact ⟨⟨hconfig, hplayOut⟩, cancelled_updateBest _, epoch_updateBest _⟩

theorem nextEpoch_keeps (h : search.nextEpoch draws budget = some after) :
    after.SameTask search ∧ after.cancelled = search.cancelled ∧
      after.epoch = search.epoch + 1 := by
  obtain ⟨reproduced, evaluated, hreproduced, hevaluated, rfl⟩ := nextEpoch_eq_some_iff.mp h
  obtain ⟨⟨bred, source⟩, -, hbred⟩ := Option.bind_eq_some_iff.mp hreproduced
  cases hbred
  obtain ⟨population, -, rfl⟩ := evaluateWithin_eq_ok_iff.mp hevaluated
  refine ⟨?_, cancelled_updateBest _, epoch_updateBest _⟩
  obtain ⟨⟨hconfig, hplayOut⟩, -⟩ := updateBest_keeps
    { takeEvaluated { search with
        population := bred, source := source, phase := .reproducing } population with
      epoch := search.epoch + 1 }
  exact ⟨hconfig, hplayOut⟩

theorem Arrives.next {start : Search σ} {epoch : Nat}
    (h : Arrives draws budget start epoch search) (hgoes : search.stopReason? = none)
    (hnext : search.nextEpoch draws budget = some after) :
    Arrives draws budget start (epoch + 1) after where
  epochAt_eq := by rw [epochAt, h.epochAt_eq, Option.bind_some, hnext]
  going earlier hearlier := by
    rcases Nat.lt_succ_iff_lt_or_eq.mp hearlier with hbefore | rfl
    · exact h.going earlier hbefore
    · exact ⟨search, h.epochAt_eq, hgoes⟩

/-! ## Runs -/

theorem running_of_stopReason? (h : search.stopReason? = none) :
    search.cancelled = false := by
  unfold stopReason? at h
  split at h
  · cases h
  · rename_i hrunning
    exact Bool.not_eq_true _ ▸ hrunning

theorem stopReason?_eq (hrunning : search.cancelled = false)
    (htarget : 0 < search.config.targets.epochs) :
    search.stopReason? =
      if search.config.targets.epochs ≤ search.epoch then some .epochTarget else none := by
  simp [stopReason?, hrunning, Nat.ne_of_gt htarget]

theorem halt_eq_none {run : Run σ} (h : run.search.cancelled = false) :
    run.halt = none := by
  rw [Run.halt, h]
  rfl

/-- What every step from an epoch to the next preserves holds of a run that comes to
a reason to stop. -/
theorem Run.epochs_induct {cancelAt : Option Nat} {motive : Run σ → Prop}
    (hstep : ∀ (run : Run σ) (next : Search σ), motive run →
      run.search.stopReason? = none → run.search.nextEpoch draws budget = some next →
      motive ({ run with search := next }.report cancelAt))
    {fuel : Nat} {run last : Run σ} {reason : StopReason} (h : motive run)
    (hlast : Run.epochs draws cancelAt budget fuel run = some (last, .ok reason)) :
    motive last ∧ last.search.stopReason? = some reason := by
  induction fuel generalizing run with
  | zero => cases hlast
  | succ fuel ih =>
      rw [Run.epochs] at hlast
      split at hlast
      · rename_i hreason
        cases hlast
        exact ⟨h, hreason⟩
      · rename_i hgoing
        have hrunning := running_of_stopReason? hgoing
        -- Nobody has asked to stop, so a stage that does not end is no result.
        split at hlast
        · rw [halt_eq_none hrunning] at hlast
          cases hlast
        · rename_i reproduced hreproduced
          have hkept := (reproduce_keeps hreproduced).2
          split at hlast
          · cases hlast
          · rw [halt_eq_none (hkept.trans hrunning)] at hlast
            cases hlast
          · cases hlast
          · rename_i evaluated hevaluated
            exact ih (hstep run _ h hgoing (nextEpoch_eq_some_iff.mpr
              ⟨_, _, hreproduced, hevaluated, rfl⟩)) hlast

theorem runFrom_eq_ok {cancelAt : Option Nat} {run last : Run σ} {reason : StopReason}
    (h : runFrom draws cancelAt budget run = some (last, .ok reason)) :
    (run.search.cancelled = true ∧ last = run) ∨
      ∃ evaluated, run.search.evaluateWithin budget = some (.ok evaluated) ∧
        Run.epochs draws cancelAt budget (budget + 1)
          ({ run with search := evaluated.updateBest }.report cancelAt) =
            some (last, .ok reason) := by
  unfold runFrom at h
  split at h
  · cases h
  · rw [Run.halt, Option.ite_none_right_eq_some] at h
    obtain ⟨hcancelled, h⟩ := h
    cases h
    exact Or.inl ⟨hcancelled, rfl⟩
  · cases h
  · rename_i evaluated hevaluated
    exact Or.inr ⟨evaluated, hevaluated, h⟩

theorem runWithin_eq_ok {cancelAt : Option Nat} {last : Run σ} {result : SearchResult}
    (h : search.runWithin draws cancelAt budget = some (last, .ok result)) :
    ∃ populated ended reason,
      { search with phase := .initializing }.populate draws = some populated ∧
      runFrom draws cancelAt budget (Run.report ⟨populated, []⟩ cancelAt) =
        some (ended, .ok reason) ∧
      last = Run.report
        { ended with search := { ended.search with phase := finalPhase reason } }
        cancelAt ∧
      last.search.result? reason = some result := by
  simp only [runWithin, Option.bind_eq_bind, Option.bind_eq_some_iff] at h
  obtain ⟨populated, hpopulated, ⟨ended, outcome⟩, hended, h⟩ := h
  cases outcome with
  | error error => cases h
  | ok reason =>
      obtain ⟨found, hfound, h⟩ := Option.bind_eq_some_iff.mp h
      cases h
      exact ⟨populated, ended, reason, hpopulated, hended, rfl, hfound⟩

theorem search_report_none (run : Run σ) : (run.report none).search = run.search := by
  simp [Run.report]

/-- What a run returns is what the last epoch comes to, the first one with a reason
to stop. -/
theorem exists_epochAt_of_runWithin {last : Run σ} {result : SearchResult}
    (hrunning : search.cancelled = false)
    (h : search.runWithin draws none budget = some (last, .ok result)) :
    ∃ epoch final reason, Arrives draws budget search epoch final ∧
      final.stopReason? = some reason ∧ final.result? reason = some result := by
  obtain ⟨populated, ended, reason, hpopulated, hrun, rfl, hresult⟩ := runWithin_eq_ok h
  rcases runFrom_eq_ok hrun with ⟨hcancelled, -⟩ | ⟨evaluated, hevaluated, hepochs⟩
  · rw [search_report_none] at hcancelled
    cases hrunning.symm.trans ((populate_keeps hpopulated).2.symm.trans hcancelled)
  rw [search_report_none] at hevaluated
  obtain ⟨⟨epoch, harrives⟩, hreason⟩ :
      (∃ epoch, Arrives draws budget search epoch ended.search) ∧
        ended.search.stopReason? = some reason := by
    refine Run.epochs_induct (motive := fun run =>
      ∃ epoch, Arrives draws budget search epoch run.search) ?_ ?_ hepochs
    · rintro run next ⟨epoch, harrives⟩ hgoes hnext
      rw [search_report_none]
      exact ⟨epoch + 1, harrives.next hgoes hnext⟩
    · rw [search_report_none]
      exact ⟨0, firstEpoch_eq_some_iff.mpr ⟨_, _, hpopulated, hevaluated, rfl⟩, nofun⟩
  rw [search_report_none] at hresult
  exact ⟨epoch, ended.search, reason, harrives, hreason, hresult⟩

/-! ## Runs that return -/

/-- Nobody stops the search, and all that its stages do comes to an end: every play-out is
done within the budget, and no selection waits for coins to fall. -/
structure Ends (budget : Nat) (search : Search σ) : Prop where
  sound : search.playOut.automaton.IsSound
  extents : Manageable search.playOut.width search.playOut.height
  target : 0 < search.playOut.targets.generations
  fits : search.playOut.targets.generations ≤ budget
  method : search.config.selection ≠ .random
  running : search.cancelled = false

theorem Ends.congr (h : Ends budget search) (htask : after.SameTask search)
    (hrunning : after.cancelled = search.cancelled) : Ends budget after := by
  obtain ⟨hsound, hextents, htarget, hfits, hmethod, hstill⟩ := h
  rw [← htask.playOut] at hsound hextents htarget hfits
  rw [← htask.config] at hmethod
  exact ⟨hsound, hextents, htarget, hfits, hmethod, hrunning.trans hstill⟩

theorem Ends.exists_evaluateWithin (h : Ends budget search) :
    ∃ after, search.evaluateWithin budget = some (.ok after) :=
  Search.exists_evaluateWithin h.sound h.extents h.target h.fits h.running

theorem Ends.exists_firstEpoch (h : Ends budget search) (draws : Draws σ) :
    ∃ next, search.firstEpoch draws budget = some next := by
  have hstart : Ends budget { search with phase := .initializing } := h.congr ⟨rfl, rfl⟩ rfl
  obtain ⟨populated, hpopulated⟩ := exists_populate draws hstart.extents.area_lt
  obtain ⟨htask, hrunning⟩ := populate_keeps hpopulated
  obtain ⟨evaluated, hevaluated⟩ := (hstart.congr htask hrunning).exists_evaluateWithin
  exact ⟨_, firstEpoch_eq_some_iff.mpr ⟨_, _, hpopulated, hevaluated, rfl⟩⟩

theorem Ends.exists_nextEpoch (h : Ends budget search) (draws : Draws σ) :
    ∃ next, search.nextEpoch draws budget = some next := by
  obtain ⟨reproduced, hreproduced⟩ := exists_reproduce draws h.running h.method
  obtain ⟨htask, hrunning⟩ := reproduce_keeps hreproduced
  obtain ⟨evaluated, hevaluated⟩ := (h.congr htask hrunning).exists_evaluateWithin
  exact ⟨_, nextEpoch_eq_some_iff.mpr ⟨_, _, hreproduced, hevaluated, rfl⟩⟩

theorem epochs_of_nextEpoch {cancelAt : Option Nat} {fuel : Nat} {run : Run σ}
    {next : Search σ} (hgoes : run.search.stopReason? = none)
    (hnext : run.search.nextEpoch draws budget = some next) :
    Run.epochs draws cancelAt budget (fuel + 1) run =
      Run.epochs draws cancelAt budget fuel
        ({ run with search := next }.report cancelAt) := by
  obtain ⟨reproduced, evaluated, hreproduced, hevaluated, rfl⟩ :=
    nextEpoch_eq_some_iff.mp hnext
  rw [Run.epochs]
  simp only [hgoes, hreproduced, hevaluated]

theorem Ends.exists_epochs {fuel : Nat} (h : Ends budget search) (draws : Draws σ)
    (htarget : 0 < search.config.targets.epochs)
    (hle : search.epoch ≤ search.config.targets.epochs)
    (hfuel : search.config.targets.epochs < search.epoch + fuel) {run : Run σ}
    (hsearch : run.search = search) :
    ∃ last reason, Run.epochs draws none budget fuel run = some (last, .ok reason) ∧
      last.search.SameTask search := by
  induction fuel generalizing search run with
  | zero => omega
  | succ fuel ih =>
      subst hsearch
      have hstops := stopReason?_eq h.running htarget
      split at hstops
      · exact ⟨run, .epochTarget, by rw [Run.epochs, hstops], rfl, rfl⟩
      · obtain ⟨next, hnext⟩ := h.exists_nextEpoch draws
        obtain ⟨htask, hrunning, hepoch⟩ := nextEpoch_keeps hnext
        obtain ⟨last, reason, hlast, hsame⟩ := ih (h.congr htask hrunning)
          (by rwa [htask.config]) (by rw [htask.config]; omega) (by rw [htask.config]; omega)
          (search_report_none { run with search := next })
        exact ⟨last, reason, (epochs_of_nextEpoch hstops hnext).trans hlast,
          hsame.trans htask⟩

theorem exists_result? (h : search.area < Word.modulus) (reason : StopReason) :
    ∃ result, search.result? reason = some result := by
  have hwinner : ∃ best, search.winner? = some best := by
    unfold winner?
    split
    · exact ⟨_, rfl⟩
    · exact ⟨_, bind_of_eq_some (area?_eq_some h) _⟩
  obtain ⟨best, hbest⟩ := hwinner
  exact ⟨_, bind_of_eq_some hbest _⟩

/-- A run with a target that nobody stops returns if its stages end and there is budget for
all epochs. -/
theorem Ends.exists_runWithin (h : Ends budget search) (draws : Draws σ)
    (htarget : 0 < search.config.targets.epochs)
    (hfuel : search.config.targets.epochs ≤ budget) :
    ∃ last result, search.runWithin draws none budget = some (last, .ok result) := by
  obtain ⟨first, hfirst⟩ := h.exists_firstEpoch draws
  obtain ⟨htask, hrunning, hepoch⟩ := firstEpoch_keeps hfirst
  obtain ⟨populated, evaluated, hpopulated, hevaluated, rfl⟩ :=
    firstEpoch_eq_some_iff.mp hfirst
  obtain ⟨ended, reason, hended, hsame⟩ := (h.congr htask hrunning).exists_epochs draws
    (by rwa [htask.config]) (by rw [hepoch]; exact Nat.zero_le _)
    (by rw [htask.config, hepoch, Nat.zero_add]; exact Nat.lt_succ_of_le hfuel)
    (search_report_none { Run.report ⟨populated, []⟩ none with
      search := evaluated.updateBest })
  have hrun : runFrom draws none budget (Run.report ⟨populated, []⟩ none) =
      some (ended, .ok reason) := by
    rw [runFrom, search_report_none, hevaluated]
    exact hended
  have hresult : ∃ result, (Run.report { ended with
      search := { ended.search with phase := finalPhase reason } } none).search.result?
        reason = some result := by
    refine exists_result? ?_ reason
    rw [search_report_none, area, hsame.playOut, htask.playOut]
    exact h.extents.area_lt
  obtain ⟨result, hresult⟩ := hresult
  exact ⟨_, result, (bind_of_eq_some hpopulated _).trans
    ((bind_of_eq_some hrun _).trans (bind_of_eq_some hresult _))⟩

end Search

end Cellular
