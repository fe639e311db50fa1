import Cellular.Proofs.Automaton.Running
import Cellular.Proofs.Search.PlayOut
import Cellular.Proofs.Search.Selection
import Cellular.Search.Engine

/-!
# The stages of an epoch

Evaluation leaves the patterns as they are and records the live cells of the
grids they stand for, and with a generation target it comes to an end
(`exists_evaluateAll`).  Crossover and mutation keep the size of the
population: the elites, the pairs and an odd last member are never too few, and
what is too many is cut off (`length_crossoverStage`).
-/

namespace Cellular

variable {σ : Type} {draws : Draws σ} {source after : σ}

/-! ## Evaluation -/

namespace PlayOut

variable {playOut : PlayOut} {budget : Nat} {cancelled : Bool}
  {chromosome evaluated : Chromosome}

theorem evaluateChromosome_eq_ok
    (h : playOut.evaluateChromosome budget cancelled chromosome = some (.ok evaluated)) :
    evaluated.pattern = chromosome.pattern ∧
      evaluated.stats.initialSize =
        (Grid.ofPattern playOut.width playOut.height chromosome.pattern).liveCount := by
  obtain ⟨stats, hstats, rfl⟩ := evaluateChromosome_eq_ok_iff.mp h
  obtain ⟨hfits, -⟩ := exists_playFrom_of_evaluateWithin hstats
  rw [evaluateWithin_eq hfits] at hstats
  obtain ⟨played, -, hstats⟩ := Option.bind_eq_some_iff.mp hstats
  cases played with
  | error error => cases hstats
  | ok trajectory =>
      obtain ⟨found, hfound, hstats⟩ := Option.bind_eq_some_iff.mp hstats
      cases hstats
      unfold statsOf? at hfound
      obtain ⟨score, -, hfound⟩ := Option.bind_eq_some_iff.mp hfound
      cases hfound
      exact ⟨rfl, rfl⟩

theorem exists_evaluateAll (hsound : playOut.automaton.IsSound)
    (hextents : Manageable playOut.width playOut.height)
    (htarget : 0 < playOut.targets.generations)
    (hbudget : playOut.targets.generations ≤ budget) (population : List Chromosome) :
    ∃ members, playOut.evaluateAll budget false population = some (.ok members) := by
  simp only [evaluateAll_eq_ok_iff]
  refine exists_forall₂ fun member _ => ?_
  obtain ⟨stats, hstats⟩ := exists_evaluateWithin hsound.not_isForeign hextents htarget
    hbudget member.pattern
  exact ⟨_, evaluateChromosome_eq_ok_iff.mpr ⟨stats, hstats, rfl⟩⟩

end PlayOut

/-! ## Recombination -/

namespace Search

open Chromosome

variable {rate : Float} {size area states spared : Nat}
  {population elites selected : List Chromosome}

theorem length_recombinePairs (draws : Draws σ) (rate : Float) (size : Nat) :
    ∀ (taken : Nat) (selected : List Chromosome) (source : σ),
      size ≤ taken +
          (recombinePairs draws rate size taken selected source).1.length ∨
        (recombinePairs draws rate size taken selected source).1.length +
          selected.length % 2 = selected.length
  | _, [], _ => by simp [recombinePairs]
  | _, [_], _ => by simp [recombinePairs]
  | taken, first :: second :: others, source => by
      have hrest := length_recombinePairs draws rate size (taken + 2) others
        (recombine draws rate true source first second).2
      simp only [recombinePairs]
      split
      · rename_i hfull
        exact Or.inl hfull
      · simp only [List.length_cons]
        omega

theorem fits_recombinePairs : ∀ (taken : Nat) (selected : List Chromosome)
    (source : σ), (∀ member ∈ selected, member.Fits area states) →
      ∀ member ∈ (recombinePairs draws rate size taken selected source).1,
        member.Fits area states
  | _, [], _, _ => by simp [recombinePairs]
  | _, [_], _, _ => by simp [recombinePairs]
  | taken, first :: second :: others, source, h => by
      simp only [List.forall_mem_cons] at h
      obtain ⟨hfirst, hsecond, hothers⟩ := h
      have hpair := (recombined_recombine draws rate true source first second).fits hfirst
        hsecond
      simp only [recombinePairs]
      split
      · simpa using hpair
      · simp only [List.forall_mem_cons]
        exact ⟨hpair.1, hpair.2, fits_recombinePairs (taken + 2) others _ hothers⟩

theorem length_crossoverStage (h : selected.length = size) :
    (crossoverStage draws source rate size elites selected).1.length = size := by
  have hpairs := length_recombinePairs draws rate size elites.length selected source
  have hodd : selected.length % 2 ≤ (if selected.length % 2 = 1 then
      selected.getLast?.toList else []).length := by
    split
    · rename_i hodd
      have hsome : selected ≠ [] := by
        rintro rfl
        cases hodd
      simp [List.getLast?_eq_some_getLast hsome, hodd]
    · omega
  simp only [crossoverStage, List.length_take, List.length_append]
  omega

theorem fits_crossoverStage (helites : ∀ member ∈ elites, member.Fits area states)
    (hselected : ∀ member ∈ selected, member.Fits area states) :
    ∀ member ∈ (crossoverStage draws source rate size elites selected).1,
      member.Fits area states := by
  intro member hmem
  simp only [crossoverStage] at hmem
  rcases List.mem_append.mp (List.mem_of_mem_take hmem) with hfront | hodd
  · rcases List.mem_append.mp hfront with helite | hpair
    · exact helites member helite
    · exact fits_recombinePairs _ selected source hselected member hpair
  · split at hodd
    · exact hselected member (List.mem_of_mem_getLast? (by simpa using hodd))
    · cases hodd

/-! ## Mutation -/

theorem length_mutateEach :
    (mutateEach draws rate states population source).1.length =
      population.length := by
  induction population generalizing source with
  | nil => rfl
  | cons chromosome others ih => simp [mutateEach, ih]

theorem fits_mutateEach (h : ∀ member ∈ population, member.Fits area states) :
    ∀ member ∈ (mutateEach draws rate states population source).1,
      member.Fits area states := by
  induction population generalizing source with
  | nil => exact h
  | cons chromosome others ih =>
      rw [List.forall_mem_cons] at h
      simp only [mutateEach, List.forall_mem_cons]
      exact ⟨h.1.mutate, ih h.2⟩

theorem length_mutationStage :
    (mutationStage draws source rate states spared population).1.length =
      population.length := by
  simp only [mutationStage, List.length_append, length_mutateEach,
    List.length_take, List.length_drop]
  omega

theorem fits_mutationStage (h : ∀ member ∈ population, member.Fits area states) :
    ∀ member ∈ (mutationStage draws source rate states spared population).1,
      member.Fits area states := by
  simp only [mutationStage, List.forall_mem_append]
  exact ⟨fun member hmem => h member (List.mem_of_mem_take hmem),
    fits_mutateEach fun member hmem => h member (List.mem_of_mem_drop hmem)⟩

end Search

end Cellular
