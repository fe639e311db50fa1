import Cellular.Proofs.Search.Population

/-!
# Steady state

Steady state lists the members from the weakest to the fittest, those of one fitness in
the order they had (`exists_ascending`), and recombines the pairs with an unfit member
(`pairsRecombined_recombineUnfit`).  All other members are as they were, and so are all
statistics, while the genes stay in the population (`steadyState_conserves`).
-/

namespace Cellular.Selection

variable {σ : Type}

/-- A member with an index comes before another by its place or, the places being equal,
by its index. -/
def Trails (first second : Chromosome × Nat) : Prop :=
  first.1.fitness.place < second.1.fitness.place ∨
    first.1.fitness.place = second.1.fitness.place ∧ first.2 < second.2

instance (first second : Chromosome × Nat) : Decidable (Trails first second) :=
  inferInstanceAs (Decidable (_ ∨ _))

instance : Std.Asymm Trails where
  asymm first second h h' := by
    unfold Trails at h h'
    omega

theorem exists_ascending (population : List Chromosome) :
    ∃ sorted : List (Chromosome × Nat), sorted.Perm population.zipIdx ∧
      sorted.Pairwise Trails ∧ ascending population = sorted.map Prod.fst := by
  refine ⟨population.zipIdx.mergeSort (List.zipIdxLE fun first second : Chromosome =>
    decide (first.fitness.place ≤ second.fitness.place)), List.mergeSort_perm _ _, ?_,
    List.mergeSort_zipIdx.symm⟩
  refine (pairwise_mergeSort_zipIdx ?_ ?_ population).imp ?_
  · intro first second third h h'
    rw [decide_eq_true_eq] at *
    exact Int.le_trans h h'
  · intro first second
    rw [Bool.or_eq_true, decide_eq_true_eq, decide_eq_true_eq]
    exact Int.le_total _ _
  · rintro first second ⟨hle, hback⟩
    rw [decide_eq_true_eq] at hle hback
    rcases Int.lt_or_eq_of_le hle with hlt | heq
    · exact .inl hlt
    · exact .inr ⟨heq, hback (Int.le_of_eq heq.symm)⟩

/-- Whatever is drawn, steady state lists the members in the total order of their fitness,
equal ones in the order of their indices, with their statistics.  A member is unchanged
if neither of its pair is among the unfit, or if it is the last of an odd number.  Two
members side by side are as they were or have a segment exchanged; so at every index the
genes of a pair are those it had, and the genes of the population are those it had. -/
theorem steadyState_conserves (draws : Draws σ) (source : σ) (rate fraction : Float)
    (population : List Chromosome) :
    ∃ (sorted : List (Chromosome × Nat)) (after : List Chromosome),
      (steadyState draws source rate fraction population).1 = after ∧
      sorted.Perm population.zipIdx ∧ sorted.Pairwise Trails ∧
      after.map Chromosome.stats = sorted.map (fun member => member.1.stats) ∧
      (∀ index, (∀ other, other / 2 = index / 2 →
          unfitCount population.length fraction ≤ other) ∨
          index + 1 = population.length ∧ population.length % 2 = 1 →
        after[index]? = sorted[index]?.map Prod.fst) ∧
      (∀ pair left right, sorted[2 * pair]? = some left →
        sorted[2 * pair + 1]? = some right →
        ∃ left' right', after[2 * pair]? = some left' ∧
          after[2 * pair + 1]? = some right' ∧
          Chromosome.Recombined left.1 right.1 left' right') ∧
      (∀ pair index, (genesAt index (pairAt pair after)).Perm
        (genesAt index (pairAt pair (sorted.map Prod.fst)))) ∧
      ∀ index, (genesAt index after).Perm (genesAt index population) := by
  obtain ⟨sorted, hperm, hsorted, hascending⟩ := exists_ascending population
  have hpairs : PairsRecombined (unfitCount population.length fraction) 0
      (ascending population) (steadyState draws source rate fraction population).1 :=
    pairsRecombined_recombineUnfit draws rate _ 0 (ascending population) source
  have hlength : (ascending population).length = population.length :=
    (ascending_perm population).length_eq
  refine ⟨sorted, _, rfl, hperm, hsorted, ?_, ?_, ?_, ?_, ?_⟩
  · rw [hpairs.stats_eq, hascending, List.map_map]
    rfl
  · intro index hspared
    rw [← List.getElem?_map, ← hascending]
    rcases hspared with hfit | ⟨hlast, hodd⟩
    · exact hpairs.getElem?_eq_of_bound_le ((Nat.zero_add _).symm ▸ hfit _ (by omega))
    · have hindex : index = (ascending population).length - 1 := by omega
      rw [hindex]
      exact hpairs.getElem?_eq_of_unpaired (hlength.symm ▸ hodd)
  · intro pair left right hleft hright
    refine hpairs.exists_pair ?_ ?_
    · rw [hascending, List.getElem?_map, hleft]
      rfl
    · rw [hascending, List.getElem?_map, hright]
      rfl
  · intro pair index
    rw [← hascending]
    exact (hpairs.pairAt pair).genes_perm index
  · intro index
    exact (hpairs.genes_perm index).trans ((ascending_perm population).filterMap _)

/-- Five members, of which the second and the fourth are the weakest. -/
def contenders : List Chromosome :=
  [⟨[⟨1⟩, ⟨1⟩, ⟨1⟩], ⟨4, 1, 3, .ofFloat 3.0⟩⟩, ⟨[⟨2⟩, ⟨2⟩, ⟨2⟩], ⟨1, 1, 3, .ofFloat 1.0⟩⟩,
    ⟨[⟨3⟩, .free, ⟨3⟩], ⟨2, 2, 2, .ofFloat 2.0⟩⟩,
    ⟨[.free, .free, .free], ⟨1, 0, 0, .ofFloat 1.0⟩⟩,
    ⟨[.free, ⟨4⟩, .free], ⟨9, 1, 1, .ofFloat 5.0⟩⟩]

theorem steadyState_conserves_contenders :
    ∃ after, (steadyState Search.evenDraws () 1.0 0.1 contenders).1 = after ∧
      after.map Chromosome.fitness =
        [.ofFloat 1.0, .ofFloat 1.0, .ofFloat 2.0, .ofFloat 3.0, .ofFloat 5.0] ∧
      after[4]? = contenders[4]? ∧
      (∃ left' right', after[0]? = some left' ∧ after[1]? = some right' ∧
        Chromosome.Recombined ⟨[⟨2⟩, ⟨2⟩, ⟨2⟩], ⟨1, 1, 3, .ofFloat 1.0⟩⟩
          ⟨[.free, .free, .free], ⟨1, 0, 0, .ofFloat 1.0⟩⟩ left' right') ∧
      ∀ index, (genesAt index after).Perm (genesAt index contenders) := by
  obtain ⟨sorted, after, hafter, hperm, hsorted, hstats, hspared, hpair, -, hgenes⟩ :=
    steadyState_conserves Search.evenDraws () 1.0 0.1 contenders
  -- There is one list of all members that is in the order of fitness.
  obtain rfl : sorted = [1, 3, 2, 0, 4].filterMap (contenders.zipIdx[·]?) := by
    refine List.Perm.eq_of_pairwise (fun first second _ _ h h' =>
      absurd h' (Std.Asymm.asymm _ _ h)) hsorted (by decide +kernel) (hperm.trans ?_)
    decide +kernel
  have hfitness := congrArg (List.map ChromosomeStats.fitness) hstats
  rw [List.map_map] at hfitness
  exact ⟨after, hafter, hfitness, hspared 4 (.inr (by decide)), hpair 0 _ _ rfl rfl, hgenes⟩

end Cellular.Selection
