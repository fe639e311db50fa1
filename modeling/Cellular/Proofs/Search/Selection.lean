import Cellular.Proofs.Search.Recombination
import Cellular.Search.Selection

/-!
# Selection keeps the size

Every method but steady state takes as many members from a population as it has
(`ChosenFrom`).  Steady state sorts the members and recombines some of them, and
random selection may not come to an end.  Whatever is selected has the size of the
population, and its members fit if those of the population do
(`select_eq_some`).
-/

namespace Cellular.Selection

variable {σ : Type} {draws : Draws σ} {source after : σ}
  {population members chosen : List Chromosome}

structure ChosenFrom (population chosen : List Chromosome) : Prop where
  length_eq : chosen.length = population.length
  subset : chosen ⊆ population

theorem ChosenFrom.of_perm (h : chosen.Perm population) :
    ChosenFrom population chosen :=
  ⟨h.length_eq, h.subset⟩

theorem ascending_perm (population : List Chromosome) :
    (ascending population).Perm population :=
  List.mergeSort_perm _ _

/-- A stable sort puts what comes first in the order in front and, of what comes to the
same in it, what has the smaller index. -/
theorem pairwise_mergeSort_zipIdx {α : Type} {le : α → α → Bool}
    (htrans : ∀ first second third, le first second → le second third → le first third)
    (htotal : ∀ first second, le first second || le second first) (items : List α) :
    (items.zipIdx.mergeSort (List.zipIdxLE le)).Pairwise fun first second =>
      le first.1 second.1 = true ∧ (le second.1 first.1 = true → first.2 < second.2) := by
  have hsorted := List.pairwise_mergeSort (List.zipIdxLE_trans htrans)
    (List.zipIdxLE_total htotal) items.zipIdx
  have hperm := List.mergeSort_perm items.zipIdx (List.zipIdxLE le)
  have hdistinct : (items.zipIdx.mergeSort (List.zipIdxLE le)).Pairwise
      fun first second => first.2 ≠ second.2 := by
    refine List.pairwise_map.mp ((hperm.map Prod.snd).nodup_iff.mpr ?_)
    rw [List.zipIdx_map_snd]
    exact List.nodup_range'
  refine (hsorted.and hdistinct).imp ?_
  rintro first second ⟨hle, hne⟩
  unfold List.zipIdxLE at hle
  split at hle
  · rename_i hfirst
    refine ⟨hfirst, fun hback => ?_⟩
    rw [if_pos hback, decide_eq_true_eq] at hle
    exact Nat.lt_of_le_of_ne hle hne
  · cases hle

theorem elites_subset (population : List Chromosome) (count : Nat) :
    elites population count ⊆ population := by
  intro chromosome hmem
  simp only [elites, List.mem_map] at hmem
  obtain ⟨⟨member, index⟩, hranked, rfl⟩ := hmem
  have hpair := (List.mergeSort_perm _ _).subset (List.mem_of_mem_take hranked)
  rw [List.mem_zipIdx_iff_getElem?] at hpair
  exact List.mem_of_getElem? hpair

/-! ## Weighted draws -/

section Spin

variable {total sum : Float} {shares weights : List Float} {count : Nat}

theorem length_cumulativeShares :
    (cumulativeShares total sum weights).length = weights.length := by
  induction weights generalizing sum with
  | nil => rfl
  | cons weight weights ih => simp [cumulativeShares, ih]

theorem intervalIndex_lt {draw : Float} (h : 0 < shares.length) :
    intervalIndex shares draw < shares.length := by
  unfold intervalIndex
  omega

theorem spinOnce_lt (h : 0 < shares.length) :
    (spinOnce draws total shares source).1 < shares.length := by
  simp only [spinOnce]
  split
  · exact intervalIndex_lt h
  · exact draws.below_lt source shares.length h

theorem length_spinTimes :
    (spinTimes draws total shares count source).1.length = count := by
  induction count generalizing source with
  | zero => rfl
  | succ count ih => simp [spinTimes, ih]

theorem lt_of_mem_spinTimes (h : 0 < shares.length) {pick : Nat}
    (hmem : pick ∈ (spinTimes draws total shares count source).1) :
    pick < shares.length := by
  induction count generalizing source with
  | zero => cases hmem
  | succ count ih =>
      rcases List.mem_cons.mp hmem with rfl | hlater
      · exact spinOnce_lt h
      · exact ih hlater

theorem length_filterMap_getElem? {picks : List Nat}
    (h : ∀ pick ∈ picks, pick < members.length) :
    (picks.filterMap (members[·]?)).length = picks.length := by
  induction picks with
  | nil => rfl
  | cons pick picks ih =>
      rw [List.forall_mem_cons] at h
      simp [List.getElem?_eq_getElem h.1, ih h.2]

theorem chosenFrom_spin (hweights : weights.length = members.length) :
    ChosenFrom members (spin draws source members weights).1 := by
  simp only [spin]
  constructor
  · rw [length_filterMap_getElem?, length_spinTimes]
    intro pick hmem
    have hsome : 0 < members.length := by
      have hcount := List.length_pos_of_mem hmem
      rwa [length_spinTimes] at hcount
    rw [← hweights, ← @length_cumulativeShares _ 0.0 weights]
    refine lt_of_mem_spinTimes ?_ hmem
    rwa [length_cumulativeShares, hweights]
  · intro chromosome hmem
    obtain ⟨pick, -, hpick⟩ := List.mem_filterMap.mp hmem
    exact List.mem_of_getElem? hpick

end Spin

theorem chosenFrom_rouletteWheel :
    ChosenFrom population (rouletteWheel draws source population).1 :=
  chosenFrom_spin (by simp)

theorem chosenFrom_rank :
    ChosenFrom population (rank draws source population).1 := by
  have hperm := ascending_perm population
  have hspin : ChosenFrom (ascending population)
      (rank draws source population).1 :=
    chosenFrom_spin (by simp [hperm.length_eq])
  exact ⟨hspin.length_eq.trans hperm.length_eq,
    fun _ hmem => hperm.subset (hspin.subset hmem)⟩

/-! ## Tournament -/

section Tournament

variable {winRate : Float} {count : Nat}

theorem rankPair_eq_or (first second : Chromosome) :
    rankPair first second = (first, second) ∨ rankPair first second = (second, first) := by
  unfold rankPair
  split
  · exact .inr rfl
  · exact .inl rfl

theorem exists_opponents (draws : Draws σ) (winRate : Float) (source : σ)
    (h : 2 ≤ population.length) :
    let pair := (draws.distinctPair source population.length).1
    ∃ first second winner, population[pair.1]? = some first ∧
      population[pair.2]? = some second ∧
      (contest draws winRate population source).1 = some winner ∧
      (winner = first ∨ winner = second) := by
  have hwinner : ∀ (a b : Nat) (fitterWins : Bool), a < population.length →
      b < population.length → ∃ first second winner, population[a]? = some first ∧
        population[b]? = some second ∧ (do
          let ranked := rankPair (← population[a]?) (← population[b]?)
          some (if fitterWins then ranked.1 else ranked.2)) = some winner ∧
        (winner = first ∨ winner = second) := by
    intro a b fitterWins ha hb
    simp only [List.getElem?_eq_getElem ha, List.getElem?_eq_getElem hb,
      Option.bind_eq_bind, Option.bind_some]
    refine ⟨_, _, _, rfl, rfl, rfl, ?_⟩
    rcases rankPair_eq_or population[a] population[b] with h | h <;> rw [h] <;>
      cases fitterWins <;> simp
  obtain ⟨hfirst, hsecond⟩ := draws.distinctPair_lt source h
  exact hwinner _ _ _ hfirst hsecond

theorem exists_contest (draws : Draws σ) (winRate : Float) (source : σ)
    (h : 2 ≤ population.length) :
    ∃ winner ∈ population,
      (contest draws winRate population source).1 = some winner := by
  obtain ⟨first, second, winner, hfirst, hsecond, hwinner, rfl | rfl⟩ :=
    exists_opponents draws winRate source h
  · exact ⟨_, List.mem_of_getElem? hfirst, hwinner⟩
  · exact ⟨_, List.mem_of_getElem? hsecond, hwinner⟩

theorem length_contests (h : 2 ≤ population.length) :
    (contests draws winRate population count source).1.length = count := by
  induction count generalizing source with
  | zero => rfl
  | succ count ih =>
      obtain ⟨winner, -, hwinner⟩ := exists_contest draws winRate source h
      simp [contests, hwinner, ih]

theorem contests_subset (h : 2 ≤ population.length) :
    (contests draws winRate population count source).1 ⊆ population := by
  induction count generalizing source with
  | zero => simp [contests]
  | succ count ih =>
      obtain ⟨winner, hmem, hwinner⟩ := exists_contest draws winRate source h
      simp [contests, hwinner, hmem, ih]

theorem chosenFrom_tournament :
    ChosenFrom population (tournament draws source winRate population).1 := by
  simp only [tournament]
  split
  · exact .of_perm (.refl population)
  · rename_i hlong
    exact ⟨length_contests (Nat.le_of_not_lt hlong),
      contests_subset (Nat.le_of_not_lt hlong)⟩

end Tournament

/-! ## Coin flips -/

theorem length_flipCoins_le (population : List Chromosome) (room : Nat)
    (source : σ) : (flipCoins draws population room source).1.length ≤ room := by
  induction population generalizing room source with
  | nil => simp [flipCoins]
  | cons chromosome others ih =>
      cases room with
      | zero => simp [flipCoins]
      | succ room =>
          simp only [flipCoins]
          split
          · simpa using ih room _
          · exact ih (room + 1) _

theorem flipCoins_subset {room : Nat} :
    (flipCoins draws population room source).1 ⊆ population := by
  induction population generalizing room source with
  | nil => simp [flipCoins]
  | cons chromosome others ih =>
      cases room with
      | zero => simp [flipCoins]
      | succ room =>
          simp only [flipCoins]
          split
          · exact List.cons_subset_cons chromosome ih
          · exact List.subset_cons_of_subset chromosome ih

theorem fillByCoins_eq_some {passes room : Nat}
    (h : fillByCoins draws population passes room source = some (chosen, after)) :
    chosen.length = room ∧ chosen ⊆ population := by
  induction passes generalizing room source chosen after with
  | zero =>
      cases room with
      | zero => simp_all [fillByCoins]
      | succ room => simp [fillByCoins] at h
  | succ passes ih =>
      cases room with
      | zero => simp_all [fillByCoins]
      | succ room =>
          simp only [fillByCoins, Option.bind_eq_bind, Option.bind_eq_some_iff,
            Prod.exists, Option.some.injEq, Prod.mk.injEq] at h
          obtain ⟨others, last, hothers, rfl, -⟩ := h
          obtain ⟨hlength, hsubset⟩ := ih hothers
          have hroom : (flipCoins draws population (room + 1) source).1.length ≤
              room + 1 := length_flipCoins_le population (room + 1) source
          refine ⟨?_, List.append_subset.mpr ⟨flipCoins_subset, hsubset⟩⟩
          rw [List.length_append, hlength]
          omega

/-! ## Steady state -/

variable {area states : Nat} {rate : Float}

theorem pairsRecombined_recombineUnfit (draws : Draws σ) (rate : Float) (unfit : Nat) :
    ∀ (index : Nat) (population : List Chromosome) (source : σ),
      PairsRecombined unfit index population
        (recombineUnfit draws rate unfit index population source).1
  | index, [], _ => .nil index
  | index, [last], _ => .single index last
  | index, first :: second :: others, source => by
      simp only [recombineUnfit]
      refine .pair (Chromosome.recombined_recombine draws rate _ source first second)
        (fun hspared => ?_)
        (pairsRecombined_recombineUnfit draws rate unfit (index + 2) others _)
      rw [decide_eq_false (Nat.not_lt.mpr hspared)]
      exact Prod.mk.inj Chromosome.recombine_not_allowed

/-! ## The configured method -/

theorem select_eq_some {config : SearchConfig} {cancelled : Bool}
    (h : select draws source config cancelled population = some (chosen, after))
    (hfits : ∀ member ∈ population, member.Fits area states) :
    chosen.length = population.length ∧
      ∀ member ∈ chosen, member.Fits area states := by
  have hchosen : ChosenFrom population chosen → chosen.length = population.length ∧
      ∀ member ∈ chosen, member.Fits area states :=
    fun h => ⟨h.length_eq, fun member hmem => hfits member (h.subset hmem)⟩
  unfold select at h
  split at h
  · cases h
  cases hmethod : config.selection with
  | rouletteWheel =>
      simp only [hmethod, Option.some.injEq] at h
      have hselected : ChosenFrom population
          (rouletteWheel draws source population).1 := chosenFrom_rouletteWheel
      exact hchosen (by rwa [h] at hselected)
  | rank =>
      simp only [hmethod, Option.some.injEq] at h
      have hselected : ChosenFrom population
          (rank draws source population).1 := chosenFrom_rank
      exact hchosen (by rwa [h] at hselected)
  | tournament =>
      simp only [hmethod, Option.some.injEq] at h
      have hselected : ChosenFrom population
          (tournament draws source config.tournamentWinRate population).1 :=
        chosenFrom_tournament
      exact hchosen (by rwa [h] at hselected)
  | elitism =>
      simp only [hmethod, Option.some.injEq, Prod.mk.injEq] at h
      exact hchosen (.of_perm (.of_eq h.1.symm))
  | random =>
      simp only [hmethod] at h
      obtain ⟨hlength, hsubset⟩ := fillByCoins_eq_some h
      exact hchosen ⟨hlength, hsubset⟩
  | steadyState =>
      simp only [hmethod, Option.some.injEq] at h
      have hsorted := ascending_perm population
      have hmembers : chosen = (steadyState draws source config.crossoverRate
          config.unfitFraction population).1 := by rw [h]
      rw [hmembers]
      have hpairs := pairsRecombined_recombineUnfit draws config.crossoverRate
        (unfitCount population.length config.unfitFraction) 0 (ascending population) source
      exact ⟨hpairs.length_eq.trans hsorted.length_eq,
        hpairs.fits fun member hmem => hfits member (hsorted.subset hmem)⟩

end Cellular.Selection
