import Cellular.Search.Chromosome
import Mathlib.Data.List.Basic
import Mathlib.Order.MinMax

/-!
# Chromosomes under the genetic operators

A chromosome fits a search if it has one gene for every cell and each gene is a
declared state or the free one.  Whatever is drawn, random chromosomes fit.  Two
chromosomes come out of a recombination as they were or with the genes of one segment
exchanged (`Recombined`).  So recombination and mutation make fitting chromosomes out of
fitting ones.
-/

namespace Cellular

theorem StateId.index_ofIndex_le (n : Nat) : (ofIndex n).index ≤ n := by
  simpa [ofIndex, index] using Nat.mod_le n 65536

variable {σ : Type} {draws : Draws σ} {source : σ}

theorem Draws.distinctPair_lt (draws : Draws σ) (source : σ) {bound : Nat}
    (h : 2 ≤ bound) :
    (draws.distinctPair source bound).1.1 < bound ∧
      (draws.distinctPair source bound).1.2 < bound := by
  have hfirst := draws.below_lt source bound (by omega)
  have hsecond := draws.below_lt (draws.below source bound).2 (bound - 1) (by omega)
  have hpair : (draws.distinctPair source bound).1 =
      spread (draws.below source bound).1
        (draws.below (draws.below source bound).2 (bound - 1)).1 := rfl
  rw [hpair, spread]
  split <;> omega

theorem Draws.distinctPair_ne (draws : Draws σ) (source : σ) (bound : Nat) :
    (draws.distinctPair source bound).1.1 ≠ (draws.distinctPair source bound).1.2 := by
  have hspread : ∀ first second : Nat, (spread first second).1 ≠ (spread first second).2 := by
    intro first second
    unfold spread
    dsimp only
    split <;> omega
  exact hspread _ _

namespace Chromosome

structure Fits (area states : Nat) (chromosome : Chromosome) : Prop where
  length_eq : chromosome.pattern.length = area
  index_lt : ∀ gene ∈ chromosome.pattern, gene.index < states

variable {area states liveStates count : Nat} {fill rate : Float}
  {left right left' right' chromosome : Chromosome} {genes : List StateId} {gene : StateId}

/-! ## Random chromosomes -/

theorem length_randomGenes :
    (randomGenes draws liveStates fill count source).1.length = count := by
  induction count generalizing source with
  | zero => rfl
  | succ count ih =>
      simp only [randomGenes]
      split <;> simp [ih]

theorem index_lt_of_mem_randomGenes (hlive : 0 < liveStates)
    (h : gene ∈ (randomGenes draws liveStates fill count source).1) :
    gene.index < liveStates + 1 := by
  induction count generalizing source with
  | zero => cases h
  | succ count ih =>
      simp only [randomGenes] at h
      split at h
      · rcases List.mem_cons.mp h with rfl | hmem
        · exact Nat.lt_of_le_of_lt (StateId.index_ofIndex_le _)
            (Nat.succ_lt_succ (draws.below_lt _ liveStates hlive))
        · exact ih hmem
      · rcases List.mem_cons.mp h with rfl | hmem
        · exact Nat.succ_pos liveStates
        · exact ih hmem

theorem fits_random :
    (random draws source area liveStates).1.Fits area (liveStates + 1) := by
  simp only [random]
  split
  · refine ⟨by simp [ofPattern], fun gene hmem => ?_⟩
    rw [List.eq_of_mem_replicate hmem]
    exact Nat.succ_pos liveStates
  · exact ⟨length_randomGenes,
      fun gene hmem => index_lt_of_mem_randomGenes (by omega) hmem⟩

theorem initialSize_random :
    (random draws source area liveStates).1.stats.initialSize =
      liveGenes (random draws source area liveStates).1.pattern := by
  unfold random
  dsimp only
  split <;> rfl

theorem length_randomPopulation :
    (randomPopulation draws area liveStates count source).1.length = count := by
  induction count generalizing source with
  | zero => rfl
  | succ count ih => simp [randomPopulation, ih]

theorem fits_of_mem_randomPopulation
    (h : chromosome ∈
      (randomPopulation draws area liveStates count source).1) :
    chromosome.Fits area (liveStates + 1) := by
  induction count generalizing source with
  | zero => cases h
  | succ count ih =>
      rcases List.mem_cons.mp h with rfl | hmem
      · exact fits_random
      · exact ih hmem

theorem initialSize_of_mem_randomPopulation
    (h : chromosome ∈
      (randomPopulation draws area liveStates count source).1) :
    chromosome.stats.initialSize = liveGenes chromosome.pattern := by
  induction count generalizing source with
  | zero => cases h
  | succ count ih =>
      rcases List.mem_cons.mp h with rfl | hmem
      · exact initialSize_random
      · exact ih hmem

/-! ## Crossover -/

/-- The genes from one index to another, both included, have changed sides, and the
statistics have not. -/
structure Exchanged (first last : Nat) (left right left' right' : Chromosome) : Prop where
  stats_left : left'.stats = left.stats
  stats_right : right'.stats = right.stats
  genes : ∀ index : Nat, (left'.pattern[index]?, right'.pattern[index]?) =
    if first ≤ index ∧ index ≤ last then (right.pattern[index]?, left.pattern[index]?)
    else (left.pattern[index]?, right.pattern[index]?)

/-- Two chromosomes as they were, or with a segment of at least two genes exchanged. -/
inductive Recombined (left right : Chromosome) : Chromosome → Chromosome → Prop
  | kept : Recombined left right left right
  | exchanged {left' right' : Chromosome} {first last : Nat} (horder : first < last)
      (hleft : last < left.pattern.length) (hright : last < right.pattern.length)
      (h : Exchanged first last left right left' right') :
      Recombined left right left' right'

theorem getElem?_swapSegment {first last : Nat} {genes others : List StateId}
    (horder : first ≤ last) (hgenes : last < genes.length) (hothers : last < others.length)
    (index : Nat) :
    (swapSegment first last genes others).1[index]? =
      if first ≤ index ∧ index ≤ last then others[index]? else genes[index]? := by
  have hfirst : min first genes.length = first := by omega
  have hmiddle : min (last + 1 - first) (others.length - first) = last + 1 - first := by
    omega
  rw [swapSegment, List.getElem?_append, List.getElem?_append]
  simp only [List.length_append, List.length_take, List.length_drop, hfirst, hmiddle]
  rcases Nat.lt_or_ge index first with hbefore | hfrom
  · rw [if_pos (by omega), if_pos hbefore, if_neg (by omega),
      List.getElem?_take_of_lt hbefore]
  · obtain ⟨more, rfl⟩ := Nat.exists_eq_add_of_le hfrom
    rcases Nat.lt_or_ge last (first + more) with hpast | hinside
    · rw [if_neg (by omega), if_neg (by omega), List.getElem?_drop]
      congr 1
      omega
    · rw [if_pos (by omega), if_neg (by omega), if_pos ⟨hfrom, hinside⟩,
        List.getElem?_take_of_lt (by omega), List.getElem?_drop, Nat.add_sub_cancel_left]

theorem swapSegment_snd (first last : Nat) (genes others : List StateId) :
    (swapSegment first last genes others).2 = (swapSegment first last others genes).1 := rfl

theorem exchanged_crossover (draws : Draws σ) (source : σ) {length : Nat}
    (hlength : min left.pattern.length right.pattern.length = length) (h : 2 ≤ length) :
    let pair := (draws.distinctPair source length).1
    Exchanged (min pair.1 pair.2) (max pair.1 pair.2) left right
      (crossover draws source left right).1.1 (crossover draws source left right).1.2 := by
  subst hlength
  obtain ⟨hfirst, hsecond⟩ := draws.distinctPair_lt source h
  obtain ⟨hleft, hright⟩ := Nat.lt_min.mp (Nat.max_lt.mpr ⟨hfirst, hsecond⟩)
  simp only [crossover, if_neg (Nat.not_lt.mpr h)]
  refine ⟨rfl, rfl, fun index => ?_⟩
  dsimp only
  rw [swapSegment_snd, getElem?_swapSegment min_le_max hleft hright,
    getElem?_swapSegment min_le_max hright hleft]
  split <;> rfl

theorem recombined_crossover (draws : Draws σ) (source : σ) (left right : Chromosome) :
    Recombined left right (crossover draws source left right).1.1
      (crossover draws source left right).1.2 := by
  rcases Nat.lt_or_ge (min left.pattern.length right.pattern.length) 2 with hshort | hlong
  · simp only [crossover, if_pos hshort]
    exact .kept
  · obtain ⟨hfirst, hsecond⟩ := draws.distinctPair_lt source hlong
    obtain ⟨hleft, hright⟩ := Nat.lt_min.mp (Nat.max_lt.mpr ⟨hfirst, hsecond⟩)
    exact .exchanged (min_lt_max.mpr (draws.distinctPair_ne source _)) hleft hright
      (exchanged_crossover draws source rfl hlong)

theorem recombined_recombine (draws : Draws σ) (rate : Float) (allowed : Bool) (source : σ)
    (left right : Chromosome) :
    Recombined left right (recombine draws rate allowed source left right).1.1
      (recombine draws rate allowed source left right).1.2 := by
  simp only [recombine]
  split
  · exact recombined_crossover draws _ left right
  · exact .kept

theorem recombine_not_allowed :
    (recombine draws rate false source left right).1 = (left, right) := by
  simp only [recombine, Bool.and_false, Bool.false_eq_true, if_false]

theorem Recombined.stats_eq (h : Recombined left right left' right') :
    left'.stats = left.stats ∧ right'.stats = right.stats := by
  cases h with
  | kept => exact ⟨rfl, rfl⟩
  | exchanged _ _ _ hexchanged => exact ⟨hexchanged.stats_left, hexchanged.stats_right⟩

theorem Fits.of_getElem? (hleft : left.Fits area states) (hright : right.Fits area states)
    (h : ∀ index : Nat, chromosome.pattern[index]? = left.pattern[index]? ∨
      chromosome.pattern[index]? = right.pattern[index]?) :
    chromosome.Fits area states := by
  constructor
  · -- The pattern ends where both of the others end.
    have hends : ∀ index, chromosome.pattern.length ≤ index ↔ area ≤ index := by
      intro index
      rw [← List.getElem?_eq_none_iff]
      rcases h index with heq | heq <;> rw [heq, List.getElem?_eq_none_iff]
      · rw [hleft.length_eq]
      · rw [hright.length_eq]
    exact Nat.le_antisymm ((hends area).mpr (Nat.le_refl area))
      ((hends _).mp (Nat.le_refl _))
  · intro gene hgene
    obtain ⟨index, hindex⟩ := List.mem_iff_getElem?.mp hgene
    rcases h index with heq | heq
    · exact hleft.index_lt gene (List.mem_of_getElem? (heq.symm.trans hindex))
    · exact hright.index_lt gene (List.mem_of_getElem? (heq.symm.trans hindex))

theorem Recombined.fits (h : Recombined left right left' right')
    (hleft : left.Fits area states) (hright : right.Fits area states) :
    left'.Fits area states ∧ right'.Fits area states := by
  cases h with
  | kept => exact ⟨hleft, hright⟩
  | exchanged _ _ _ hexchanged =>
      have hgenes : ∀ index : Nat,
          (left'.pattern[index]? = left.pattern[index]? ∨
            left'.pattern[index]? = right.pattern[index]?) ∧
          (right'.pattern[index]? = left.pattern[index]? ∨
            right'.pattern[index]? = right.pattern[index]?) := by
        intro index
        have hpair := hexchanged.genes index
        split at hpair
        · obtain ⟨hfirst, hsecond⟩ := Prod.mk.inj hpair
          exact ⟨.inr hfirst, .inl hsecond⟩
        · obtain ⟨hfirst, hsecond⟩ := Prod.mk.inj hpair
          exact ⟨.inl hfirst, .inr hsecond⟩
      exact ⟨hleft.of_getElem? hright fun index => (hgenes index).1,
        hleft.of_getElem? hright fun index => (hgenes index).2⟩

/-! ## Mutation -/

theorem length_mutateGenes :
    (mutateGenes draws rate states genes source).1.length = genes.length := by
  induction genes generalizing source with
  | nil => rfl
  | cons gene genes ih =>
      simp only [mutateGenes]
      split <;> simp [ih]

theorem index_lt_of_mem_mutateGenes (hstates : 0 < states)
    (hgenes : ∀ gene ∈ genes, gene.index < states)
    (h : gene ∈ (mutateGenes draws rate states genes source).1) :
    gene.index < states := by
  induction genes generalizing source with
  | nil => cases h
  | cons first genes ih =>
      rw [List.forall_mem_cons] at hgenes
      simp only [mutateGenes] at h
      split at h
      · rcases List.mem_cons.mp h with rfl | hmem
        · exact Nat.lt_of_le_of_lt (StateId.index_ofIndex_le _)
            (draws.below_lt _ states hstates)
        · exact ih hgenes.2 hmem
      · rcases List.mem_cons.mp h with rfl | hmem
        · exact hgenes.1
        · exact ih hgenes.2 hmem

theorem Fits.mutate (h : chromosome.Fits area states) :
    (mutate draws source rate states chromosome).1.Fits area states := by
  simp only [Chromosome.mutate]
  split
  · exact h
  · exact ⟨length_mutateGenes.trans h.length_eq,
      fun gene hmem => index_lt_of_mem_mutateGenes (by omega) h.index_lt hmem⟩

end Chromosome

end Cellular
