import Cellular.Proofs.Search.Selection
import Mathlib.Data.Finset.Prod
import Mathlib.Data.Set.Function
import Mathlib.Probability.Distributions.Uniform

/-!
# Pairs and segments without bias

Two draws make an ordered pair of distinct numbers, and every such pair is made by one
pair of draws (`bijOn_spread`).  If the draws are uniform and independent, so that every
pair of draws is as likely as any other, the contenders of a contest are any two members
with the same chance, and crossover exchanges any segment of two genes or more with the
same chance (`pairs_unbiased`).
-/

namespace Cellular

/-! ## Equal chances -/

section Law

variable {α β : Type} {law : PMF α}

theorem map_apply_of_injective {f : α → β} (hf : Function.Injective f) (value : α) :
    law.map f (f value) = law value := by
  classical
  rw [PMF.map_apply, tsum_eq_single value]
  · rw [if_pos rfl]
  · intro other hne
    exact if_neg fun heq => hne (hf heq).symm

theorem map_apply_of_pair {f : α → β} {first second : α} {value : β}
    (hne : first ≠ second)
    (h : ∀ other, f other = value ↔ other = first ∨ other = second) :
    law.map f value = law first + law second := by
  classical
  have hsum : ({first, second} : Finset α).sum (fun other =>
      if value = f other then law other else 0) = law first + law second := by
    rw [Finset.sum_pair hne, if_pos ((h first).mpr (.inl rfl)).symm,
      if_pos ((h second).mpr (.inr rfl)).symm]
  rw [PMF.map_apply, ← hsum]
  refine tsum_eq_sum fun other hother => if_neg fun heq => hother ?_
  simpa using (h other).mp heq.symm

theorem eq_uniformOfFinset {items : Finset α} (hitems : items.Nonempty) (mass : ENNReal)
    (hsupport : law.support ⊆ items) (hmass : ∀ value ∈ items, law value = mass) :
    law = PMF.uniformOfFinset items hitems := by
  have hnone : ∀ value ∉ items, law value = 0 := fun value hvalue =>
    (law.apply_eq_zero_iff value).mpr fun h => hvalue (hsupport h)
  have htotal : mass * items.card = 1 := by
    calc mass * items.card
        = items.sum fun _ => mass := by rw [Finset.sum_const, nsmul_eq_mul, mul_comm]
      _ = items.sum law := (Finset.sum_congr rfl hmass).symm
      _ = tsum law := (tsum_eq_sum hnone).symm
      _ = 1 := law.tsum_coe
  ext value
  by_cases hvalue : value ∈ items
  · rw [PMF.uniformOfFinset_apply_of_mem _ hvalue, hmass value hvalue]
    exact ENNReal.eq_inv_of_mul_eq_one_left htotal
  · rw [PMF.uniformOfFinset_apply_of_notMem _ hvalue, hnone value hvalue]

end Law

/-! ## Pairs of draws -/

namespace Draws

variable {σ : Type} {draws : Draws σ} {source : σ} {bound : Nat}

def rawPairs (bound : Nat) : Finset (Nat × Nat) :=
  Finset.range bound ×ˢ Finset.range (bound - 1)

def rawPair (draws : Draws σ) (bound : Nat) (source : σ) : Nat × Nat :=
  ((draws.below source bound).1,
    (draws.below (draws.below source bound).2 (bound - 1)).1)

theorem rawPair_mem (draws : Draws σ) (source : σ) (h : 2 ≤ bound) :
    draws.rawPair bound source ∈ rawPairs bound := by
  have hfirst := draws.below_lt source bound (by omega)
  have hsecond := draws.below_lt (draws.below source bound).2 (bound - 1) (by omega)
  exact Finset.mem_product.mpr
    ⟨Finset.mem_range.mpr hfirst, Finset.mem_range.mpr hsecond⟩

theorem distinctPair_eq_spread (draws : Draws σ) (source : σ) (bound : Nat) :
    (draws.distinctPair source bound).1 =
      spread (draws.rawPair bound source).1 (draws.rawPair bound source).2 := rfl

theorem spread_injective : Function.Injective fun raw : Nat × Nat =>
    spread raw.1 raw.2 := by
  rintro ⟨first, second⟩ ⟨first', second'⟩ h
  obtain ⟨rfl, h⟩ : first = first' ∧ _ := Prod.mk.inj h
  have hsecond : second = second' := by
    split at h <;> split at h <;> omega
  rw [hsecond]

theorem bijOn_spread (bound : Nat) :
    Set.BijOn (fun raw : Nat × Nat => spread raw.1 raw.2) (rawPairs bound)
      (Finset.range bound).offDiag := by
  refine ⟨?_, spread_injective.injOn, ?_⟩
  · rintro ⟨first, second⟩ h
    simp only [rawPairs, Finset.mem_coe, Finset.mem_product, Finset.mem_range] at h
    simp only [spread, Finset.mem_coe, Finset.mem_offDiag, Finset.mem_range]
    split <;> omega
  · rintro ⟨first, other⟩ h
    simp only [Finset.mem_coe, Finset.mem_offDiag, Finset.mem_range] at h
    obtain ⟨hfirst, hother, hne⟩ := h
    -- What lies behind the first number is drawn as its predecessor.
    refine ⟨(first, if first < other then other - 1 else other), ?_, ?_⟩
    · simp only [rawPairs, Finset.mem_coe, Finset.mem_product, Finset.mem_range]
      split <;> omega
    · simp only [spread, Prod.mk.injEq, true_and]
      split <;> split <;> omega

theorem distinctPair_mem (draws : Draws σ) (source : σ) (h : 2 ≤ bound) :
    (draws.distinctPair source bound).1 ∈ (Finset.range bound).offDiag :=
  (bijOn_spread bound).mapsTo (draws.rawPair_mem source h)

theorem offDiag_nonempty (h : 2 ≤ bound) : (Finset.range bound).offDiag.Nonempty := by
  refine ⟨(0, 1), ?_⟩
  simp only [Finset.mem_offDiag, Finset.mem_range]
  omega

/-- By a law of the sources, the two draws that a pair is made of are uniform, and
independent of each other. -/
def Unbiased (draws : Draws σ) (bound : Nat) (law : PMF σ) : Prop :=
  ∀ first < bound, ∀ second < bound - 1,
    law.map (draws.rawPair bound) (first, second) =
      (bound : ENNReal)⁻¹ * ((bound - 1 : Nat) : ENNReal)⁻¹

theorem Unbiased.map_distinctPair {law : PMF σ} (hlaw : draws.Unbiased bound law)
    (h : 2 ≤ bound) :
    law.map (fun source => (draws.distinctPair source bound).1) =
      PMF.uniformOfFinset (Finset.range bound).offDiag (offDiag_nonempty h) := by
  apply eq_uniformOfFinset
  · intro pair hpair
    obtain ⟨source, -, rfl⟩ := (PMF.mem_support_map_iff _ _ _).mp hpair
    exact draws.distinctPair_mem source h
  · intro pair hpair
    obtain ⟨raw, hraw, rfl⟩ := (bijOn_spread bound).surjOn hpair
    obtain ⟨hfirst, hsecond⟩ := Finset.mem_product.mp hraw
    have hspread : (fun source => (draws.distinctPair source bound).1) =
        (fun raw : Nat × Nat => spread raw.1 raw.2) ∘ draws.rawPair bound := rfl
    rw [hspread, ← PMF.map_comp, map_apply_of_injective spread_injective]
    exact hlaw raw.1 (Finset.mem_range.mp hfirst) raw.2 (Finset.mem_range.mp hsecond)

/-! ## Segments -/

def segment (pair : Nat × Nat) : Nat × Nat :=
  (min pair.1 pair.2, max pair.1 pair.2)

def segmentsBelow (bound : Nat) : Finset (Nat × Nat) :=
  (Finset.range bound).offDiag.filter fun pair => pair.1 < pair.2

theorem mem_segmentsBelow {pair : Nat × Nat} :
    pair ∈ segmentsBelow bound ↔ pair.1 < pair.2 ∧ pair.2 < bound := by
  simp only [segmentsBelow, Finset.mem_filter, Finset.mem_offDiag, Finset.mem_range]
  omega

theorem segmentsBelow_nonempty (h : 2 ≤ bound) : (segmentsBelow bound).Nonempty :=
  ⟨(0, 1), mem_segmentsBelow.mpr ⟨Nat.zero_lt_one, h⟩⟩

theorem segment_mem {pair : Nat × Nat} (h : pair ∈ (Finset.range bound).offDiag) :
    segment pair ∈ segmentsBelow bound := by
  simp only [Finset.mem_offDiag, Finset.mem_range] at h
  rw [mem_segmentsBelow]
  simp only [segment]
  omega

theorem segment_eq_iff {first last : Nat} (h : first < last) (pair : Nat × Nat) :
    segment pair = (first, last) ↔ pair = (first, last) ∨ pair = (last, first) := by
  obtain ⟨one, other⟩ := pair
  simp only [segment, Prod.mk.injEq]
  omega

theorem filter_rawPairs_eq {first last : Nat} (horder : first < last)
    (hlast : last < bound) :
    (rawPairs bound).filter (fun raw => segment (spread raw.1 raw.2) = (first, last)) =
      {(first, last - 1), (last, first)} := by
  ext ⟨one, other⟩
  simp only [rawPairs, Finset.mem_filter, Finset.mem_product, Finset.mem_range,
    segment_eq_iff horder, spread, Finset.mem_insert, Finset.mem_singleton, Prod.mk.injEq]
  split <;> omega

theorem card_filter_rawPairs {first last : Nat} (horder : first < last)
    (hlast : last < bound) :
    ((rawPairs bound).filter fun raw =>
      segment (spread raw.1 raw.2) = (first, last)).card = 2 := by
  rw [filter_rawPairs_eq horder hlast]
  refine Finset.card_pair fun h => ?_
  have hfirst := congrArg Prod.fst h
  exact Nat.ne_of_lt horder hfirst

theorem Unbiased.map_segment {law : PMF σ} (hlaw : draws.Unbiased bound law)
    (h : 2 ≤ bound) :
    law.map (fun source => segment (draws.distinctPair source bound).1) =
      PMF.uniformOfFinset (segmentsBelow bound) (segmentsBelow_nonempty h) := by
  have hsegment : law.map (fun source => segment (draws.distinctPair source bound).1) =
      (PMF.uniformOfFinset (Finset.range bound).offDiag (offDiag_nonempty h)).map segment := by
    rw [← hlaw.map_distinctPair h, PMF.map_comp]
    rfl
  have hchance : ∀ pair ∈ (Finset.range bound).offDiag,
      PMF.uniformOfFinset (Finset.range bound).offDiag (offDiag_nonempty h) pair =
        ((Finset.range bound).offDiag.card : ENNReal)⁻¹ :=
    fun pair hpair => PMF.uniformOfFinset_apply_of_mem _ hpair
  rw [hsegment]
  refine eq_uniformOfFinset _ (((Finset.range bound).offDiag.card : ENNReal)⁻¹ +
    ((Finset.range bound).offDiag.card : ENNReal)⁻¹) ?support ?mass
  case support =>
    intro pair hpair
    obtain ⟨other, hother, rfl⟩ := (PMF.mem_support_map_iff _ _ _).mp hpair
    rw [PMF.mem_support_uniformOfFinset_iff] at hother
    exact segment_mem hother
  case mass =>
    rintro ⟨first, last⟩ hpair
    obtain ⟨horder, hlast⟩ := mem_segmentsBelow.mp hpair
    have hmem : (first, last) ∈ (Finset.range bound).offDiag :=
      (Finset.mem_filter.mp hpair).1
    have hback : (last, first) ∈ (Finset.range bound).offDiag := by
      simp only [Finset.mem_offDiag, Finset.mem_range] at hmem ⊢
      omega
    have hne : (first, last) ≠ (last, first) := fun heq =>
      Nat.ne_of_lt horder (congrArg Prod.fst heq)
    rw [map_apply_of_pair hne (segment_eq_iff horder), hchance _ hmem, hchance _ hback]

end Draws

variable {σ : Type} {draws : Draws σ} {source : σ}

/-! ## Contests -/

namespace Selection

variable {population : List Chromosome} {winRate : Float} {round count : Nat}

def contestSource (draws : Draws σ) (winRate : Float) (population : List Chromosome) :
    Nat → σ → σ
  | 0, source => source
  | round + 1, source =>
      contestSource draws winRate population round
        (contest draws winRate population source).2

/-- The indices of the members that meet in a contest of a tournament. -/
def opponents (draws : Draws σ) (winRate : Float) (population : List Chromosome)
    (round : Nat) (source : σ) : Nat × Nat :=
  (draws.distinctPair (contestSource draws winRate population round source)
    population.length).1

theorem getElem?_contests (h : 2 ≤ population.length) (hround : round < count) :
    (contests draws winRate population count source).1[round]? =
      (contest draws winRate population
        (contestSource draws winRate population round source)).1 := by
  induction count generalizing round source with
  | zero => exact absurd hround (Nat.not_lt_zero round)
  | succ count ih =>
      obtain ⟨winner, -, hwinner⟩ := exists_contest draws winRate source h
      cases round with
      | zero => simp [contests, hwinner, contestSource]
      | succ round =>
          have hlater := @ih (contest draws winRate population source).2 round
            (Nat.lt_of_succ_lt_succ hround)
          simp [contests, hwinner, contestSource, hlater]

theorem getElem?_tournament (h : 2 ≤ population.length) (hround : round < population.length) :
    (tournament draws source winRate population).1[round]? =
      (contest draws winRate population
        (contestSource draws winRate population round source)).1 := by
  rw [tournament, if_neg (Nat.not_lt.mpr h)]
  exact getElem?_contests h hround

theorem map_opponents {law : PMF σ} (h : 2 ≤ population.length)
    (hlaw : draws.Unbiased population.length
      (law.map (contestSource draws winRate population round))) :
    law.map (opponents draws winRate population round) =
      PMF.uniformOfFinset (Finset.range population.length).offDiag
        (Draws.offDiag_nonempty h) := by
  rw [← hlaw.map_distinctPair h, PMF.map_comp]
  rfl

end Selection

/-! ## The draws of a search -/

namespace Draws

open Chromosome Selection

/-- With two numbers or more, a pair is made of a draw and a draw from one number less,
and every ordered pair of distinct numbers is made by one pair of draws.  So, where the
draws are uniform and independent, the members that meet in a contest are any two with
the same chance.  Crossover exchanges the genes of a segment of at least two genes, every
segment is made by two pairs of draws, and none has a better chance than another. -/
theorem pairs_unbiased {bound : Nat} (h : 2 ≤ bound) :
    (∀ {σ : Type} (draws : Draws σ) (source : σ),
      draws.rawPair bound source ∈ rawPairs bound ∧
        (draws.distinctPair source bound).1 =
          spread (draws.rawPair bound source).1 (draws.rawPair bound source).2) ∧
      Set.BijOn (fun raw : Nat × Nat => spread raw.1 raw.2) (rawPairs bound)
        (Finset.range bound).offDiag ∧
      (∀ first last, first < last → last < bound →
        (rawPairs bound).filter (fun raw => segment (spread raw.1 raw.2) = (first, last)) =
          {(first, last - 1), (last, first)} ∧
        ((rawPairs bound).filter fun raw =>
          segment (spread raw.1 raw.2) = (first, last)).card = 2) ∧
      (∀ {σ : Type} (draws : Draws σ) (winRate : Float) (population : List Chromosome)
        (round : Nat), population.length = bound → round < bound →
        (∀ source, ∃ first second winner,
          population[(opponents draws winRate population round source).1]? = some first ∧
          population[(opponents draws winRate population round source).2]? = some second ∧
          (tournament draws source winRate population).1[round]? = some winner ∧
          (winner = first ∨ winner = second)) ∧
        ∀ law : PMF σ,
          draws.Unbiased bound (law.map (contestSource draws winRate population round)) →
          law.map (opponents draws winRate population round) =
            PMF.uniformOfFinset (Finset.range bound).offDiag (offDiag_nonempty h)) ∧
      ∀ {σ : Type} (draws : Draws σ) (left right : Chromosome),
        min left.pattern.length right.pattern.length = bound →
        (∀ source, ∃ first last,
          segment (draws.distinctPair source bound).1 = (first, last) ∧
          first < last ∧ last < bound ∧
          Exchanged first last left right (crossover draws source left right).1.1
            (crossover draws source left right).1.2) ∧
        ∀ law : PMF σ, draws.Unbiased bound law →
          law.map (fun source => segment (draws.distinctPair source bound).1) =
            PMF.uniformOfFinset (segmentsBelow bound) (segmentsBelow_nonempty h) := by
  refine ⟨fun draws source =>
      ⟨draws.rawPair_mem source h, draws.distinctPair_eq_spread source bound⟩,
    bijOn_spread bound,
    fun first last horder hlast =>
      ⟨filter_rawPairs_eq horder hlast, card_filter_rawPairs horder hlast⟩,
    ?tournament, ?crossover⟩
  case tournament =>
    intro σ draws winRate population round hlength hround
    subst hlength
    refine ⟨fun source => ?_, fun law hlaw => map_opponents h hlaw⟩
    rw [getElem?_tournament h hround]
    exact exists_opponents draws winRate _ h
  case crossover =>
    intro σ draws left right hlength
    refine ⟨fun source => ?_, fun law hlaw => hlaw.map_segment h⟩
    obtain ⟨horder, hlast⟩ :=
      mem_segmentsBelow.mp (segment_mem (draws.distinctPair_mem source h))
    exact ⟨_, _, rfl, horder, hlast, exchanged_crossover draws source hlength h⟩

def scripted : Draws (List Nat) where
  unit source := (0.5, source)
  below source bound := (source.headD 0 % bound, source.tail)
  below_lt source _ h := Nat.mod_lt (source.headD 0) h

/-- Two draws for a first contest, and for a second one two draws of all kinds. -/
noncomputable def scripts : PMF (List Nat) :=
  (PMF.uniformOfFintype (Fin 3 × Fin 2)).map fun raw => [0, 0, raw.1, raw.2]

def threesome : List Chromosome :=
  [.ofPattern [⟨1⟩, ⟨1⟩, ⟨1⟩], .ofPattern [⟨2⟩, ⟨2⟩, ⟨2⟩], .ofPattern [⟨3⟩, ⟨3⟩, ⟨3⟩]]

theorem unbiased_scripts :
    scripted.Unbiased 3 (scripts.map (contestSource scripted 1.0 threesome 1)) := by
  intro first hfirst second hsecond
  let code : Fin 3 × Fin 2 → Nat × Nat := fun raw => (raw.1, raw.2)
  have hcode : Function.Injective code := by
    rintro ⟨one, other⟩ ⟨one', other'⟩ heq
    simpa [code, Fin.ext_iff] using heq
  have hdrawn : (scripts.map (contestSource scripted 1.0 threesome 1)).map
      (scripted.rawPair 3) = (PMF.uniformOfFintype (Fin 3 × Fin 2)).map code := by
    rw [scripts, PMF.map_comp, PMF.map_comp]
    congr 1
    funext raw
    exact Prod.ext (Nat.mod_eq_of_lt raw.1.isLt) (Nat.mod_eq_of_lt raw.2.isLt)
  have hmass : (PMF.uniformOfFintype (Fin 3 × Fin 2)).map code (first, second) =
      PMF.uniformOfFintype (Fin 3 × Fin 2) (⟨first, hfirst⟩, ⟨second, hsecond⟩) :=
    map_apply_of_injective hcode (⟨first, hfirst⟩, ⟨second, hsecond⟩)
  rw [hdrawn, hmass, PMF.uniformOfFintype_apply, ← ENNReal.mul_inv (by simp) (by simp)]
  norm_num

/-- The contenders of the second contest, and a segment for two chromosomes of three
genes. -/
theorem pairs_unbiased_scripts :
    scripted.Unbiased 3 (scripts.map (contestSource scripted 1.0 threesome 1)) ∧
      threesome.length = 3 ∧
      scripts.map (opponents scripted 1.0 threesome 1) =
        PMF.uniformOfFinset (Finset.range 3).offDiag (offDiag_nonempty (by decide)) ∧
      (scripts.map (contestSource scripted 1.0 threesome 1)).map
          (fun source => segment (scripted.distinctPair source 3).1) =
        PMF.uniformOfFinset (segmentsBelow 3) (segmentsBelow_nonempty (by decide)) ∧
      (rawPairs 3).filter (fun raw => segment (spread raw.1 raw.2) = (0, 2)) =
        {(0, 1), (2, 0)} := by
  have hbound : 2 ≤ 3 := by decide
  obtain ⟨-, -, hsegments, htournament, hcrossover⟩ := pairs_unbiased hbound
  obtain ⟨-, hopponents⟩ := htournament scripted 1.0 threesome 1 rfl (by decide)
  obtain ⟨-, hexchanged⟩ := hcrossover scripted (.ofPattern [⟨1⟩, ⟨1⟩, ⟨1⟩])
    (.ofPattern [⟨2⟩, ⟨2⟩, ⟨2⟩]) rfl
  exact ⟨unbiased_scripts, rfl, hopponents scripts unbiased_scripts,
    hexchanged _ unbiased_scripts, (hsegments 0 2 (by decide) (by decide)).1⟩

end Draws

end Cellular
