import Cellular.Proofs.Search.Population

/-!
# Crossover

Crossover keeps the members of a pair side by side, puts the elites in front and cuts off
what is too much then.  Without elites there is room for all of the pairs and for an odd
last member (`pairsRecombined_offspring`), and with elites there is less room and no other
difference (`take_offspring`).
-/

namespace Cellular.Search

open Chromosome

variable {σ : Type} {draws : Draws σ} {source : σ} {rate : Float} {size taken : Nat}
  {elites selected : List Chromosome}

def oddLast (selected : List Chromosome) : List Chromosome :=
  if selected.length % 2 = 1 then selected.getLast?.toList else []

theorem oddLast_cons_cons (first second : Chromosome) (others : List Chromosome) :
    oddLast (first :: second :: others) = oddLast others := by
  unfold oddLast
  rw [List.length_cons, List.length_cons, Nat.add_assoc, Nat.add_mod_right]
  cases others with
  | nil => rfl
  | cons third others => rw [List.getLast?_cons_cons, List.getLast?_cons_cons]

/-- The recombined pairs and an odd last member, before they are cut. -/
def offspring (draws : Draws σ) (rate : Float) (size taken : Nat)
    (selected : List Chromosome) (source : σ) : List Chromosome :=
  (recombinePairs draws rate size taken selected source).1 ++ oddLast selected

theorem crossoverStage_eq :
    (crossoverStage draws source rate size elites selected).1 =
      elites.take size ++
        (offspring draws rate size elites.length selected source).take
          (size - elites.length) := by
  rw [← List.take_append, offspring, ← List.append_assoc]
  rfl

theorem offspring_cons_cons (first second : Chromosome) (others : List Chromosome)
    (source : σ) :
    offspring draws rate size taken (first :: second :: others) source =
      let recombined := recombine draws rate true source first second
      recombined.1.1 :: recombined.1.2 ::
        if size ≤ taken + 2 then oddLast others
        else offspring draws rate size (taken + 2) others recombined.2 := by
  rw [offspring, oddLast_cons_cons]
  simp only [recombinePairs]
  split <;> rfl

theorem pairsRecombined_offspring (draws : Draws σ) (rate : Float) :
    ∀ (taken : Nat) (selected : List Chromosome) (source : σ),
      taken + selected.length = size →
      PairsRecombined size taken selected
        (offspring draws rate size taken selected source)
  | taken, [], _, _ => .nil taken
  | taken, [last], _, _ => .single taken last
  | taken, first :: second :: others, source, h => by
      rw [List.length_cons, List.length_cons] at h
      rw [offspring_cons_cons]
      refine .pair (recombined_recombine draws rate true source first second)
        (fun hfull => by omega) ?_
      split
      · have hnone : others = [] := List.eq_nil_of_length_eq_zero (by omega)
        rw [hnone]
        exact .nil _
      · exact pairsRecombined_offspring draws rate (taken + 2) others _ (by omega)

theorem take_pair {room : Nat} (h : room ≤ 2) (left right : Chromosome)
    (others others' : List Chromosome) :
    (left :: right :: others).take room = (left :: right :: others').take room := by
  match room, h with
  | 0, _ => rfl
  | 1, _ => rfl
  | 2, _ => rfl

theorem take_offspring (draws : Draws σ) (rate : Float) :
    ∀ (fewer taken : Nat) (selected : List Chromosome) (source : σ), fewer ≤ taken →
      (offspring draws rate size taken selected source).take (size - taken) =
        (offspring draws rate size fewer selected source).take (size - taken)
  | _, _, [], _, _ => rfl
  | _, _, [_], _, _ => rfl
  | fewer, taken, first :: second :: others, source, h => by
      simp only [offspring_cons_cons]
      by_cases hfull : size ≤ taken + 2
      · exact take_pair (by omega) _ _ _ _
      · have hroom : size - taken = size - (taken + 2) + 1 + 1 := by omega
        rw [if_neg hfull, if_neg (by omega), hroom]
        simp only [List.take_succ_cons]
        rw [take_offspring draws rate (fewer + 2) (taken + 2) others _ (by omega)]

/-- Whatever is drawn, crossover without elites passes as many members on as were
selected.  Two members that were selected side by side come out as they were, or with a
segment of at least two genes exchanged, and an odd last member comes out as it was; so
no gene is lost and none gets another index.  With elites the population starts with
them, and behind them it has as many of those members as there is room for. -/
theorem crossoverStage_conserves (draws : Draws σ) (source : σ) (rate : Float)
    (hlength : selected.length = size) :
    ∃ crossed : List Chromosome,
      (crossoverStage draws source rate size [] selected).1 = crossed ∧
      crossed.length = size ∧
      (∀ pair left right, selected[2 * pair]? = some left →
        selected[2 * pair + 1]? = some right →
        ∃ left' right', crossed[2 * pair]? = some left' ∧
          crossed[2 * pair + 1]? = some right' ∧ Recombined left right left' right') ∧
      (size % 2 = 1 → crossed[size - 1]? = selected[size - 1]?) ∧
      (∀ index, (genesAt index crossed).Perm (genesAt index selected)) ∧
      ∀ elites : List Chromosome, elites.length < size →
        (crossoverStage draws source rate size elites selected).1 =
          elites ++ crossed.take (size - elites.length) := by
  have hpairs : PairsRecombined size 0 selected
      (offspring draws rate size 0 selected source) :=
    pairsRecombined_offspring draws rate 0 selected source (by rw [hlength, Nat.zero_add])
  have hsize : (offspring draws rate size 0 selected source).length = size :=
    hpairs.length_eq.trans hlength
  have hplain : (crossoverStage draws source rate size [] selected).1 =
      offspring draws rate size 0 selected source := by
    rw [crossoverStage_eq, List.take_nil, List.nil_append, List.length_nil, Nat.sub_zero,
      List.take_of_length_le (Nat.le_of_eq hsize)]
  refine ⟨_, hplain, hsize, fun pair left right => hpairs.exists_pair, fun hodd => ?_,
    hpairs.genes_perm, fun elites helites => ?_⟩
  · have hlast := hpairs.getElem?_eq_of_unpaired (hlength ▸ hodd)
    rwa [hlength] at hlast
  · rw [crossoverStage_eq, List.take_of_length_le (Nat.le_of_lt helites),
      take_offspring draws rate 0 elites.length selected source (Nat.zero_le _)]

def trio : List Chromosome :=
  [.ofPattern [⟨1⟩, ⟨1⟩, ⟨1⟩, ⟨1⟩], .ofPattern [⟨2⟩, ⟨2⟩, ⟨2⟩, ⟨2⟩],
    .ofPattern [⟨3⟩, ⟨3⟩, ⟨3⟩, ⟨3⟩]]

theorem crossoverStage_conserves_trio :
    trio.length = 3 ∧
      ∃ crossed, (crossoverStage evenDraws () 1.0 3 [] trio).1 = crossed ∧
        crossed.map Chromosome.pattern = [[⟨1⟩, ⟨1⟩, ⟨2⟩, ⟨2⟩], [⟨2⟩, ⟨2⟩, ⟨1⟩, ⟨1⟩],
          [⟨3⟩, ⟨3⟩, ⟨3⟩, ⟨3⟩]] ∧
        crossed[2]? = trio[2]? ∧
        (∀ index, (genesAt index crossed).Perm (genesAt index trio)) ∧
        (crossoverStage evenDraws () 1.0 3 (trio.drop 2) trio).1 =
          trio.drop 2 ++ crossed.take 2 := by
  have hlength : trio.length = 3 := rfl
  obtain ⟨crossed, hcrossed, -, -, hodd, hgenes, helites⟩ :=
    crossoverStage_conserves evenDraws () 1.0 hlength
  refine ⟨hlength, crossed, hcrossed, ?_, hodd rfl, hgenes, helites (trio.drop 2) (by decide)⟩
  rw [← hcrossed]
  decide +kernel

end Cellular.Search
