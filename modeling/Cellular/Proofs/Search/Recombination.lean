import Cellular.Proofs.Search.Chromosome

/-!
# Recombined pairs

Steady state and crossover recombine the adjacent pairs of a population one after the
other, and an odd last member has no partner (`PairsRecombined`).  This moves no gene to
another index and loses none (`PairsRecombined.genes_perm`), it leaves the statistics
where they are, and it leaves the pairs from a bound on as they were
(`PairsRecombined.getElem?_eq_of_bound_le`).
-/

namespace Cellular

/-! ## The genes of a population -/

def genesAt (index : Nat) (population : List Chromosome) : List StateId :=
  population.filterMap (·.pattern[index]?)

theorem genesAt_cons {index : Nat} {member : Chromosome} {others : List Chromosome} :
    genesAt index (member :: others) = member.pattern[index]?.toList ++ genesAt index others := by
  rw [genesAt, List.filterMap_cons]
  cases member.pattern[index]? with
  | none => rfl
  | some gene => rfl

theorem Chromosome.Recombined.genes_perm {left right left' right' : Chromosome}
    (h : Recombined left right left' right') (index : Nat) :
    (left'.pattern[index]?.toList ++ right'.pattern[index]?.toList).Perm
      (left.pattern[index]?.toList ++ right.pattern[index]?.toList) := by
  cases h with
  | kept => exact .refl _
  | exchanged _ _ _ hexchanged =>
      have hgenes := hexchanged.genes index
      split at hgenes
      · obtain ⟨hleft, hright⟩ := Prod.mk.inj hgenes
        rw [hleft, hright]
        exact List.perm_append_comm
      · obtain ⟨hleft, hright⟩ := Prod.mk.inj hgenes
        rw [hleft, hright]

/-! ## Pair by pair -/

/-- Adjacent pairs are recombined, those from the bound on are as they were, and so is
an odd last member.  The first member has the given index. -/
inductive PairsRecombined (bound : Nat) :
    Nat → List Chromosome → List Chromosome → Prop
  | nil (index : Nat) : PairsRecombined bound index [] []
  | single (index : Nat) (last : Chromosome) : PairsRecombined bound index [last] [last]
  | pair {index : Nat} {first second first' second' : Chromosome}
      {others others' : List Chromosome}
      (hpair : Chromosome.Recombined first second first' second')
      (hspared : bound ≤ index → first' = first ∧ second' = second)
      (hothers : PairsRecombined bound (index + 2) others others') :
      PairsRecombined bound index (first :: second :: others) (first' :: second' :: others')

def pairAt (pair : Nat) (population : List Chromosome) : List Chromosome :=
  (population.drop (2 * pair)).take 2

theorem getElem?_pairAt (index : Nat) (population : List Chromosome) :
    (pairAt (index / 2) population)[index % 2]? = population[index]? := by
  rw [pairAt, List.getElem?_take_of_lt (Nat.mod_lt index Nat.two_pos), List.getElem?_drop,
    Nat.div_add_mod]

namespace PairsRecombined

variable {bound index : Nat} {before after : List Chromosome}

theorem length_eq (h : PairsRecombined bound index before after) :
    after.length = before.length := by
  induction h with
  | nil index => rfl
  | single index last => rfl
  | pair _ _ _ ih => rw [List.length_cons, List.length_cons, ih]; rfl

theorem stats_eq (h : PairsRecombined bound index before after) :
    after.map Chromosome.stats = before.map Chromosome.stats := by
  induction h with
  | nil index => rfl
  | single index last => rfl
  | pair hpair _ _ ih => simp only [List.map_cons, hpair.stats_eq, ih]

theorem genes_perm (h : PairsRecombined bound index before after) (gene : Nat) :
    (genesAt gene after).Perm (genesAt gene before) := by
  induction h with
  | nil index => exact .refl _
  | single index last => exact .refl _
  | pair hpair _ _ ih =>
      simp only [genesAt_cons, ← List.append_assoc]
      exact (hpair.genes_perm gene).append ih

theorem fits {area states : Nat} (h : PairsRecombined bound index before after)
    (hfits : ∀ member ∈ before, member.Fits area states) :
    ∀ member ∈ after, member.Fits area states := by
  induction h with
  | nil index => exact hfits
  | single index last => exact hfits
  | pair hpair _ _ ih =>
      simp only [List.forall_mem_cons] at hfits ⊢
      obtain ⟨hfirst, hsecond, hothers⟩ := hfits
      exact ⟨(hpair.fits hfirst hsecond).1, (hpair.fits hfirst hsecond).2, ih hothers⟩

theorem eq_of_bound_le (h : PairsRecombined bound index before after)
    (hbound : bound ≤ index) : after = before := by
  induction h with
  | nil index => rfl
  | single index last => rfl
  | pair _ hspared _ ih =>
      obtain ⟨rfl, rfl⟩ := hspared hbound
      rw [ih (Nat.le_add_right_of_le hbound)]

theorem drop (h : PairsRecombined bound index before after) (pair : Nat) :
    PairsRecombined bound (index + 2 * pair) (before.drop (2 * pair))
      (after.drop (2 * pair)) := by
  induction h generalizing pair with
  | nil index => simpa using .nil _
  | single index last =>
      cases pair with
      | zero => exact .single _ last
      | succ pair => simpa [Nat.mul_succ] using .nil _
  | @pair index _ _ _ _ others others' hpair hspared hothers ih =>
      cases pair with
      | zero => exact .pair hpair hspared hothers
      | succ pair =>
          have hindex : index + 2 * (pair + 1) = index + 2 + 2 * pair := by omega
          rw [hindex]
          exact ih pair

theorem take_two (h : PairsRecombined bound index before after) :
    PairsRecombined bound index (before.take 2) (after.take 2) := by
  cases h with
  | nil => exact .nil _
  | single _ last => exact .single _ last
  | pair hpair hspared _ => exact .pair hpair hspared (.nil _)

theorem pairAt (h : PairsRecombined bound index before after) (pair : Nat) :
    PairsRecombined bound (index + 2 * pair) (Cellular.pairAt pair before)
      (Cellular.pairAt pair after) :=
  (h.drop pair).take_two

theorem getElem?_eq_of_bound_le {place : Nat} (h : PairsRecombined bound index before after)
    (hbound : bound ≤ index + 2 * (place / 2)) : after[place]? = before[place]? := by
  rw [← getElem?_pairAt, ← getElem?_pairAt place before,
    (h.pairAt (place / 2)).eq_of_bound_le hbound]

theorem getElem?_eq_of_unpaired (h : PairsRecombined bound index before after)
    (hodd : before.length % 2 = 1) :
    after[before.length - 1]? = before[before.length - 1]? := by
  have hsingle := h.pairAt ((before.length - 1) / 2)
  have hlength : (Cellular.pairAt ((before.length - 1) / 2) before).length = 1 := by
    rw [Cellular.pairAt, List.length_take, List.length_drop]
    omega
  rw [← getElem?_pairAt, ← getElem?_pairAt (before.length - 1) before]
  generalize Cellular.pairAt ((before.length - 1) / 2) before = members at hsingle hlength
  generalize Cellular.pairAt ((before.length - 1) / 2) after = members' at hsingle
  cases hsingle with
  | nil => rfl
  | single => rfl
  | pair => cases hlength

theorem exists_pair {pair : Nat} {left right : Chromosome}
    (h : PairsRecombined bound index before after)
    (hleft : before[2 * pair]? = some left) (hright : before[2 * pair + 1]? = some right) :
    ∃ left' right', after[2 * pair]? = some left' ∧ after[2 * pair + 1]? = some right' ∧
      Chromosome.Recombined left right left' right' := by
  induction h generalizing pair with
  | nil index => cases hleft
  | single index last => cases hright
  | pair hpair _ _ ih =>
      cases pair with
      | zero =>
          cases hleft
          cases hright
          exact ⟨_, _, rfl, rfl, hpair⟩
      | succ pair => exact ih hleft hright

end PairsRecombined

end Cellular
