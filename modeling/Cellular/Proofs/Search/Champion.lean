import Cellular.Search.Engine
import Mathlib.Data.List.Induction

/-!
# Champions

Among defined scores none exceeds another just if its level is no higher
(`exceeds_eq_false_iff`).  A champion of a record is its first entry that no other
exceeds.  A search keeps the best of each epoch and the best of those; that is the
champion of everything on record in the order in which it was evaluated
(`isChampion_leader`), because an entry takes the place of another only if it
exceeds it.
-/

namespace Cellular

/-! ## The order of defined scores -/

namespace Score

variable {score other : Score}

theorem exceeds_iff (h : score.isUndefined = false) (hother : other.isUndefined = false) :
    score.exceeds other = true ↔ other.level < score.level := by
  rw [exceeds, h, hother]
  exact decide_eq_true_iff

theorem exceeds_eq_false_iff (h : score.isUndefined = false)
    (hother : other.isUndefined = false) :
    score.exceeds other = false ↔ score.level ≤ other.level := by
  rw [← Bool.not_eq_true, exceeds_iff h hother, Int.not_lt]

theorem level_le_of_place_le (h : score.place ≤ other.place) :
    score.level ≤ other.level := by
  unfold place at h
  unfold level
  by_cases hsign : score.isNegative = true <;>
    by_cases hother : other.isNegative = true <;>
    simp only [hsign, hother, if_true, if_false, Bool.false_eq_true] at h ⊢ <;> omega

theorem not_exceeds_of_level_le (h : score.level ≤ other.level) :
    score.exceeds other = false := by
  rw [exceeds, decide_eq_false (Int.not_lt.mpr h), Bool.and_false]

end Score

/-! ## Champions of a record -/

namespace Search

abbrev Entry := Nat × Chromosome

def IsDefined (entries : List Entry) : Prop :=
  ∀ entry ∈ entries, entry.2.fitness.isUndefined = false

/-- The first of the entries that no entry exceeds: it exceeds all before it. -/
def IsChampion (entries : List Entry) (champion : Entry) : Prop :=
  ∃ earlier later, entries = earlier ++ champion :: later ∧
    (∀ entry ∈ earlier, champion.2.fitness.exceeds entry.2.fitness = true) ∧
    ∀ entry ∈ later, entry.2.fitness.exceeds champion.2.fitness = false

variable {entries : List Entry} {champion entry : Entry}

theorem IsDefined.of_append {more : List Entry} (h : IsDefined (entries ++ more)) :
    IsDefined entries ∧ IsDefined more :=
  List.forall_mem_append.mp h

namespace IsChampion

theorem mem (h : IsChampion entries champion) : champion ∈ entries := by
  obtain ⟨earlier, later, rfl, -, -⟩ := h
  exact List.mem_append_right _ List.mem_cons_self

theorem not_exceeded (h : IsChampion entries champion) (hdefined : IsDefined entries)
    (hmem : entry ∈ entries) :
    entry.2.fitness.exceeds champion.2.fitness = false := by
  have hchampion := hdefined champion h.mem
  have hentry := hdefined entry hmem
  obtain ⟨earlier, later, rfl, hearlier, hlater⟩ := h
  rcases List.mem_append.mp hmem with hbefore | hafter
  · have hbelow := (Score.exceeds_iff hchampion hentry).mp (hearlier entry hbefore)
    exact (Score.exceeds_eq_false_iff hentry hchampion).mpr (Int.le_of_lt hbelow)
  · rcases List.mem_cons.mp hafter with rfl | hrest
    · exact Score.not_exceeds_of_level_le (Int.le_refl _)
    · exact hlater entry hrest

/-- A further entry becomes the champion just if it exceeds the one so far. -/
theorem concat (h : IsChampion entries champion)
    (hdefined : IsDefined (entries ++ [entry])) :
    IsChampion (entries ++ [entry])
      (if entry.2.fitness.exceeds champion.2.fitness then entry else champion) := by
  obtain ⟨hentries, hlast⟩ := hdefined.of_append
  split
  · rename_i hexceeds
    refine ⟨entries, [], rfl, fun other hmem => ?_, fun _ hnone => nomatch hnone⟩
    have hentry := hlast entry (List.mem_singleton_self entry)
    have hchampion := hentries champion h.mem
    have hother := hentries other hmem
    rw [Score.exceeds_iff hentry hchampion] at hexceeds
    have hbelow := (Score.exceeds_eq_false_iff hother hchampion).mp
      (h.not_exceeded hentries hmem)
    exact (Score.exceeds_iff hentry hother).mpr (Int.lt_of_le_of_lt hbelow hexceeds)
  · rename_i hnot
    obtain ⟨earlier, later, rfl, hearlier, hlater⟩ := h
    refine ⟨earlier, later ++ [entry], by simp, hearlier, ?_⟩
    rw [List.forall_mem_append, List.forall_mem_singleton]
    exact ⟨hlater, Bool.not_eq_true _ ▸ hnot⟩

end IsChampion

/-! ## What a search keeps -/

def leader (best : Option Entry) (entries : List Entry) : Option Entry :=
  entries.foldl (fun best entry => improve best entry.1 entry.2) best

theorem leader_append (best : Option Entry) (entries more : List Entry) :
    leader best (entries ++ more) = leader (leader best entries) more :=
  List.foldl_append

theorem improve_some (champion entry : Entry) :
    improve (some champion) entry.1 entry.2 =
      some (if entry.2.fitness.exceeds champion.2.fitness then entry else champion) := by
  rw [improve]
  split <;> rfl

theorem isChampion_leader (hsome : entries ≠ []) (hdefined : IsDefined entries) :
    ∃ champion, leader none entries = some champion ∧
      IsChampion entries champion := by
  induction entries using List.reverseRecOn with
  | nil => exact absurd rfl hsome
  | append_singleton entries entry ih =>
      rw [leader_append]
      by_cases hfirst : entries = []
      · subst hfirst
        exact ⟨entry, rfl, [], [], rfl, nofun, nofun⟩
      · obtain ⟨champion, hleader, hchampion⟩ := ih hfirst hdefined.of_append.1
        rw [hleader]
        exact ⟨_, improve_some champion entry, hchampion.concat hdefined⟩

theorem IsDefined.leader (h : IsDefined entries) :
    ∀ entry ∈ leader none entries, entry.2.fitness.isUndefined = false := by
  by_cases hsome : entries = []
  · subst hsome
    exact nofun
  · obtain ⟨champion, hleader, hchampion⟩ := isChampion_leader hsome h
    rintro entry hmem
    rw [hleader, Option.mem_some_iff] at hmem
    exact hmem ▸ h champion hchampion.mem

/-! ## The best of an epoch -/

theorem fittest_concat (first : Chromosome) (others : List Chromosome)
    (last : Chromosome) :
    fittest first (others ++ [last]) =
      if last.fitness.exceeds (fittest first others).fitness then last
      else fittest first others :=
  List.foldl_append

theorem fittest_mem (first : Chromosome) (others : List Chromosome) :
    fittest first others ∈ first :: others := by
  induction others using List.reverseRecOn with
  | nil => exact List.mem_cons_self
  | append_singleton others last ih =>
      rw [fittest_concat, ← List.cons_append]
      split
      · exact List.mem_append_right _ (List.mem_singleton_self last)
      · exact List.mem_append_left _ ih

theorem level_le_fittest {first : Chromosome} {others : List Chromosome}
    (hdefined : ∀ member ∈ first :: others, member.fitness.isUndefined = false) :
    ∀ member ∈ first :: others,
      member.fitness.level ≤ (fittest first others).fitness.level := by
  induction others using List.reverseRecOn with
  | nil =>
      intro member hmem
      rw [List.mem_singleton.mp hmem]
      exact Int.le_refl _
  | append_singleton others last ih =>
      rw [← List.cons_append, List.forall_mem_append, List.forall_mem_singleton]
        at hdefined ⊢
      have hfittest := hdefined.1 _ (fittest_mem first others)
      rw [fittest_concat]
      split
      · rename_i hexceeds
        rw [Score.exceeds_iff hdefined.2 hfittest] at hexceeds
        exact ⟨fun member hmem => by have := ih hdefined.1 member hmem; omega,
          Int.le_refl _⟩
      · rename_i hnot
        rw [Bool.not_eq_true, Score.exceeds_eq_false_iff hdefined.2 hfittest] at hnot
        exact ⟨ih hdefined.1, hnot⟩

theorem improve_improve {best : Option Entry} {epoch : Nat}
    {found last : Chromosome}
    (hbest : ∀ entry ∈ best, entry.2.fitness.isUndefined = false)
    (hfound : found.fitness.isUndefined = false)
    (hlast : last.fitness.isUndefined = false) :
    improve (improve best epoch found) epoch last =
      improve best epoch
        (if last.fitness.exceeds found.fitness then last else found) := by
  cases best with
  | none => exact improve_some (epoch, found) (epoch, last) |>.trans (by split <;> rfl)
  | some champion =>
      have hchampion := hbest champion rfl
      have hsome := fun member => improve_some champion (epoch, member)
      simp only at hsome
      by_cases hbetter : found.fitness.exceeds champion.2.fitness = true
      · have hfound' := improve_some (epoch, found) (epoch, last)
        rw [hsome, if_pos hbetter, hsome, hfound']
        by_cases hfurther : last.fitness.exceeds found.fitness = true
        · have hbeyond : last.fitness.exceeds champion.2.fitness = true := by
            rw [Score.exceeds_iff hfound hchampion] at hbetter
            rw [Score.exceeds_iff hlast hfound] at hfurther
            exact (Score.exceeds_iff hlast hchampion).mpr (Int.lt_trans hbetter hfurther)
          rw [if_pos hfurther, if_pos hfurther, if_pos hbeyond]
        · rw [if_neg hfurther, if_neg hfurther, if_pos hbetter]
      · rw [hsome, if_neg hbetter, hsome]
        by_cases hfurther : last.fitness.exceeds found.fitness = true
        · rw [if_pos hfurther, hsome]
        · have hbehind : ¬last.fitness.exceeds champion.2.fitness = true := by
            rw [Score.exceeds_iff hfound hchampion] at hbetter
            rw [Score.exceeds_iff hlast hfound] at hfurther
            rw [Score.exceeds_iff hlast hchampion]
            omega
          rw [if_neg hfurther, hsome, if_neg hbetter, if_neg hbehind]

/-- The best so far against the fittest of an epoch comes to the best so far against
each member of the epoch in turn. -/
theorem improve_fittest {best : Option Entry} (epoch : Nat) (first : Chromosome)
    (others : List Chromosome)
    (hbest : ∀ entry ∈ best, entry.2.fitness.isUndefined = false)
    (hdefined : ∀ member ∈ first :: others, member.fitness.isUndefined = false) :
    improve best epoch (fittest first others) =
      leader best ((first :: others).map (epoch, ·)) := by
  induction others using List.reverseRecOn with
  | nil => rfl
  | append_singleton others last ih =>
      rw [← List.cons_append, List.forall_mem_append, List.forall_mem_singleton]
        at hdefined
      have hfittest := hdefined.1 _ (fittest_mem first others)
      rw [fittest_concat, ← improve_improve hbest hfittest hdefined.2,
        ih hdefined.1, ← List.cons_append, List.map_append, leader_append]
      rfl

end Search

end Cellular
