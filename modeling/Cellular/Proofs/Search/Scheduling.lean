import Cellular.Proofs.Search.PlayOut
import Mathlib.Logic.Relation

/-!
# Evaluation by workers

Workers evaluate the members of a population in any order and several at a time, and when
one of them fails, members that nobody has begun may be given up.  What comes of it would
depend on the schedule if one member could fail and another succeed, or two of them fail
differently.  But all names of a table are looked up before any cell is, so a play-out
fails either for every pattern and with one error, or for none (`evaluate_uniform`).  On
manageable extents it has an answer, and then all schedules give the same result
(`evaluate_any_order`).
-/

namespace Cellular

/-! ## Schedules -/

inductive Slot where
  | waiting (member : Chromosome)
  | running (member : Chromosome)
  | ended (member : Chromosome)

namespace Slot

def member : Slot → Chromosome
  | waiting member | running member | ended member => member

def work : Slot → Nat
  | waiting _ => 2
  | running _ => 1
  | ended _ => 0

end Slot

/-- The members of a population under evaluation, and the failure on record. -/
structure Evaluation where
  slots : List Slot
  failure : Option StepError

namespace Evaluation

def start (population : List Chromosome) : Evaluation :=
  ⟨population.map .waiting, none⟩

def outcome (evaluation : Evaluation) : Except StepError (List Chromosome) :=
  match evaluation.failure with
  | some error => .error error
  | none => .ok (evaluation.slots.map Slot.member)

def work (evaluation : Evaluation) : Nat := total (evaluation.slots.map Slot.work)

/-- Every member has been evaluated, or else given up after a failure. -/
def IsComplete (evaluation : Evaluation) : Prop :=
  ∀ slot ∈ evaluation.slots, (∃ member, slot = .ended member) ∨
    evaluation.failure ≠ none ∧ ∃ member, slot = .waiting member

/-- A worker takes a member or is done with one, which it never is if the play-out has no
answer.  If several fail, any of their errors may be the one that is kept. -/
inductive Step (playOut : PlayOut) : Evaluation → Evaluation → Prop
  | take {before after : List Slot} {failure : Option StepError} {member : Chromosome} :
      Step playOut ⟨before ++ .waiting member :: after, failure⟩
        ⟨before ++ .running member :: after, failure⟩
  | store {before after : List Slot} {failure : Option StepError} {member : Chromosome}
      {stats : ChromosomeStats}
      (hstats : playOut.evaluate member.pattern false = some (.ok stats)) :
      Step playOut ⟨before ++ .running member :: after, failure⟩
        ⟨before ++ .ended { member with stats := stats } :: after, failure⟩
  | fail {before after : List Slot} {failure : Option StepError} {member : Chromosome}
      {error kept : StepError}
      (herror : playOut.evaluate member.pattern false = some (.error error))
      (hkept : kept = error ∨ failure = some kept) :
      Step playOut ⟨before ++ .running member :: after, failure⟩
        ⟨before ++ .ended member :: after, some kept⟩

variable {playOut : PlayOut} {population : List Chromosome}
  {evaluation later : Evaluation}

/-! ## Every schedule ends -/

theorem Step.work_lt (h : Step playOut evaluation later) : later.work < evaluation.work := by
  cases h <;> simp [work, Slot.work]

theorem exists_step
    (hreturns : ∀ pattern, ∃ found, playOut.evaluate pattern false = some found)
    (h : ¬evaluation.IsComplete) : ∃ later, Step playOut evaluation later := by
  obtain ⟨slots, failure⟩ := evaluation
  simp only [IsComplete, not_forall, not_or, not_and] at h
  obtain ⟨slot, hmem, hgoing, hleft⟩ := h
  obtain ⟨before, after, rfl⟩ := List.append_of_mem hmem
  cases slot with
  | waiting member => exact ⟨_, .take⟩
  | running member =>
      obtain ⟨found, hfound⟩ := hreturns member.pattern
      cases found with
      | error error => exact ⟨_, .fail hfound (Or.inl rfl)⟩
      | ok stats => exact ⟨_, .store hfound⟩
  | ended member => exact absurd ⟨member, rfl⟩ hgoing

theorem exists_complete
    (hreturns : ∀ pattern, ∃ found, playOut.evaluate pattern false = some found)
    (evaluation : Evaluation) :
    ∃ final, Relation.ReflTransGen (Step playOut) evaluation final ∧ final.IsComplete := by
  induction hwork : evaluation.work using Nat.strong_induction_on generalizing evaluation with
  | _ work ih =>
      by_cases hcomplete : evaluation.IsComplete
      · exact ⟨evaluation, .refl, hcomplete⟩
      · obtain ⟨later, hstep⟩ := exists_step hreturns hcomplete
        obtain ⟨final, hsteps, hfinal⟩ := ih later.work (hwork ▸ hstep.work_lt) later rfl
        exact ⟨final, .head hstep hsteps, hfinal⟩

/-! ## What a schedule keeps -/

/-- A slot stands for a member of the population: a member whose evaluation has not ended
is untouched, and so is one whose evaluation has failed. -/
def Holds (playOut : PlayOut) (failure : Option StepError) (member : Chromosome)
    (slot : Slot) : Prop :=
  match slot with
  | .waiting held | .running held => held = member
  | .ended held =>
      (∃ stats, playOut.evaluate member.pattern false = some (.ok stats) ∧
        held = { member with stats := stats }) ∨
      held = member ∧ failure ≠ none ∧
        ∃ error, playOut.evaluate member.pattern false = some (.error error)

structure Tracks (playOut : PlayOut) (population : List Chromosome)
    (evaluation : Evaluation) : Prop where
  slots : List.Forall₂ (Holds playOut evaluation.failure) population evaluation.slots
  failure : ∀ error, evaluation.failure = some error →
    ∃ member ∈ population, playOut.evaluate member.pattern false = some (.error error)

theorem tracks_start : Tracks playOut population (start population) := by
  refine ⟨?_, nofun⟩
  rw [start, List.forall₂_map_right_iff, List.forall₂_same]
  exact fun _ _ => rfl

theorem forall₂_replace {α β : Type} {relation relation' : α → β → Prop} {items : List α}
    {before after : List β} {image image' : β}
    (h : List.Forall₂ relation items (before ++ image :: after))
    (hkeep : ∀ item image, relation item image → relation' item image)
    (hnew : ∀ item ∈ items, relation item image → relation' item image') :
    List.Forall₂ relation' items (before ++ image' :: after) := by
  induction before generalizing items with
  | nil =>
      cases h with
      | cons hhead htail =>
          exact .cons (hnew _ List.mem_cons_self hhead) (htail.imp hkeep)
  | cons first before ih =>
      cases h with
      | cons hhead htail =>
          exact .cons (hkeep _ _ hhead)
            (ih htail fun item hmem => hnew item (List.mem_cons_of_mem _ hmem))

theorem Holds.mono {failure : Option StepError} {kept : StepError} {member : Chromosome}
    {slot : Slot} (h : Holds playOut failure member slot) :
    Holds playOut (some kept) member slot := by
  cases slot with
  | waiting held | running held => exact h
  | ended held => exact h.imp_right fun hfailed => ⟨hfailed.1, nofun, hfailed.2.2⟩

theorem Tracks.step (h : Tracks playOut population evaluation)
    (hstep : Step playOut evaluation later) : Tracks playOut population later := by
  cases hstep with
  | take =>
      exact ⟨forall₂_replace h.slots (fun _ _ => id) fun _ _ hheld => hheld, h.failure⟩
  | store hstats =>
      refine ⟨forall₂_replace h.slots (fun _ _ => id) fun member _ hheld => ?_, h.failure⟩
      cases hheld
      exact Or.inl ⟨_, hstats, rfl⟩
  | fail herror hkept =>
      refine ⟨forall₂_replace h.slots (fun _ _ => Holds.mono) fun member _ hheld => ?_, ?_⟩
      · cases hheld
        exact Or.inr ⟨rfl, nofun, _, herror⟩
      · intro found hfound
        cases hfound
        rcases hkept with rfl | hearlier
        · obtain ⟨member, hmem, hheld⟩ := exists_mem_of_forall₂ h.slots.flip
            (List.mem_append_right _ List.mem_cons_self)
          cases hheld
          exact ⟨_, hmem, herror⟩
        · exact h.failure _ hearlier

theorem Tracks.run (h : Tracks playOut population evaluation)
    (hsteps : Relation.ReflTransGen (Step playOut) evaluation later) :
    Tracks playOut population later := by
  induction hsteps with
  | refl => exact h
  | tail _ hstep ih => exact ih.step hstep

/-! ## Completed schedules -/

theorem Tracks.outcome_of_succeeds (h : Tracks playOut population evaluation)
    (hcomplete : evaluation.IsComplete)
    (hsucceeds : ∀ pattern, ∃ stats, playOut.evaluate pattern false = some (.ok stats)) :
    playOut.evaluateAll (PlayOut.budget playOut.targets) false population =
      some evaluation.outcome := by
  have hnever : ∀ pattern error, playOut.evaluate pattern false ≠ some (.error error) := by
    intro pattern error herror
    obtain ⟨stats, hstats⟩ := hsucceeds pattern
    rw [hstats] at herror
    cases herror
  have hnone : evaluation.failure = none := by
    refine Option.eq_none_iff_forall_ne_some.mpr fun error hfailure => ?_
    obtain ⟨member, -, herror⟩ := h.failure error hfailure
    exact hnever _ _ herror
  rw [outcome, hnone, PlayOut.evaluateAll_eq_ok_iff, List.forall₂_map_right_iff]
  refine ((List.forall₂_and_left _ _).mpr ⟨hcomplete, h.slots.flip⟩).flip.imp
    fun member slot hslot => ?_
  rcases hslot with ⟨⟨held, rfl⟩ | ⟨hsome, -⟩, hheld⟩
  · rcases hheld with ⟨stats, hstats, rfl⟩ | ⟨-, -, error, herror⟩
    · exact PlayOut.evaluateChromosome_eq_ok_iff.mpr ⟨stats, hstats, rfl⟩
    · exact absurd herror (hnever _ _)
  · exact absurd hnone hsome

theorem Tracks.outcome_of_fails (h : Tracks playOut population evaluation)
    (hcomplete : evaluation.IsComplete) {error : StepError}
    (hfails : ∀ pattern, playOut.evaluate pattern false = some (.error error)) :
    playOut.evaluateAll (PlayOut.budget playOut.targets) false population =
        some evaluation.outcome ∧
      evaluation.slots.map Slot.member = population := by
  have hkept : evaluation.slots.map Slot.member = population := by
    refine List.forall₂_eq_eq_eq ▸ (List.forall₂_map_left_iff.mpr ?_)
    refine h.slots.flip.imp fun slot member hheld => ?_
    cases slot with
    | waiting held | running held => exact hheld
    | ended held =>
        rcases hheld with ⟨stats, hstats, -⟩ | ⟨hsame, -⟩
        · rw [hfails] at hstats
          cases hstats
        · exact hsame
  refine ⟨?_, hkept⟩
  cases population with
  | nil =>
      have hnone : evaluation.failure = none := by
        refine Option.eq_none_iff_forall_ne_some.mpr fun found hfailure => ?_
        obtain ⟨member, hmem, -⟩ := h.failure found hfailure
        cases hmem
      rw [outcome, hnone, hkept]
      rfl
  | cons first others =>
      have hfirst := PlayOut.evaluateChromosome_eq_error_iff.mpr (hfails first.pattern)
      rw [PlayOut.evaluateAll, bind_of_eq_some hfirst, outcome]
      cases hfailure : evaluation.failure with
      | some found =>
          obtain ⟨member, -, hfound⟩ := h.failure found hfailure
          rw [hfails] at hfound
          cases hfound
          rfl
      | none =>
          -- The first member would be evaluated or given up without a failure.
          obtain ⟨slot, hslot, hheld⟩ := exists_mem_of_forall₂ h.slots List.mem_cons_self
          rcases hcomplete slot hslot with ⟨held, rfl⟩ | ⟨hsome, -⟩
          · rcases hheld with ⟨stats, hstats, -⟩ | ⟨-, hsome, -⟩
            · rw [hfails] at hstats
              cases hstats
            · exact absurd hfailure hsome
          · exact absurd hfailure hsome

end Evaluation

namespace PlayOut

variable {playOut : PlayOut}

/-- A play-out with an area fails only at a fault of its table, and at that always. -/
theorem evaluate_uniform (hfits : playOut.width * playOut.height < Word.modulus)
    (htarget : 0 < playOut.targets.generations) :
    (∃ error, playOut.automaton.FirstFault 0 playOut.automaton.table.rules error ∧
        ∀ pattern, playOut.evaluate pattern false = some (.error error)) ∨
      (∀ rule ∈ playOut.automaton.table.rules, ¬playOut.automaton.IsForeign rule) ∧
        ∀ pattern error, playOut.evaluate pattern false ≠ some (.error error) := by
  have hbudget := budget_eq htarget
  cases hresolve : playOut.automaton.resolve with
  | ok images =>
      have hfamiliar := Automaton.not_isForeign_of_resolve hresolve
      exact Or.inr ⟨hfamiliar,
        evaluateWithin_ne_error hfamiliar htarget (Nat.le_of_eq hbudget.symm)⟩
  | error error =>
      have hfault := Automaton.resolve_eq_error_iff.mp hresolve
      refine Or.inl ⟨error, hfault, fun pattern => ?_⟩
      have hstep : ∀ grid, playOut.automaton.step? grid false = some (.error error) :=
        fun grid => Automaton.step?_eq_some_error_iff.mpr
          (Or.inl (Automaton.changes?_eq_some_error_iff.mpr (Or.inl hfault)))
      obtain ⟨budget, hsucc⟩ := Nat.exists_eq_add_of_lt htarget
      rw [evaluate, hbudget, hsucc, Nat.zero_add, evaluateWithin_eq hfits,
        bind_of_eq_some (playFrom_of_failed (hstep _) _)]

theorem exists_evaluate (hextents : Manageable playOut.width playOut.height)
    (htarget : 0 < playOut.targets.generations)
    (hfamiliar : ∀ rule ∈ playOut.automaton.table.rules, ¬playOut.automaton.IsForeign rule)
    (pattern : List StateId) : ∃ stats, playOut.evaluate pattern false = some (.ok stats) :=
  exists_evaluateWithin hfamiliar hextents htarget (Nat.le_of_eq (budget_eq htarget).symm)
    pattern

/-- Either no pattern can be evaluated, always for the first fault of the table, or the
table has none and no pattern fails; without an area there is no answer for any of them.
On manageable extents there always is one.  So every schedule for the members of a
population can be completed, and completed ones have the result of an evaluation in order:
the same error, and no member is touched, or every member with the statistics of its own
pattern. -/
theorem evaluate_any_order (playOut : PlayOut)
    (htarget : 0 < playOut.targets.generations) :
    (Word.modulus ≤ playOut.width * playOut.height →
        ∀ pattern, playOut.evaluate pattern false = none) ∧
      (playOut.width * playOut.height < Word.modulus →
        (∃ error, playOut.automaton.FirstFault 0 playOut.automaton.table.rules error ∧
            ∀ pattern, playOut.evaluate pattern false = some (.error error)) ∨
          (∀ rule ∈ playOut.automaton.table.rules, ¬playOut.automaton.IsForeign rule) ∧
            ∀ pattern error, playOut.evaluate pattern false ≠ some (.error error)) ∧
      (Manageable playOut.width playOut.height →
        ((∃ error, playOut.automaton.FirstFault 0 playOut.automaton.table.rules error ∧
              ∀ pattern, playOut.evaluate pattern false = some (.error error)) ∨
            (∀ rule ∈ playOut.automaton.table.rules, ¬playOut.automaton.IsForeign rule) ∧
              ∀ pattern, ∃ stats, playOut.evaluate pattern false = some (.ok stats)) ∧
          ∀ population evaluation, Relation.ReflTransGen (Evaluation.Step playOut)
              (.start population) evaluation →
            (∃ final, Relation.ReflTransGen (Evaluation.Step playOut) evaluation final ∧
              final.IsComplete) ∧
            (evaluation.IsComplete →
              playOut.evaluateAll (budget playOut.targets) false population =
                  some evaluation.outcome ∧
                ((∃ error, evaluation.outcome = .error error ∧
                    evaluation.slots.map Slot.member = population ∧
                    ∀ pattern, playOut.evaluate pattern false = some (.error error)) ∨
                  ∃ members, evaluation.outcome = .ok members ∧
                    List.Forall₂ (fun member after => after.pattern = member.pattern ∧
                      playOut.evaluate member.pattern false = some (.ok after.stats))
                      population members))) := by
  refine ⟨fun hlong pattern => evaluateWithin_eq_none hlong pattern false,
    fun hfits => evaluate_uniform hfits htarget, fun hextents => ?_⟩
  have huniform : (∃ error,
        playOut.automaton.FirstFault 0 playOut.automaton.table.rules error ∧
          ∀ pattern, playOut.evaluate pattern false = some (.error error)) ∨
      (∀ rule ∈ playOut.automaton.table.rules, ¬playOut.automaton.IsForeign rule) ∧
        ∀ pattern, ∃ stats, playOut.evaluate pattern false = some (.ok stats) :=
    (evaluate_uniform hextents.area_lt htarget).imp_right fun hnever =>
      ⟨hnever.1, exists_evaluate hextents htarget hnever.1⟩
  have hreturns : ∀ pattern, ∃ found, playOut.evaluate pattern false = some found := by
    intro pattern
    rcases huniform with ⟨error, -, hfails⟩ | ⟨-, hsucceeds⟩
    · exact ⟨_, hfails pattern⟩
    · obtain ⟨stats, hstats⟩ := hsucceeds pattern
      exact ⟨_, hstats⟩
  refine ⟨huniform, fun population evaluation hsteps =>
    ⟨evaluation.exists_complete hreturns, fun hcomplete => ?_⟩⟩
  have htracks := Evaluation.tracks_start.run hsteps
  have houtcome : playOut.evaluateAll (budget playOut.targets) false population =
      some evaluation.outcome := by
    rcases huniform with ⟨error, -, hfails⟩ | ⟨-, hsucceeds⟩
    · exact (htracks.outcome_of_fails hcomplete hfails).1
    · exact htracks.outcome_of_succeeds hcomplete hsucceeds
  refine ⟨houtcome, ?_⟩
  cases hresult : evaluation.outcome with
  | ok members =>
      rw [hresult, evaluateAll_eq_ok_iff] at houtcome
      refine Or.inr ⟨members, rfl, houtcome.imp fun member after hafter => ?_⟩
      obtain ⟨stats, hstats, rfl⟩ := evaluateChromosome_eq_ok_iff.mp hafter
      exact ⟨rfl, hstats⟩
  | error found =>
      rw [hresult] at houtcome
      obtain ⟨member, -, hfound⟩ := exists_of_evaluateAll_eq_error houtcome
      rcases huniform with ⟨error, -, hfails⟩ | ⟨-, hsucceeds⟩
      · cases (hfails member.pattern).symm.trans hfound
        exact Or.inl ⟨_, rfl, (htracks.outcome_of_fails hcomplete hfails).2, hfails⟩
      · obtain ⟨stats, hstats⟩ := hsucceeds member.pattern
        cases hstats.symm.trans hfound

/-- The second of two members is evaluated while nobody has begun with the first. -/
def halfway (stats : ChromosomeStats) : Evaluation :=
  ⟨[.waiting (.ofPattern [⟨1⟩]), .ended ⟨[⟨2⟩], stats⟩], none⟩

theorem evaluate_any_order_trail :
    ∃ stats, trailPlayOut.evaluate [⟨2⟩] false = some (.ok stats) ∧
      ∃ final, Relation.ReflTransGen (Evaluation.Step trailPlayOut) (halfway stats) final ∧
        final.IsComplete ∧
        trailPlayOut.evaluateAll 5 false [.ofPattern [⟨1⟩], .ofPattern [⟨2⟩]] =
          some final.outcome := by
  obtain ⟨-, huniform, hmanageable⟩ := evaluate_any_order trailPlayOut (by decide)
  obtain ⟨hanswers, hschedules⟩ := hmanageable manageable_trailPlayOut
  have hfamiliar : ¬∃ error,
      Automaton.trail.FirstFault 0 Automaton.trail.table.rules error := by
    rintro ⟨error, herror⟩
    have hresolve := Automaton.resolve_eq_error_iff.mpr herror
    have hok : Automaton.trail.resolve.isOk = true := by decide +kernel
    rw [hresolve] at hok
    cases hok
  obtain ⟨stats, hstats⟩ := (hanswers.resolve_left fun ⟨error, herror, _⟩ =>
    hfamiliar ⟨error, herror⟩).2 [⟨2⟩]
  have hbegun : Relation.ReflTransGen (Evaluation.Step trailPlayOut)
      (.start [.ofPattern [⟨1⟩], .ofPattern [⟨2⟩]]) (halfway stats) :=
    .head (.take : Evaluation.Step trailPlayOut ⟨[.waiting _] ++ .waiting _ :: [], none⟩ _)
      (.single (.store hstats))
  obtain ⟨⟨final, hsteps, hcomplete⟩, -⟩ := hschedules _ _ hbegun
  exact ⟨stats, hstats, final, hsteps, hcomplete,
    ((hschedules _ _ (hbegun.trans hsteps)).2 hcomplete).1⟩

/-- Without an area no pattern is evaluated and none fails, and where a coordinate is too
long one pattern is evaluated and another has no answer. -/
theorem evaluate_mixed :
    (0 < vastPlayOut.targets.generations ∧
        ∀ pattern, vastPlayOut.evaluate pattern false = none) ∧
      0 < edgePlayOut.targets.generations ∧
        (∃ stats, edgePlayOut.evaluate [] false = some (.ok stats)) ∧
        edgePlayOut.evaluate edgePattern false = none := by
  have hempty : ((edgePlayOut.evaluate [] false).any Except.isOk) = true := by
    decide +kernel
  obtain ⟨found, hfound, hok⟩ := (Option.any_eq_true _ _).mp hempty
  obtain ⟨stats, rfl⟩ := exists_ok_of_isOk hok
  exact ⟨⟨by decide, fun pattern => evaluateWithin_eq_none (by decide) pattern false⟩,
    by decide, ⟨stats, hfound⟩, evaluate_edgePattern⟩

end PlayOut

end Cellular
