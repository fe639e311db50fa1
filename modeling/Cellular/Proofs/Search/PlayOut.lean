import Cellular.Proofs.Automaton.Failure
import Cellular.Proofs.Grid.Building
import Cellular.Search.PlayOut
import Mathlib.Order.Nat

/-!
# Play-outs as iterated steps

A play-out follows the grids that its automaton leads to from the pattern, one step
after the other.  It ends with the first of them from which nothing changes or which
is at a target, and its statistics are those of the grids up to there
(`evaluate_follows_steps`).  A generation target is always met in the end, so a
play-out with one comes to an end unless a step fails.
-/

namespace Cellular

/-! ## The grids of a run -/

namespace Automaton

variable {automaton : Automaton} {grid : Grid} {count : Nat}

def gridAfter (automaton : Automaton) (grid : Grid) (count : Nat) : Grid :=
  Nat.iterate (fun grid => (automaton.call grid).2) count grid

theorem gridAfter_succ :
    automaton.gridAfter grid (count + 1) =
      (automaton.call (automaton.gridAfter grid count)).2 :=
  Function.iterate_succ_apply' _ count grid

def populations (automaton : Automaton) (grid : Grid) (count : Nat) : List Nat :=
  (List.range count).map fun earlier =>
    (automaton.gridAfter grid (earlier + 1)).liveCount

def trajectory (automaton : Automaton) (grid : Grid) (count : Nat) : Trajectory :=
  ⟨count, total (automaton.populations grid count)⟩

theorem trajectory_succ :
    automaton.trajectory grid (count + 1) =
      (automaton.trajectory grid count).record
        (automaton.gridAfter grid (count + 1)).liveCount := by
  simp [trajectory, Trajectory.record, populations, List.range_succ]

theorem extents_gridAfter (h : grid.Consistent) (count : Nat) :
    (automaton.gridAfter grid count).Consistent ∧
      (automaton.gridAfter grid count).width = grid.width ∧
      (automaton.gridAfter grid count).height = grid.height := by
  induction count with
  | zero => exact ⟨h, rfl, rfl⟩
  | succ count ih =>
      obtain ⟨hbefore, hwidth, hheight⟩ := ih
      obtain ⟨hafter, hwidth', hheight'⟩ := hbefore.stepInPlace automaton false
      rw [gridAfter_succ, call]
      exact ⟨hafter, hwidth'.trans hwidth, hheight'.trans hheight⟩

end Automaton

namespace PlayOut

variable {playOut : PlayOut} {grid : Grid} {budget count : Nat} {result : Trajectory}

/-! ## The end of a play-out -/

/-- A generation target is met by its number alone, a population target by any grid
but the first. -/
def AtTarget (playOut : PlayOut) (grid : Grid) (count : Nat) : Prop :=
  (0 < playOut.targets.generations ∧ count = playOut.targets.generations) ∨
    (0 < count ∧ 0 < playOut.targets.population ∧
      playOut.targets.population ≤ (playOut.automaton.gridAfter grid count).liveCount)

/-- Nothing changes any more after so many generations, or a target is met. -/
def Stops (playOut : PlayOut) (grid : Grid) (count : Nat) : Prop :=
  (playOut.automaton.call (playOut.automaton.gridAfter grid count)).1 =
      some (.ok .finished) ∨
    playOut.AtTarget grid count

def Changes (playOut : PlayOut) (grid : Grid) (count : Nat) : Prop :=
  ∃ changes, (playOut.automaton.call (playOut.automaton.gridAfter grid count)).1 =
    some (.ok (.changed changes))

def IsAhead (playOut : PlayOut) (count : Nat) : Prop :=
  playOut.targets.generations = 0 ∨ count < playOut.targets.generations

/-- So many calls for a step see the given generations: one call for each of them, and
one more to learn that nothing changes, unless a target is met before. -/
def Suffice (playOut : PlayOut) (grid : Grid) (calls count : Nat) : Prop :=
  count < calls ∨ playOut.AtTarget grid count ∧ count ≤ calls

theorem reached_iff (hahead : playOut.IsAhead count) :
    reached playOut.targets (playOut.automaton.trajectory grid (count + 1))
        (playOut.automaton.gridAfter grid (count + 1)).liveCount = true ↔
      playOut.AtTarget grid (count + 1) := by
  unfold IsAhead at hahead
  have hcount : (playOut.automaton.trajectory grid (count + 1)).generations =
      count + 1 := rfl
  simp only [reached, AtTarget, hcount, Bool.or_eq_true, Bool.and_eq_true,
    decide_eq_true_eq]
  refine or_congr ?_ ?_ <;> omega

theorem IsAhead.succ (hahead : playOut.IsAhead count)
    (h : ¬playOut.AtTarget grid (count + 1)) : playOut.IsAhead (count + 1) := by
  unfold IsAhead at *
  simp only [AtTarget, not_or, not_and] at h
  omega

/-! ## One generation -/

theorem playFrom_of_finished
    (h : (playOut.automaton.call grid).1 = some (.ok .finished)) (trajectory : Trajectory) :
    playOut.playFrom false (budget + 1) grid trajectory = some (.ok trajectory) := by
  rw [playFrom, bind_of_eq_some (Automaton.step?_of_call h)]

theorem playFrom_of_failed {error : StepError}
    (h : playOut.automaton.step? grid false = some (.error error)) (trajectory : Trajectory) :
    playOut.playFrom false (budget + 1) grid trajectory = some (.error error) := by
  rw [playFrom, bind_of_eq_some h]

theorem playFrom_of_none (h : playOut.automaton.step? grid false = none)
    (trajectory : Trajectory) :
    playOut.playFrom false (budget + 1) grid trajectory = none := by
  rw [playFrom, h]
  rfl

theorem playFrom_of_changed {changes : List CellChange}
    (h : (playOut.automaton.call grid).1 = some (.ok (.changed changes)))
    (trajectory : Trajectory) :
    playOut.playFrom false (budget + 1) grid trajectory =
      if reached playOut.targets
          (trajectory.record (playOut.automaton.call grid).2.liveCount)
          (playOut.automaton.call grid).2.liveCount = true then
        some (.ok (trajectory.record (playOut.automaton.call grid).2.liveCount))
      else
        playOut.playFrom false budget (playOut.automaton.call grid).2
          (trajectory.record (playOut.automaton.call grid).2.liveCount) := by
  rw [playFrom, bind_of_eq_some (Automaton.step?_of_call h)]

/-! ## A whole play-out -/

theorem exists_stop_of_playFrom (hahead : playOut.IsAhead count)
    (hgoing : ¬playOut.AtTarget grid count)
    (h : playOut.playFrom false budget (playOut.automaton.gridAfter grid count)
      (playOut.automaton.trajectory grid count) = some (.ok result)) :
    ∃ last, count ≤ last ∧ result = playOut.automaton.trajectory grid last ∧
      playOut.Stops grid last ∧ playOut.Suffice grid (count + budget) last ∧
      ∀ earlier, count ≤ earlier → earlier < last →
        playOut.Changes grid earlier ∧ ¬playOut.Stops grid earlier := by
  induction budget generalizing count with
  | zero => cases h
  | succ budget ih =>
      rcases hcall : (playOut.automaton.call
        (playOut.automaton.gridAfter grid count)).1 with _ | error | changes | _
      · rw [playFrom_of_none (Automaton.step?_of_call_none hcall)] at h
        cases h
      · rw [playFrom_of_failed (Automaton.step?_of_call_error hcall)] at h
        cases h
      · have hnow : playOut.Changes grid count ∧ ¬playOut.Stops grid count := by
          refine ⟨⟨changes, hcall⟩, ?_⟩
          rintro (hfinished | htarget)
          · rw [hcall] at hfinished
            cases hfinished
          · exact hgoing htarget
        rw [playFrom_of_changed hcall, ← Automaton.gridAfter_succ,
          ← Automaton.trajectory_succ] at h
        split at h
        · rename_i hreached
          cases h
          have htarget := (reached_iff hahead).mp hreached
          refine ⟨count + 1, Nat.le_succ count, rfl, Or.inr htarget,
            Or.inr ⟨htarget, by omega⟩, fun earlier hle hlt => ?_⟩
          rwa [Nat.le_antisymm (Nat.le_of_lt_succ hlt) hle]
        · rename_i hreached
          rw [reached_iff hahead] at hreached
          obtain ⟨last, hlast, hresult, hstop, hcalls, hbefore⟩ :=
            ih (hahead.succ hreached) hreached h
          rw [Nat.add_right_comm, Nat.add_assoc] at hcalls
          refine ⟨last, Nat.le_of_succ_le hlast, hresult, hstop, hcalls,
            fun earlier hle hlt => ?_⟩
          rcases Nat.eq_or_lt_of_le hle with rfl | hlater
          · exact hnow
          · exact hbefore earlier hlater hlt
      · rw [playFrom_of_finished hcall] at h
        cases h
        exact ⟨count, Nat.le_refl count, rfl, Or.inl hcall, Or.inl (by omega),
          fun earlier hle hlt => absurd hlt (Nat.not_lt.mpr hle)⟩

theorem playFrom_eq_ok {last : Nat} (hahead : playOut.IsAhead count)
    (hle : count ≤ last) (hstop : playOut.Stops grid last)
    (hbefore : ∀ earlier, count ≤ earlier → earlier < last →
      playOut.Changes grid earlier ∧ ¬playOut.Stops grid earlier)
    (hgoing : ¬playOut.AtTarget grid count)
    (hcalls : playOut.Suffice grid (count + budget) last) :
    playOut.playFrom false budget (playOut.automaton.gridAfter grid count)
        (playOut.automaton.trajectory grid count) =
      some (.ok (playOut.automaton.trajectory grid last)) := by
  induction budget generalizing count with
  | zero =>
      rcases hcalls with hlt | ⟨htarget, hlast⟩
      · omega
      · rw [Nat.le_antisymm hle hlast] at hgoing
        exact absurd htarget hgoing
  | succ budget ih =>
      rcases Nat.eq_or_lt_of_le hle with rfl | hlt
      · exact playFrom_of_finished (hstop.resolve_right hgoing) _
      · obtain ⟨⟨changes, hcall⟩, -⟩ := hbefore count (Nat.le_refl count) hlt
        rw [playFrom_of_changed hcall, ← Automaton.gridAfter_succ,
          ← Automaton.trajectory_succ]
        split
        · rename_i hreached
          -- Only the last generation is at a target.
          have htarget := (reached_iff hahead).mp hreached
          rcases Nat.eq_or_lt_of_le hlt with rfl | hlater
          · rfl
          · exact absurd (Or.inr htarget)
              (hbefore (count + 1) (Nat.le_succ count) hlater).2
        · rename_i hreached
          rw [reached_iff hahead] at hreached
          refine ih (hahead.succ hreached) hlt ?_ hreached ?_
          · exact fun earlier hearlier => hbefore earlier (Nat.le_of_succ_le hearlier)
          · rwa [Nat.add_right_comm, Nat.add_assoc]

/-! ## Statistics -/

def startGrid (playOut : PlayOut) (pattern : List StateId) : Grid :=
  .ofPattern playOut.width playOut.height pattern

def averageAfter (playOut : PlayOut) (grid : Grid) (count : Nat) : Float :=
  if count = 0 then 0.0
  else floatOfNat (total (playOut.automaton.populations grid count)) / floatOfNat count

def statsAfter (playOut : PlayOut) (grid : Grid) (count : Nat) : ChromosomeStats :=
  ⟨count, ceilToNat (playOut.averageAfter grid count), grid.liveCount,
    .ofFloat (score playOut.weights (playOut.width * playOut.height) count
      (playOut.averageAfter grid count) grid.liveCount)⟩

theorem isAhead_zero : playOut.IsAhead 0 :=
  (Nat.eq_zero_or_pos _).imp_right id

theorem not_atTarget_zero : ¬playOut.AtTarget grid 0 := by
  unfold AtTarget
  omega

theorem statsOf?_eq (hfits : playOut.width * playOut.height < Word.modulus) :
    playOut.statsOf? grid.liveCount (playOut.automaton.trajectory grid count) =
      some (playOut.statsAfter grid count) := by
  have harea : playOut.area? = some (playOut.width * playOut.height) :=
    Word.toUnsigned?_natCast hfits
  simp only [statsOf?, fitness?, harea]
  rfl

theorem evaluateWithin_eq_none (hlong : Word.modulus ≤ playOut.width * playOut.height)
    (pattern : List StateId) (cancelled : Bool) :
    playOut.evaluateWithin budget pattern cancelled = none := by
  have hgrid : Grid.ofPattern? playOut.width playOut.height pattern = none := by
    rw [Option.eq_none_iff_forall_ne_some]
    exact fun grid hgrid => Nat.not_lt.mpr hlong (Grid.ofPattern?_eq_some_iff.mp hgrid).1
  rw [evaluateWithin, hgrid]
  rfl

theorem evaluateWithin_eq (hfits : playOut.width * playOut.height < Word.modulus)
    (pattern : List StateId) (cancelled : Bool) :
    playOut.evaluateWithin budget pattern cancelled =
      (playOut.playFrom cancelled budget (playOut.startGrid pattern) .empty >>= fun
        | .error error => some (.error error)
        | .ok trajectory =>
            playOut.statsOf? (playOut.startGrid pattern).liveCount trajectory >>= fun stats =>
              some (.ok stats)) :=
  bind_of_eq_some (Grid.ofPattern?_eq hfits pattern) _

theorem evaluateWithin_of_playFrom {pattern : List StateId}
    (hfits : playOut.width * playOut.height < Word.modulus)
    (h : playOut.playFrom false budget (playOut.startGrid pattern) .empty =
      some (.ok (playOut.automaton.trajectory (playOut.startGrid pattern) count))) :
    playOut.evaluateWithin budget pattern false =
      some (.ok (playOut.statsAfter (playOut.startGrid pattern) count)) := by
  rw [evaluateWithin_eq hfits, bind_of_eq_some h]
  exact bind_of_eq_some (statsOf?_eq hfits) _

theorem exists_playFrom_of_evaluateWithin {pattern : List StateId} {cancelled : Bool}
    {stats : Except StepError ChromosomeStats}
    (h : playOut.evaluateWithin budget pattern cancelled = some stats) :
    playOut.width * playOut.height < Word.modulus ∧
      ∃ played, playOut.playFrom cancelled budget (playOut.startGrid pattern) .empty =
          some played ∧
        (∀ error, stats = .error error ↔ played = .error error) ∧
        ∀ found, stats = .ok found → ∃ trajectory, played = .ok trajectory := by
  have hfits : playOut.width * playOut.height < Word.modulus := by
    by_contra hlong
    rw [evaluateWithin_eq_none (Nat.not_lt.mp hlong)] at h
    cases h
  rw [evaluateWithin_eq hfits] at h
  obtain ⟨played, hplayed, h⟩ := Option.bind_eq_some_iff.mp h
  refine ⟨hfits, played, hplayed, ?_⟩
  cases played with
  | error error =>
      cases h
      simp
  | ok trajectory =>
      obtain ⟨found, -, h⟩ := Option.bind_eq_some_iff.mp h
      cases h
      simp

/-- A play-out returns the statistics of the first stop, if there is one, every generation
before it changes the grid, and the calls suffice. -/
theorem evaluateWithin_eq_ok_iff {pattern : List StateId} {stats : ChromosomeStats} :
    playOut.evaluateWithin budget pattern false = some (.ok stats) ↔
      playOut.width * playOut.height < Word.modulus ∧
      ∃ count, IsLeast {count | playOut.Stops (playOut.startGrid pattern) count} count ∧
        (∀ earlier < count, playOut.Changes (playOut.startGrid pattern) earlier) ∧
        playOut.Suffice (playOut.startGrid pattern) budget count ∧
        stats = playOut.statsAfter (playOut.startGrid pattern) count := by
  constructor
  · intro h
    obtain ⟨hfits, played, hplayed, -, hok⟩ := exists_playFrom_of_evaluateWithin h
    obtain ⟨result, rfl⟩ := hok stats rfl
    obtain ⟨count, -, rfl, hstop, hcalls, hbefore⟩ := exists_stop_of_playFrom
      isAhead_zero not_atTarget_zero hplayed
    rw [Nat.zero_add] at hcalls
    refine ⟨hfits, count, ⟨hstop, fun other hother => ?_⟩, ?_, hcalls, ?_⟩
    · by_contra hlt
      exact (hbefore other (Nat.zero_le other) (Nat.lt_of_not_le hlt)).2 hother
    · exact fun earlier hlt => (hbefore earlier (Nat.zero_le earlier) hlt).1
    · rw [evaluateWithin_of_playFrom hfits hplayed] at h
      exact (Except.ok.inj (Option.some.inj h)).symm
  · rintro ⟨hfits, count, ⟨hstop, hleast⟩, hbefore, hcalls, rfl⟩
    refine evaluateWithin_of_playFrom hfits (playFrom_eq_ok isAhead_zero
      (Nat.zero_le count) hstop ?_ not_atTarget_zero ?_)
    · intro earlier _ hlt
      exact ⟨hbefore earlier hlt, fun hearlier => Nat.not_le.mpr hlt (hleast hearlier)⟩
    · rwa [Nat.zero_add]

/-! ## Members of a population -/

section Members

variable {cancelled : Bool} {member after : Chromosome} {population members : List Chromosome}
  {error : StepError}

theorem evaluateChromosome_eq_ok_iff :
    playOut.evaluateChromosome budget cancelled member = some (.ok after) ↔
      ∃ stats, playOut.evaluateWithin budget member.pattern cancelled = some (.ok stats) ∧
        { member with stats := stats } = after := by
  rw [evaluateChromosome]
  rcases playOut.evaluateWithin budget member.pattern cancelled with _ | _ | stats <;>
    simp [Except.map]

theorem evaluateChromosome_eq_error_iff :
    playOut.evaluateChromosome budget cancelled member = some (.error error) ↔
      playOut.evaluateWithin budget member.pattern cancelled = some (.error error) := by
  rw [evaluateChromosome]
  rcases playOut.evaluateWithin budget member.pattern cancelled with _ | _ | stats <;>
    simp [Except.map]

theorem evaluateAll_eq_ok_iff :
    playOut.evaluateAll budget cancelled population = some (.ok members) ↔
      List.Forall₂ (fun member after =>
        playOut.evaluateChromosome budget cancelled member = some (.ok after))
        population members := by
  induction population generalizing members with
  | nil => simp [evaluateAll, eq_comm]
  | cons first others ih =>
      rw [evaluateAll, List.forall₂_cons_left_iff]
      rcases playOut.evaluateChromosome budget cancelled first with _ | error | after
      · simp
      · simp
      · simp only [Option.bind_eq_bind, Option.bind_some, Option.some.injEq,
          Except.ok.injEq, exists_and_left, exists_eq_left', ← ih]
        rcases playOut.evaluateAll budget cancelled others with _ | error | rest
        · simp
        · simp [Except.map]
        · simp [Except.map, eq_comm]

theorem exists_of_evaluateAll_eq_error
    (h : playOut.evaluateAll budget cancelled population = some (.error error)) :
    ∃ member ∈ population,
      playOut.evaluateWithin budget member.pattern cancelled = some (.error error) := by
  induction population with
  | nil => cases h
  | cons first others ih =>
      rw [evaluateAll] at h
      obtain ⟨found, hfirst, h⟩ := Option.bind_eq_some_iff.mp h
      cases found with
      | error failure =>
          cases h
          exact ⟨first, List.mem_cons_self, evaluateChromosome_eq_error_iff.mp hfirst⟩
      | ok after =>
          obtain ⟨rest, hrest, h⟩ := Option.bind_eq_some_iff.mp h
          rw [map_eq_error_iff.mp (Option.some.inj h)] at hrest
          obtain ⟨member, hmem, herror⟩ := ih hrest
          exact ⟨member, List.mem_cons_of_mem _ hmem, herror⟩

end Members

/-! ## Play-outs of familiar rules -/

variable (hfamiliar : ∀ rule ∈ playOut.automaton.table.rules,
  ¬playOut.automaton.IsForeign rule)

include hfamiliar

theorem playFrom_ne_error {trajectory : Trajectory} (h : grid.Consistent)
    (hahead : trajectory.generations < playOut.targets.generations)
    (hbudget : playOut.targets.generations ≤ trajectory.generations + budget)
    (error : StepError) :
    playOut.playFrom false budget grid trajectory ≠ some (.error error) := by
  induction budget generalizing grid trajectory with
  | zero => omega
  | succ budget ih =>
      rcases hcall : (playOut.automaton.call grid).1 with _ | failure | changes | _
      · rw [playFrom_of_none (Automaton.step?_of_call_none hcall)]
        nofun
      · exact absurd (Automaton.step?_of_call_error hcall)
          (Automaton.step?_ne_error h hfamiliar failure)
      · rw [playFrom_of_changed hcall]
        split
        · nofun
        · rename_i hreached
          have hlater : trajectory.generations + 1 < playOut.targets.generations := by
            refine Nat.lt_of_not_le fun hle => hreached ?_
            rw [reached, Bool.or_eq_true, Bool.and_eq_true]
            exact Or.inl ⟨decide_eq_true (Nat.ne_of_gt (Nat.zero_lt_of_lt hahead)),
              decide_eq_true hle⟩
          refine ih (h.step (Automaton.step?_of_call hcall)) hlater ?_
          simp only [Trajectory.record]
          omega
      · rw [playFrom_of_finished hcall]
        nofun

theorem evaluateWithin_ne_error (htarget : 0 < playOut.targets.generations)
    (hbudget : playOut.targets.generations ≤ budget) (pattern : List StateId)
    (error : StepError) :
    playOut.evaluateWithin budget pattern false ≠ some (.error error) := by
  intro h
  obtain ⟨-, played, hplayed, herror, -⟩ := exists_playFrom_of_evaluateWithin h
  rw [(herror error).mp rfl] at hplayed
  refine playFrom_ne_error hfamiliar (Grid.consistent_ofPattern _ _ _) htarget ?_ error
    hplayed
  rwa [Trajectory.empty, Nat.zero_add]

theorem changes_of_not_stops (h : grid.Consistent)
    (hextents : Manageable grid.width grid.height) (hgoing : ¬playOut.Stops grid count) :
    playOut.Changes grid count := by
  obtain ⟨hafter, hwidth, hheight⟩ :=
    @Automaton.extents_gridAfter playOut.automaton _ h count
  obtain ⟨outcome, next, hstep⟩ :=
    Automaton.exists_step hafter (by rwa [hwidth, hheight]) hfamiliar
  have hcall := congrArg Prod.fst (Automaton.call_of_step? hstep)
  cases outcome with
  | changed changes => exact ⟨changes, hcall⟩
  | finished => exact absurd (Or.inl hcall) hgoing

theorem evaluateWithin_eq_statsAfter
    (hextents : Manageable playOut.width playOut.height) {pattern : List StateId}
    (hleast : IsLeast {count | playOut.Stops (playOut.startGrid pattern) count} count)
    (hcalls : playOut.Suffice (playOut.startGrid pattern) budget count) :
    playOut.evaluateWithin budget pattern false =
      some (.ok (playOut.statsAfter (playOut.startGrid pattern) count)) := by
  have hplanted := Grid.planted_ofPattern playOut.width playOut.height pattern
  refine evaluateWithin_eq_ok_iff.mpr
    ⟨hextents.area_lt, count, hleast, fun earlier hlt => ?_, hcalls, rfl⟩
  refine changes_of_not_stops hfamiliar hplanted.consistent ?_
    fun hstop => Nat.not_le.mpr hlt (hleast.2 hstop)
  rw [startGrid, hplanted.width, hplanted.height]
  exact hextents

omit hfamiliar in
theorem exists_isLeast_stops (htarget : 0 < playOut.targets.generations) (grid : Grid) :
    ∃ count ≤ playOut.targets.generations,
      IsLeast {count | playOut.Stops grid count} count ∧
        ∀ calls, playOut.targets.generations ≤ calls →
          playOut.Suffice grid calls count := by
  have hstop : playOut.Stops grid playOut.targets.generations :=
    Or.inr (Or.inl ⟨htarget, rfl⟩)
  obtain ⟨count, hleast⟩ : ∃ count, IsLeast {count | playOut.Stops grid count} count := by
    classical exact ⟨_, Nat.isLeast_find ⟨_, hstop⟩⟩
  have hle := hleast.2 hstop
  refine ⟨count, hle, hleast, fun calls hcalls => ?_⟩
  rcases Nat.eq_or_lt_of_le hle with heq | hlt
  · exact Or.inr ⟨Or.inl ⟨htarget, heq⟩, by omega⟩
  · exact Or.inl (by omega)

theorem exists_evaluateWithin (hextents : Manageable playOut.width playOut.height)
    (htarget : 0 < playOut.targets.generations)
    (hbudget : playOut.targets.generations ≤ budget) (pattern : List StateId) :
    ∃ stats, playOut.evaluateWithin budget pattern false = some (.ok stats) := by
  obtain ⟨count, -, hleast, hcalls⟩ :=
    exists_isLeast_stops htarget (playOut.startGrid pattern)
  exact ⟨_, evaluateWithin_eq_statsAfter hfamiliar hextents hleast (hcalls budget hbudget)⟩

omit hfamiliar in
theorem budget_eq (htarget : 0 < playOut.targets.generations) :
    PlayOut.budget playOut.targets = playOut.targets.generations :=
  if_neg (Nat.ne_of_gt htarget)

omit hfamiliar

/-- A play-out that returns has the statistics of the first generation from which nothing
changes or which is at a target.  With a generation target none fails, and on manageable
extents it returns within as many calls for a step. -/
theorem evaluate_follows_steps (playOut : PlayOut) (pattern : List StateId)
    (hresolves : ∃ images, playOut.automaton.resolve = .ok images) :
    (∀ budget stats, playOut.evaluateWithin budget pattern false = some (.ok stats) ↔
      playOut.width * playOut.height < Word.modulus ∧
      ∃ count, IsLeast {count | playOut.Stops (playOut.startGrid pattern) count} count ∧
        (∀ earlier < count, playOut.Changes (playOut.startGrid pattern) earlier) ∧
        playOut.Suffice (playOut.startGrid pattern) budget count ∧
        stats = playOut.statsAfter (playOut.startGrid pattern) count) ∧
      (0 < playOut.targets.generations →
        ∀ error, playOut.evaluate pattern false ≠ some (.error error)) ∧
      (Manageable playOut.width playOut.height →
        (∀ count, IsLeast {count | playOut.Stops (playOut.startGrid pattern) count} count →
          ∀ budget, playOut.Suffice (playOut.startGrid pattern) budget count →
            playOut.evaluateWithin budget pattern false =
              some (.ok (playOut.statsAfter (playOut.startGrid pattern) count))) ∧
        (0 < playOut.targets.generations →
          ∃ count ≤ playOut.targets.generations,
            IsLeast {count | playOut.Stops (playOut.startGrid pattern) count} count ∧
              playOut.evaluate pattern false =
                some (.ok (playOut.statsAfter (playOut.startGrid pattern) count)) ∧
              ∀ budget, playOut.targets.generations ≤ budget →
                playOut.evaluateWithin budget pattern false =
                  playOut.evaluate pattern false)) := by
  obtain ⟨images, hresolve⟩ := hresolves
  have hfamiliar := Automaton.not_isForeign_of_resolve hresolve
  refine ⟨fun _ _ => evaluateWithin_eq_ok_iff, fun htarget =>
    evaluateWithin_ne_error hfamiliar htarget (Nat.le_of_eq (budget_eq htarget).symm) pattern,
    fun hextents => ⟨fun _ hleast _ hcalls =>
      evaluateWithin_eq_statsAfter hfamiliar hextents hleast hcalls, fun htarget => ?_⟩⟩
  obtain ⟨count, hle, hleast, hcalls⟩ :=
    exists_isLeast_stops htarget (playOut.startGrid pattern)
  have hwithin : ∀ budget, playOut.targets.generations ≤ budget →
      playOut.evaluateWithin budget pattern false =
        some (.ok (playOut.statsAfter (playOut.startGrid pattern) count)) :=
    fun budget hbudget =>
      evaluateWithin_eq_statsAfter hfamiliar hextents hleast (hcalls budget hbudget)
  have hevaluate : playOut.evaluate pattern false =
      some (.ok (playOut.statsAfter (playOut.startGrid pattern) count)) :=
    hwithin _ (Nat.le_of_eq (budget_eq htarget).symm)
  refine ⟨count, hle, hleast, hevaluate, fun budget hbudget => ?_⟩
  rw [hevaluate, hwithin budget hbudget]

def trailPlayOut : PlayOut := ⟨.trail, .standard, ⟨5, 0, 0⟩, 4, 1⟩

theorem manageable_trailPlayOut : Manageable trailPlayOut.width trailPlayOut.height := by
  have haddressable : Automaton.trailRow.Addressable := by decide
  exact haddressable.manageable

theorem evaluate_follows_steps_trail :
    ∃ count ≤ 5, ∃ stats,
      trailPlayOut.evaluate [⟨1⟩, .free, .free, ⟨2⟩] false = some (.ok stats) ∧
      stats.generations = count ∧
      IsLeast {count | trailPlayOut.Stops
        (trailPlayOut.startGrid [⟨1⟩, .free, .free, ⟨2⟩]) count} count := by
  obtain ⟨-, -, hreturns⟩ := evaluate_follows_steps trailPlayOut
    [⟨1⟩, .free, .free, ⟨2⟩] (exists_ok_of_isOk (by decide +kernel))
  obtain ⟨count, hle, hleast, hevaluate, -⟩ :=
    (hreturns manageable_trailPlayOut).2 (by decide)
  exact ⟨count, hle, _, hevaluate, rfl, hleast⟩

/-! ## Extents that are not manageable -/

def vastPlayOut : PlayOut :=
  ⟨.northward, .standard, ⟨5, 0, 0⟩, 18446744073709551615, 18446744073709551614⟩

def edgePlayOut : PlayOut :=
  ⟨.northward, .standard, ⟨5, 0, 0⟩, 9223372036854775808, 1⟩

def edgePattern : List StateId := List.replicate 9223372036854775807 .free ++ [⟨1⟩]

theorem startGrid_edgePattern :
    edgePlayOut.startGrid edgePattern = Automaton.edgeGrid := by
  have hfree : ∀ (genes start : Nat) (grid : Grid),
      ((List.replicate genes StateId.free).zipIdx start).foldl
        (Grid.plant 9223372036854775808) grid = grid := by
    intro genes
    induction genes with
    | zero => exact fun _ _ => rfl
    | succ genes ih => exact fun start grid => ih (start + 1) grid
  have hlength : edgePattern.length ≤ edgePlayOut.width * edgePlayOut.height := by
    rw [edgePattern, List.length_append, List.length_replicate]
    decide
  rw [startGrid, Grid.ofPattern, List.take_of_length_le hlength, edgePattern,
    List.zipIdx_append, List.foldl_append, edgePlayOut, hfree, List.length_replicate]
  decide +kernel

theorem evaluate_edgePattern : edgePlayOut.evaluate edgePattern false = none := by
  have hstep : edgePlayOut.automaton.step? (edgePlayOut.startGrid edgePattern) false =
      none := by
    rw [startGrid_edgePattern]
    decide +kernel
  have hplayed : edgePlayOut.playFrom false 5 (edgePlayOut.startGrid edgePattern) .empty =
      none := playFrom_of_none hstep _
  rw [evaluate, budget_eq (by decide), evaluateWithin_eq (by decide)]
  exact congrArg (fun played => played >>= _) hplayed

/-- Without an area nothing is returned, nor where a coordinate is too long. -/
theorem evaluate_eq_none :
    (∃ images, vastPlayOut.automaton.resolve = .ok images) ∧
      vastPlayOut.evaluate [⟨1⟩] false = none ∧
      (∃ images, edgePlayOut.automaton.resolve = .ok images) ∧
      edgePlayOut.evaluate edgePattern false = none :=
  ⟨exists_ok_of_isOk (by decide +kernel), evaluateWithin_eq_none (by decide) _ _,
    exists_ok_of_isOk (by decide +kernel), evaluate_edgePattern⟩

end PlayOut

end Cellular
