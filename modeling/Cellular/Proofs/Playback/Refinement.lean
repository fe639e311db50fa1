import Cellular.Playback
import Cellular.Proofs.Automaton.Failure

/-!
# Playback as iterated stepping

A playback adds nothing to its automaton but a count of generations.  Whatever calls
have been made, and whatever the worker has done between them, its grid is the one that
as many steps as it counts lead to from the grid of the start or of the last reset.  A
worker that comes to its end has reported these steps and why there was no further one
(`calls_refine_steps`).
-/

namespace Cellular

/-- Generations in a row, each with the changes that it makes. -/
inductive Automaton.Advances (automaton : Automaton) :
    Grid → List (List CellChange) → Grid → Prop
  | still (grid : Grid) : automaton.Advances grid [] grid
  | step {grid middle after : Grid} {changes : List CellChange}
      {later : List (List CellChange)}
      (hstep : automaton.step? grid false = some (.ok (.changed changes, middle)))
      (hlater : automaton.Advances middle later after) :
      automaton.Advances grid (changes :: later) after

namespace Automaton

variable {automaton : Automaton} {grid middle after : Grid}
  {first second : List (List CellChange)}

theorem Advances.append (hfirst : automaton.Advances grid first middle)
    (hsecond : automaton.Advances middle second after) :
    automaton.Advances grid (first ++ second) after := by
  induction hfirst with
  | still => exact hsecond
  | step hstep _ ih => exact .step hstep (ih hsecond)

theorem Advances.foldlM_apply (h : automaton.Advances grid first after) :
    first.foldlM Grid.apply grid = .ok after := by
  induction h with
  | still => rfl
  | step hstep _ ih =>
      obtain ⟨found, -, hbounds, houtcome, rfl⟩ := step?_eq_ok_iff.mp hstep
      cases eq_of_outcomeOf_eq_changed houtcome
      rw [List.foldlM_cons, Grid.apply_eq_ok hbounds]
      exact ih

theorem Advances.consistent (h : automaton.Advances grid first after)
    (hconsistent : grid.Consistent) :
    after.Consistent ∧ after.width = grid.width ∧ after.height = grid.height := by
  induction h with
  | still => exact ⟨hconsistent, rfl, rfl⟩
  | step hstep _ ih =>
      obtain ⟨hafter, hwidth, hheight⟩ := ih (hconsistent.step hstep)
      obtain ⟨hwidth', hheight'⟩ := Grid.extents_of_step? hstep
      exact ⟨hafter, hwidth.trans hwidth', hheight.trans hheight'⟩

end Automaton

namespace Playback

variable {playback next after : Playback} {limit : Option Nat} {budget : Nat}
  {events : List PlaybackEvent} {changes : List CellChange}

/-! ## Single calls -/

theorem reap_eq_ok_iff :
    playback.reap = .ok next ↔
      playback.isRunning = false ∧ { playback with worker := none } = next := by
  cases hrunning : playback.isRunning <;> simp [reap, hrunning]

theorem play_eq_ok_iff :
    playback.play limit = .ok next ↔ playback.isRunning = false ∧
      { playback with worker := some (.playing limit), cancelled := false } = next := by
  rw [play, bind_eq_ok_iff]
  simp [reap_eq_ok_iff]

theorem reset_eq_ok_iff {grid : Grid} :
    playback.reset grid = .ok next ↔ playback.isRunning = false ∧
      { playback with worker := none, grid := grid, generation := 0 } = next := by
  rw [reset, bind_eq_ok_iff]
  simp [reap_eq_ok_iff]

theorem step?_eq_ok_iff {outcome : Automaton.StepOutcome} :
    playback.step? = some (.ok (outcome, next)) ↔ playback.isRunning = false ∧
      ∃ grid, playback.automaton.step? playback.grid playback.cancelled =
          some (.ok (outcome, grid)) ∧
        { playback with worker := none }.advance (outcome, grid) = (outcome, next) := by
  constructor
  · intro h
    unfold step? at h
    split at h
    · cases h
    · rename_i idle hidle
      obtain ⟨hrunning, rfl⟩ := reap_eq_ok_iff.mp hidle
      refine ⟨hrunning, ?_⟩
      obtain ⟨_ | ⟨_ | _, grid⟩, hfound, h⟩ := Option.bind_eq_some_iff.mp h
      · cases h
      · cases h
        exact ⟨grid, hfound, rfl⟩
      · cases h
        exact ⟨grid, hfound, rfl⟩
  · rintro ⟨hrunning, grid, hstep, hadvance⟩
    rw [step?, reap_eq_ok_iff.mpr ⟨hrunning, rfl⟩]
    refine (bind_of_eq_some hstep _).trans ?_
    exact congrArg (some ∘ Except.ok) hadvance

theorem reap_of_isRunning (h : playback.isRunning = true) :
    playback.reap = .error .alreadyRunning := by
  rw [reap, if_pos h]

/-- While a worker plays all other uses of the playback are refused. -/
theorem refused_of_isRunning (h : playback.isRunning = true) :
    playback.step? = some (.error .alreadyRunning) ∧
      (∀ limit, playback.play limit = .error .alreadyRunning) ∧
      ∀ grid, playback.reset grid = .error .alreadyRunning := by
  refine ⟨?_, fun limit => ?_, fun grid => ?_⟩
  · rw [step?, reap_of_isRunning h]
  · rw [play, reap_of_isRunning h]
    rfl
  · rw [reset, reap_of_isRunning h]
    rfl

/-! ## One round -/

/-- Why a worker plays no further generation, and what it reports of it: its limit has
been reached, or else nothing would change, or else the step fails.  It reports nothing
of a step without an answer. -/
inductive Halts (playback : Playback) (limit : Option Nat) (played : Nat) :
    List PlaybackEvent → Prop
  | stopped (hlimit : limit = some played) :
      playback.Halts limit played [.stopped playback.generation]
  | finished {grid : Grid} (hlimit : limit ≠ some played)
      (hstep : playback.automaton.step? playback.grid false = some (.ok (.finished, grid))) :
      playback.Halts limit played [.finished playback.generation]
  | failed {error : StepError} (hlimit : limit ≠ some played)
      (hstep : playback.automaton.step? playback.grid false = some (.error error)) :
      playback.Halts limit played [.failed error]
  | lost (hlimit : limit ≠ some played)
      (hstep : playback.automaton.step? playback.grid false = none) :
      playback.Halts limit played []

def moved (playback : Playback) (grid : Grid) (limit : Option Nat) : Playback :=
  { playback with
    grid := grid
    generation := playback.generation + 1
    worker := some (.playing (limit.map Nat.pred)) }

/-- In a round there is a generation to report or the end of the worker. -/
theorem round_cases (hgoing : playback.cancelled = false) (limit : Option Nat) :
    (limit ≠ some 0 ∧ ∃ changes grid,
        playback.automaton.step? playback.grid false = some (.ok (.changed changes, grid)) ∧
        playback.round limit =
          ([.generation (playback.generation + 1) changes], playback.moved grid limit)) ∨
      ∃ events, playback.Halts limit 0 events ∧
        playback.round limit = (events, { playback with worker := some .ended }) := by
  by_cases hlimit : limit = some 0
  · exact .inr ⟨_, .stopped hlimit, by simp [round, hlimit]⟩
  · rcases hstep : playback.automaton.step? playback.grid false with
      _ | error | ⟨changes | _, grid⟩
    · exact .inr ⟨_, .lost hlimit hstep, by simp [round, hgoing, hlimit, hstep]⟩
    · refine .inr ⟨_, .failed hlimit hstep, ?_⟩
      have herror : error ≠ .cancelled := fun heq =>
        Automaton.step?_ne_cancelled (heq ▸ hstep)
      simp [round, hgoing, hlimit, hstep]
    · exact .inl ⟨hlimit, changes, grid, rfl, by simp [round, hgoing, hlimit, hstep, moved]⟩
    · exact .inr ⟨_, .finished hlimit hstep, by simp [round, hgoing, hlimit, hstep]⟩

/-! ## Whole plays -/

def numbered (generation : Nat) (changes : List (List CellChange)) :
    List PlaybackEvent :=
  changes.mapIdx fun index => .generation (generation + 1 + index)

structure Moves (before : Playback) (changes : List (List CellChange)) (after : Playback) :
    Prop where
  automaton : after.automaton = before.automaton
  cancelled : after.cancelled = before.cancelled
  generation : after.generation = before.generation + changes.length
  advances : before.automaton.Advances before.grid changes after.grid

/-- The events tell of these generations and of why there are no more of them. -/
structure Reports (before : Playback) (limit : Option Nat)
    (changes : List (List CellChange)) (events : List PlaybackEvent) (after : Playback) :
    Prop extends before.Moves changes after where
  idle : after.worker = none
  within : ∀ most, limit = some most → changes.length ≤ most
  events : ∃ last, after.Halts limit changes.length last ∧
    events = numbered before.generation changes ++ last

theorem numbered_cons (generation : Nat) (changes : List CellChange)
    (later : List (List CellChange)) :
    numbered generation (changes :: later) =
      .generation (generation + 1) changes :: numbered (generation + 1) later := by
  have hindex : (fun index => PlaybackEvent.generation
      (generation + 1 + (index + 1))) =
        fun index => .generation (generation + 1 + 1 + index) := by
    funext index
    congr 1
    omega
  simp only [numbered, List.mapIdx_cons, hindex, Nat.add_zero]

theorem Halts.succ {played : Nat} {last : List PlaybackEvent} (hlimit : limit ≠ some 0)
    (h : playback.Halts (limit.map Nat.pred) played last) :
    playback.Halts limit (played + 1) last := by
  have hmap : limit.map Nat.pred = some played ↔ limit = some (played + 1) := by
    cases limit with
    | none => simp
    | some most =>
        have hpositive : most ≠ 0 := by simpa using hlimit
        simp only [Option.map_some, Option.some.injEq, Nat.pred_eq_sub_one]
        omega
  cases h with
  | stopped hstop => exact .stopped (hmap.mp hstop)
  | finished hgoes hstep => exact .finished (mt hmap.mpr hgoes) hstep
  | failed hgoes hstep => exact .failed (mt hmap.mpr hgoes) hstep
  | lost hgoes hstep => exact .lost (mt hmap.mpr hgoes) hstep

theorem Halts.dismiss {played : Nat} {last : List PlaybackEvent}
    (h : playback.Halts limit played last) :
    { playback with worker := none }.Halts limit played last := by
  cases h with
  | stopped hstop => exact .stopped hstop
  | finished hgoes hstep => exact .finished hgoes hstep
  | failed hgoes hstep => exact .failed hgoes hstep
  | lost hgoes hstep => exact .lost hgoes hstep

theorem Moves.still (worker : Option Worker) :
    playback.Moves [] { playback with worker := worker } :=
  ⟨rfl, rfl, rfl, .still _⟩

theorem Moves.cons {grid : Grid} {later : List (List CellChange)}
    (hstep : playback.automaton.step? playback.grid false = some (.ok (.changed changes, grid)))
    (h : (playback.moved grid limit).Moves later after) :
    playback.Moves (changes :: later) after := by
  obtain ⟨hautomaton, hcancelled, hgeneration, hadvances⟩ := h
  refine ⟨hautomaton, hcancelled, ?_, .step hstep hadvances⟩
  simp only [hgeneration, moved, List.length_cons]
  omega

theorem Reports.cons {grid : Grid} {later : List (List CellChange)}
    (hlimit : limit ≠ some 0)
    (hstep : playback.automaton.step? playback.grid false = some (.ok (.changed changes, grid)))
    (h : (playback.moved grid limit).Reports (limit.map Nat.pred) later events after) :
    playback.Reports limit (changes :: later)
      (.generation (playback.generation + 1) changes :: events) after := by
  obtain ⟨hmoves, hidle, hwithin, last, hlast, rfl⟩ := h
  refine ⟨.cons hstep hmoves, hidle, ?_, last, hlast.succ hlimit, ?_⟩
  · rintro most rfl
    have hless := hwithin _ rfl
    have hpositive : most ≠ 0 := by simpa using hlimit
    rw [Nat.pred_eq_sub_one] at hless
    rw [List.length_cons]
    omega
  · rw [numbered_cons]
    rfl

theorem joinWithin_of_playing (h : playback.worker = some (.playing limit)) :
    joinWithin (budget + 1) playback =
      (joinWithin budget (playback.round limit).2).map fun joined =>
        ((playback.round limit).1 ++ joined.1, joined.2) := by
  simp only [joinWithin, h]
  cases joinWithin budget (playback.round limit).2 <;> rfl

/-- A worker that comes to its end has reported what it has done. -/
theorem exists_reports (hgoing : playback.cancelled = false)
    (hworker : playback.worker = some (.playing limit))
    (h : joinWithin budget playback = some (events, after)) :
    ∃ changes, playback.Reports limit changes events after := by
  induction budget generalizing playback limit events after with
  | zero => cases h
  | succ budget ih =>
      rw [joinWithin_of_playing hworker] at h
      obtain ⟨⟨later, last⟩, hlater, h⟩ := Option.map_eq_some_iff.mp h
      cases h
      rcases round_cases hgoing limit with
        ⟨hlimit, changes, grid, hstep, hround⟩ | ⟨reported, hhalts, hround⟩
      · rw [hround] at hlater ⊢
        have hmoved : (playback.moved grid limit).cancelled = false := hgoing
        obtain ⟨others, hothers⟩ := ih hmoved rfl hlater
        exact ⟨changes :: others, hothers.cons hlimit hstep⟩
      · rw [hround] at hlater ⊢
        cases budget with
        | zero => cases hlater
        | succ budget =>
            cases hlater
            rw [List.append_nil]
            exact ⟨[], .still none, rfl, fun _ _ => Nat.zero_le _, reported, hhalts.dismiss, rfl⟩

theorem joinWithin_add {joined : List PlaybackEvent × Playback}
    (h : joinWithin budget playback = some joined) (extra : Nat) :
    joinWithin (budget + extra) playback = some joined := by
  induction budget generalizing playback joined with
  | zero => cases h
  | succ budget ih =>
      rw [Nat.add_right_comm]
      cases hworker : playback.worker with
      | none =>
          simp only [joinWithin, hworker] at h ⊢
          exact h
      | some worker =>
          cases worker with
          | ended =>
              simp only [joinWithin, hworker] at h ⊢
              exact h
          | playing left =>
              rw [joinWithin_of_playing hworker] at h ⊢
              obtain ⟨later, hlater, rfl⟩ := Option.map_eq_some_iff.mp h
              rw [ih hlater, Option.map_some]

theorem exists_joinWithin {most : Nat} (hgoing : playback.cancelled = false)
    (hworker : playback.worker = some (.playing (some most))) :
    ∃ joined, joinWithin (most + 2) playback = some joined := by
  induction most generalizing playback with
  | zero =>
      rw [joinWithin_of_playing hworker]
      rcases round_cases hgoing (some 0) with ⟨hlimit, -⟩ | ⟨reported, -, hround⟩
      · exact absurd rfl hlimit
      · rw [hround]
        exact ⟨_, rfl⟩
  | succ most ih =>
      rw [joinWithin_of_playing hworker]
      rcases round_cases hgoing (some (most + 1)) with
        ⟨-, changes, grid, -, hround⟩ | ⟨reported, -, hround⟩
      · have hmoved : (playback.moved grid (some (most + 1))).cancelled = false := hgoing
        obtain ⟨joined, hjoined⟩ := ih hmoved rfl
        rw [hround, hjoined]
        exact ⟨_, rfl⟩
      · rw [hround]
        exact ⟨_, rfl⟩

def Ends (playback : Playback) (events : List PlaybackEvent) (after : Playback) : Prop :=
  ∃ budget, joinWithin budget playback = some (events, after)

theorem Ends.unique {events' : List PlaybackEvent} {after' : Playback}
    (h : playback.Ends events after) (h' : playback.Ends events' after') :
    events = events' ∧ after = after' := by
  obtain ⟨budget, hjoin⟩ := h
  obtain ⟨budget', hjoin'⟩ := h'
  have hboth := joinWithin_add hjoin budget'
  rw [Nat.add_comm, joinWithin_add hjoin' budget] at hboth
  cases hboth
  exact ⟨rfl, rfl⟩

theorem ends_join {most : Nat} (hgoing : playback.cancelled = false)
    (hworker : playback.worker = some (.playing (some most))) :
    playback.Ends playback.join.1 playback.join.2 := by
  obtain ⟨joined, hjoined⟩ := exists_joinWithin hgoing hworker
  refine ⟨most + 2, ?_⟩
  have hbudget : playback.budget = most + 2 := by
    rw [Playback.budget, hworker]
    rfl
  rw [join, hbudget, hjoined]
  rfl

theorem Halts.length_eq_one {played : Nat} (h : playback.Halts limit played events)
    (hconsistent : playback.grid.Consistent)
    (hextents : Manageable playback.grid.width playback.grid.height) : events.length = 1 := by
  cases h with
  | lost _ hstep =>
      rw [Automaton.step?_eq hconsistent hextents] at hstep
      cases hstep
  | _ => rfl

theorem Reports.length_events {changes : List (List CellChange)}
    (h : playback.Reports limit changes events after) (hconsistent : playback.grid.Consistent)
    (hextents : Manageable playback.grid.width playback.grid.height) :
    events.length = changes.length + 1 := by
  obtain ⟨last, hlast, rfl⟩ := h.events
  obtain ⟨hafter, hwidth, hheight⟩ := h.advances.consistent hconsistent
  rw [← hwidth, ← hheight] at hextents
  rw [List.length_append, numbered, List.length_mapIdx, hlast.length_eq_one hafter hextents]

theorem Reports.of_started {changes : List (List CellChange)}
    (hgoing : playback.cancelled = false) (hplay : playback.play limit = .ok next)
    (h : next.Reports limit changes events after) :
    playback.Reports limit changes events after := by
  obtain ⟨-, rfl⟩ := play_eq_ok_iff.mp hplay
  obtain ⟨⟨hautomaton, hcancelled, hgeneration, hadvances⟩, hidle, hwithin, hevents⟩ := h
  exact ⟨⟨hautomaton, hcancelled.trans hgoing.symm, hgeneration, hadvances⟩, hidle, hwithin,
    hevents⟩

/-! ## Calls in a row -/

def eventChanges? : PlaybackEvent → Option (List CellChange)
  | .generation _ changes => some changes
  | _ => none

theorem filterMap_numbered (generation : Nat)
    (changes : List (List CellChange)) :
    (numbered generation changes).filterMap eventChanges? = changes := by
  induction changes generalizing generation with
  | nil => rfl
  | cons first later ih =>
      rw [numbered_cons, List.filterMap_cons, ih]
      rfl

theorem Halts.filterMap_events {played : Nat} (h : playback.Halts limit played events) :
    events.filterMap eventChanges? = [] := by
  cases h <;> rfl

theorem Reports.filterMap_events {changes : List (List CellChange)}
    (h : playback.Reports limit changes events next) :
    events.filterMap eventChanges? = changes := by
  obtain ⟨last, hlast, rfl⟩ := h.events
  simp [filterMap_numbered, hlast.filterMap_events]

theorem Ends.moves (h : playback.Ends events after) (hgoing : playback.cancelled = false) :
    playback.Moves (events.filterMap eventChanges?) after := by
  obtain ⟨budget, hjoin⟩ := h
  cases budget with
  | zero => cases hjoin
  | succ budget =>
      cases hworker : playback.worker with
      | none =>
          simp only [joinWithin, hworker] at hjoin
          cases hjoin
          exact .still none
      | some worker =>
          cases worker with
          | ended =>
              simp only [joinWithin, hworker] at hjoin
              cases hjoin
              exact .still none
          | playing left =>
              obtain ⟨changes, hreports⟩ := exists_reports hgoing hworker hjoin
              rw [hreports.filterMap_events]
              exact hreports.toMoves

/-- What is asked of a playback, and the rounds that its worker does meanwhile. -/
inductive Call where
  | step
  | play (limit : Option Nat)
  | round
  | join
  | reset (grid : Grid)

/-- A playback with what has been reported since the start or the last reset, and the
grid from then. -/
structure Log where
  playback : Playback
  origin : Grid
  reported : List (List CellChange)

namespace Log

def start (automaton : Automaton) (grid : Grid) : Log :=
  ⟨.start automaton grid, grid, []⟩

def report (log : Log) (events : List PlaybackEvent) (next : Playback) : Log :=
  { log with
    playback := next
    reported := log.reported ++ events.filterMap eventChanges? }

/-- What a call leaves behind.  A call that is refused leaves everything as it was, and
so does a step that fails or has no answer. -/
inductive Performs (log : Log) : Call → Log → Prop
  | unanswered (hstep : log.playback.step? = none) : log.Performs .step log
  | failed {error : PlaybackError} (hstep : log.playback.step? = some (.error error)) :
      log.Performs .step log
  | finished {next : Playback} (hstep : log.playback.step? = some (.ok (.finished, next))) :
      log.Performs .step { log with playback := next }
  | changed {changes : List CellChange} {next : Playback}
      (hstep : log.playback.step? = some (.ok (.changed changes, next))) :
      log.Performs .step
        { log with playback := next, reported := log.reported ++ [changes] }
  | started {limit : Option Nat} {next : Playback} (hplay : log.playback.play limit = .ok next) :
      log.Performs (.play limit) { log with playback := next }
  | unstarted {limit : Option Nat} {error : PlaybackError}
      (hplay : log.playback.play limit = .error error) : log.Performs (.play limit) log
  | round {left : Option Nat} (hworker : log.playback.worker = some (.playing left)) :
      log.Performs .round (log.report (log.playback.round left).1 (log.playback.round left).2)
  | joined {events : List PlaybackEvent} {next : Playback}
      (hends : log.playback.Ends events next) :
      log.Performs .join (log.report events next)
  | reset {grid : Grid} {next : Playback} (hreset : log.playback.reset grid = .ok next) :
      log.Performs (.reset grid) ⟨next, grid, []⟩
  | kept {grid : Grid} {error : PlaybackError}
      (hreset : log.playback.reset grid = .error error) : log.Performs (.reset grid) log

inductive PerformsAll : Log → List Call → Log → Prop
  | nil (log : Log) : PerformsAll log [] log
  | cons {log middle after : Log} {call : Call} {calls : List Call}
      (hcall : log.Performs call middle) (hcalls : PerformsAll middle calls after) :
      PerformsAll log (call :: calls) after

/-- Nobody has asked the worker to stop, and the grid is as many steps of the automaton
away from the origin as the playback counts, with the changes that are reported. -/
structure Faithful (automaton : Automaton) (log : Log) : Prop where
  going : log.playback.cancelled = false
  plays : log.playback.automaton = automaton
  generation : log.playback.generation = log.reported.length
  advances : automaton.Advances log.origin log.reported log.playback.grid

variable {automaton : Automaton} {log after : Log}

theorem Faithful.move {next : Playback} {changes : List (List CellChange)}
    (h : log.Faithful automaton) (hmoves : log.playback.Moves changes next) :
    Faithful automaton
      { log with playback := next, reported := log.reported ++ changes } := by
  obtain ⟨hautomaton, hcancelled, hgeneration, hadvances⟩ := hmoves
  rw [h.plays] at hadvances
  refine ⟨hcancelled.trans h.going, hautomaton.trans h.plays, ?_, h.advances.append hadvances⟩
  rw [hgeneration, h.generation, List.length_append]

theorem Faithful.perform {call : Call} (h : log.Faithful automaton)
    (hcall : log.Performs call after) : after.Faithful automaton := by
  cases hcall with
  | unanswered hstep => exact h
  | failed hstep => exact h
  | finished hstep =>
      obtain ⟨-, grid, -, hadvance⟩ := step?_eq_ok_iff.mp hstep
      cases hadvance
      have hmoves := h.move (.still none)
      rwa [List.append_nil] at hmoves
  | changed hstep =>
      obtain ⟨-, grid, hgrid, hadvance⟩ := step?_eq_ok_iff.mp hstep
      cases hadvance
      rw [h.going] at hgrid
      exact h.move ⟨rfl, rfl, rfl, .step hgrid (.still grid)⟩
  | started hplay =>
      obtain ⟨-, rfl⟩ := play_eq_ok_iff.mp hplay
      exact ⟨rfl, h.plays, h.generation, h.advances⟩
  | unstarted hplay => exact h
  | round hworker =>
      rename_i left
      rcases round_cases h.going left with
        ⟨-, changes, grid, hstep, hround⟩ | ⟨events, hhalts, hround⟩
      · rw [report, hround]
        exact h.move ⟨rfl, rfl, rfl, .step hstep (.still grid)⟩
      · rw [report, hround, hhalts.filterMap_events]
        exact h.move (.still _)
  | joined hends =>
      exact h.move (hends.moves h.going)
  | reset hreset =>
      obtain ⟨-, rfl⟩ := reset_eq_ok_iff.mp hreset
      exact ⟨h.going, h.plays, rfl, .still _⟩
  | kept hreset => exact h

theorem Faithful.performAll {calls : List Call} (h : log.Faithful automaton)
    (hcalls : log.PerformsAll calls after) : after.Faithful automaton := by
  induction hcalls with
  | nil => exact h
  | cons hcall _ ih => exact ih (h.perform hcall)

end Log

/-- At any time the grid is what as many steps as the playback counts make of the grid of
the start or of the last reset, and every counted generation has been reported with its
changes.  If no worker is playing one can be set to play.  One with a limit comes to its
end, and one that does numbers its generations on, says last why it ended unless its last
step has no answer, and reports changes that lead from its first grid to its last. -/
theorem calls_refine_steps (automaton : Automaton) (grid : Grid)
    (calls : List Call) (log : Log)
    (hcalls : (Log.start automaton grid).PerformsAll calls log) :
    log.playback.automaton = automaton ∧
      log.playback.generation = log.reported.length ∧
      automaton.Advances log.origin log.reported log.playback.grid ∧
      (log.playback.isRunning = false → ∀ limit, ∃ started,
        log.playback.play limit = .ok started ∧
        (∀ most, limit = some most → started.Ends started.join.1 started.join.2) ∧
        ∀ events next, started.Ends events next →
          ∃ changes, log.playback.Reports limit changes events next ∧
            changes.foldlM Grid.apply log.playback.grid = .ok next.grid ∧
            (log.playback.grid.isConsistent = true →
              Manageable log.playback.grid.width log.playback.grid.height →
              events.length = changes.length + 1)) := by
  have hstart : (Log.start automaton grid).Faithful automaton :=
    ⟨rfl, rfl, rfl, .still grid⟩
  obtain ⟨hgoing, hautomaton, hgeneration, hadvances⟩ := hstart.performAll hcalls
  refine ⟨hautomaton, hgeneration, hadvances, fun hidle limit => ?_⟩
  have hplay : log.playback.play limit = .ok _ := play_eq_ok_iff.mpr ⟨hidle, rfl⟩
  refine ⟨_, hplay, ?_, fun events next hends => ?_⟩
  · rintro most rfl
    exact ends_join rfl rfl
  · obtain ⟨budget, hjoin⟩ := hends
    obtain ⟨changes, hstarted⟩ := exists_reports rfl rfl hjoin
    have hreports := hstarted.of_started hgoing hplay
    refine ⟨changes, hreports, hreports.advances.foldlM_apply, fun hconsistent hextents => ?_⟩
    exact hreports.length_events (Grid.isConsistent_iff.mp hconsistent) hextents

/-! ## A `B` that fades -/

open Automaton (trail trailRow)

def fading : Grid := (Grid.empty 2 1).put ⟨1, 0⟩ ⟨2⟩

def fadingChanges : List CellChange := [⟨⟨2⟩, .free, ⟨1, 0⟩⟩]

def faded : Playback := ⟨trail, fading.putAll fadingChanges, 1, none, false⟩

theorem calls_refine_steps_trail :
    (Log.start trail trailRow).PerformsAll [.step, .reset fading, .play none, .round, .join]
        ⟨faded, fading, [fadingChanges]⟩ ∧
      faded.generation = 1 ∧
      trail.Advances fading [fadingChanges] faded.grid := by
  have hfirst : trail.changes? trailRow false = some (.ok
      [⟨.free, ⟨1⟩, ⟨1, 0⟩⟩, ⟨⟨1⟩, ⟨2⟩, ⟨0, 0⟩⟩, ⟨⟨2⟩, .free, ⟨3, 0⟩⟩]) := by decide +kernel
  have hfades : trail.changes? fading false = some (.ok fadingChanges) := by decide +kernel
  have hfading : trail.step? fading false =
      some (.ok (.changed fadingChanges, fading.putAll fadingChanges)) :=
    Automaton.step?_of_changes? hfades (by decide)
  have hnone : trail.changes? (fading.putAll fadingChanges) false = some (.ok []) := by
    decide +kernel
  have hfaded : trail.step? (fading.putAll fadingChanges) false = some (.ok (.finished, _)) :=
    Automaton.step?_of_changes? hnone nofun
  have hround : Log.Performs ⟨⟨trail, fading, 0, some (.playing none), false⟩, fading, []⟩
      .round ⟨⟨trail, fading.putAll fadingChanges, 1, some (.playing none), false⟩, fading,
        [fadingChanges]⟩ := by
    have hperforms : Log.Performs
        ⟨⟨trail, fading, 0, some (.playing none), false⟩, fading, []⟩ .round _ := .round rfl
    simpa [Log.report, round, hfading, eventChanges?] using hperforms
  have hends : Ends ⟨trail, fading.putAll fadingChanges, 1, some (.playing none), false⟩
      [.finished 1] faded := by
    refine ⟨2, ?_⟩
    rw [joinWithin_of_playing rfl]
    simp [round, hfaded, joinWithin, faded]
  have hcalls : (Log.start trail trailRow).PerformsAll
      [.step, .reset fading, .play none, .round, .join]
      ⟨faded, fading, [fadingChanges]⟩ := by
    refine .cons (.changed (step?_eq_ok_iff.mpr
      ⟨rfl, _, Automaton.step?_of_changes? hfirst (by decide), rfl⟩)) ?_
    refine .cons (.reset (reset_eq_ok_iff.mpr ⟨rfl, rfl⟩)) ?_
    refine .cons (.started (play_eq_ok_iff.mpr ⟨rfl, rfl⟩)) ?_
    exact .cons hround (.cons (.joined hends) (.nil _))
  obtain ⟨-, hgeneration, hadvances, -⟩ :=
    calls_refine_steps trail trailRow _ _ hcalls
  exact ⟨hcalls, hgeneration, hadvances⟩

end Playback

end Cellular
