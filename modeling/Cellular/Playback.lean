import Cellular.Automaton.Generation

/-!
# Playback

A playback owns a grid and counts the generations that changed it.  It is moved on by
single steps or by a worker, which plays until nothing changes, a number of generations
is reached, it is asked to stop, or a step fails.  The worker reports what happens as
events, the last of which says why it ended; a worker whose step has no answer is lost
without such an event.  While one plays, every other use of the playback is refused.
-/

namespace Cellular

inductive PlaybackEvent where
  | generation (number : Nat) (changes : List CellChange)
  | finished (generation : Nat)
  | failed (error : StepError)
  | stopped (generation : Nat)
  deriving DecidableEq, Repr

inductive PlaybackError where
  | alreadyRunning
  | step (error : StepError)
  deriving DecidableEq, Repr

def PlaybackError.message : PlaybackError → String
  | .alreadyRunning => "Playback is already running"
  | .step error => error.message

inductive Worker where
  /-- It has as many generations left to play, or plays without a limit. -/
  | playing (left : Option Nat)
  | ended
  deriving DecidableEq, Repr

structure Playback where
  automaton : Automaton
  grid : Grid
  /-- Generations that changed the grid since the start or the last reset. -/
  generation : Nat
  worker : Option Worker
  /-- Whether the worker has been asked to stop. -/
  cancelled : Bool

namespace Playback

def start (automaton : Automaton) (grid : Grid) : Playback :=
  ⟨automaton, grid, 0, none, false⟩

def isRunning (playback : Playback) : Bool :=
  match playback.worker with
  | some (.playing _) => true
  | _ => false

/-- Forgets a worker that has ended, and refuses while one still plays. -/
def reap (playback : Playback) : Except PlaybackError Playback :=
  if playback.isRunning then .error .alreadyRunning
  else .ok { playback with worker := none }

def reset (playback : Playback) (grid : Grid) : Except PlaybackError Playback := do
  let idle ← playback.reap
  .ok { idle with grid := grid, generation := 0 }

def advance (playback : Playback) :
    Automaton.StepOutcome × Grid → Automaton.StepOutcome × Playback
  | (.finished, _) => (.finished, playback)
  | (.changed changes, grid) =>
      (.changed changes,
        { playback with grid := grid, generation := playback.generation + 1 })

def step? (playback : Playback) :
    Option (Except PlaybackError (Automaton.StepOutcome × Playback)) :=
  match playback.reap with
  | .error error => some (.error error)
  | .ok idle => do
      let outcome ← idle.automaton.step? idle.grid idle.cancelled
      some ((outcome.mapError .step).map idle.advance)

/-! ## The worker -/

def play (playback : Playback) (limit : Option Nat) :
    Except PlaybackError Playback := do
  let idle ← playback.reap
  .ok { idle with worker := some (.playing limit), cancelled := false }

/-- What a worker does in one round, with the events that it reports. -/
def round (playback : Playback) (left : Option Nat) :
    List PlaybackEvent × Playback :=
  let ended := { playback with worker := some .ended }
  if playback.cancelled || left = some 0 then
    ([.stopped playback.generation], ended)
  else
    match playback.automaton.step? playback.grid playback.cancelled with
    | none => ([], ended)
    | some (.error .cancelled) => ([], playback)
    | some (.error error) => ([.failed error], ended)
    | some (.ok (.finished, _)) => ([.finished playback.generation], ended)
    | some (.ok (.changed changes, grid)) =>
        ([.generation (playback.generation + 1) changes],
          { playback with
            grid := grid
            generation := playback.generation + 1
            worker := some (.playing (left.map Nat.pred)) })

/-- Waits for the worker to come to its end and forgets it.  There is no result if it
plays more rounds than the budget. -/
def joinWithin : Nat → Playback → Option (List PlaybackEvent × Playback)
  | 0, _ => none
  | budget + 1, playback =>
      match playback.worker with
      | some (.playing left) => do
          let (reported, next) := playback.round left
          let (events, last) ← joinWithin budget next
          some (reported ++ events, last)
      | _ => some ([], { playback with worker := none })

def patience : Nat := 1000000000

def budget (playback : Playback) : Nat :=
  match playback.worker with
  | some (.playing left) => left.getD patience + 2
  | _ => 1

def join (playback : Playback) : List PlaybackEvent × Playback :=
  (joinWithin playback.budget playback).getD ([], playback)

def stop (playback : Playback) : List PlaybackEvent × Playback :=
  let (events, last) := { playback with cancelled := true }.join
  (events, { last with cancelled := false })

end Playback

end Cellular
