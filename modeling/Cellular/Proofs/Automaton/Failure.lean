import Cellular.Proofs.Automaton.Faults
import Cellular.Proofs.Automaton.Generation

/-!
# Steps that fail

Before it looks at the grid a generation resolves the table, so a foreign rule is
reported whatever the grid holds and also when a stop is requested, and the request is
reported only where all rules resolve (`changes?_eq_some_error_iff`).  The changes of a
generation lie inside the grid, so making them does not fail (`step?_ne_grid`).  All that
is left are generations without an answer, on extents that are not manageable
(`changes?_eq_none`).
-/

namespace Cellular

namespace Automaton

variable {automaton : Automaton} {grid after : Grid} {cancelled : Bool}
  {visited : PositionSet} {images : List ResolvedRule} {changes : List CellChange}
  {error : StepError} {outcome : StepOutcome}

/-! ## What a generation fails at -/

theorem sweep?_eq_some_error_iff :
    automaton.sweep? grid cancelled visited images = some (.error error) ↔
      cancelled = true ∧ images ≠ [] ∧ error = .cancelled := by
  induction images generalizing visited with
  | nil => simp [sweep?]
  | cons resolved images ih =>
      cases cancelled with
      | true => simp [sweep?, eq_comm]
      | false =>
          simp only [sweep?, Bool.false_eq_true, if_false, false_and, iff_false]
          intro h
          obtain ⟨matched, -, h⟩ := Option.bind_eq_some_iff.mp h
          obtain ⟨others, hothers, h⟩ := Option.bind_eq_some_iff.mp h
          rw [map_eq_error_iff.mp (Option.some.inj h)] at hothers
          exact Bool.false_ne_true (ih.mp hothers).1

theorem sweep?_of_cancelled
    (h : automaton.sweep? grid cancelled visited images = some (.ok changes)) :
    automaton.sweep? grid false visited images = some (.ok changes) := by
  cases cancelled with
  | false => exact h
  | true =>
      cases images with
      | nil => exact h
      | cons resolved images => cases h

theorem changes?_of_cancelled
    (h : automaton.changes? grid cancelled = some (.ok changes)) :
    automaton.changes? grid false = some (.ok changes) := by
  unfold changes? at *
  split at h
  · cases h
  · exact sweep?_of_cancelled h

theorem step?_of_cancelled (h : automaton.step? grid cancelled = some (.ok (outcome, after))) :
    automaton.step? grid false = some (.ok (outcome, after)) := by
  obtain ⟨changes, hchanges, hmade⟩ := step?_eq_ok_iff.mp h
  exact step?_eq_ok_iff.mpr ⟨changes, changes?_of_cancelled hchanges, hmade⟩

theorem changes?_eq_some_error_iff :
    automaton.changes? grid cancelled = some (.error error) ↔
      automaton.FirstFault 0 automaton.table.rules error ∨
        (∀ rule ∈ automaton.table.rules, ¬automaton.IsForeign rule) ∧
          cancelled = true ∧ automaton.table.rules ≠ [] ∧ error = .cancelled := by
  rw [← resolve_eq_error_iff, changes?]
  cases hresolve : automaton.resolve with
  | error fault =>
      have hforeign : ¬∀ rule ∈ automaton.table.rules, ¬automaton.IsForeign rule := by
        obtain ⟨rule, hmem, hforeign⟩ :=
          exists_firstFault_iff.mp ⟨fault, resolve_eq_error_iff.mp hresolve⟩
        exact fun hfamiliar => hfamiliar rule hmem hforeign
      simp [hforeign]
  | ok images =>
      have hresolves := forall₂_resolves_of_resolveFrom hresolve
      have hnone : images = [] ↔ automaton.table.rules = [] := by
        constructor
        · rintro rfl
          exact List.forall₂_nil_right_iff.mp hresolves
        · intro hrules
          rw [hrules] at hresolves
          exact List.forall₂_nil_left_iff.mp hresolves
      simp only [sweep?_eq_some_error_iff, Ne, hnone, reduceCtorEq, false_or,
        and_iff_right (not_isForeign_of_resolve hresolve)]

theorem changes?_ne_error
    (hfamiliar : ∀ rule ∈ automaton.table.rules, ¬automaton.IsForeign rule)
    (hgoing : cancelled = false ∨ automaton.table.rules = []) (error : StepError) :
    automaton.changes? grid cancelled ≠ some (.error error) := by
  rw [Ne, changes?_eq_some_error_iff]
  rintro (hfault | ⟨-, hcancelled, hsome, -⟩)
  · obtain ⟨rule, hmem, hforeign⟩ := exists_firstFault_iff.mp ⟨error, hfault⟩
    exact hfamiliar rule hmem hforeign
  · rcases hgoing with hgoing | hnone
    · rw [hgoing] at hcancelled
      cases hcancelled
    · exact hsome hnone

theorem exists_changes_of_familiar (h : grid.Consistent)
    (hextents : Manageable grid.width grid.height)
    (hfamiliar : ∀ rule ∈ automaton.table.rules, ¬automaton.IsForeign rule)
    (hgoing : cancelled = false ∨ automaton.table.rules = []) :
    ∃ changes, automaton.changes? grid cancelled = some (.ok changes) := by
  have hchanges := changes?_eq h hextents automaton cancelled
  cases hfound : automaton.changes grid cancelled with
  | ok changes => exact ⟨changes, by rw [hchanges, hfound]⟩
  | error error =>
      rw [hfound] at hchanges
      exact absurd hchanges (changes?_ne_error hfamiliar hgoing error)

/-! ## What a step fails at -/

theorem step?_eq_some_error_iff :
    automaton.step? grid cancelled = some (.error error) ↔
      automaton.changes? grid cancelled = some (.error error) ∨
        ∃ changes, automaton.changes? grid cancelled = some (.ok changes) ∧
          grid.advance changes = .error error := by
  rw [step?]
  cases automaton.changes? grid cancelled with
  | none => simp
  | some found => cases found <;> simp [Except.bind]

/-- All changes of a generation are inside the grid, and making them does not fail. -/
theorem step?_ne_grid (h : grid.Consistent) (bounds : OutOfBounds) :
    automaton.step? grid cancelled ≠ some (.error (.grid bounds)) := by
  rw [Ne, step?_eq_some_error_iff]
  rintro (hchanges | ⟨changes, hchanges, hadvance⟩)
  · rcases changes?_eq_some_error_iff.mp hchanges with hfirst | ⟨-, -, -, herror⟩
    · exact hfirst.isFault.elim
    · cases herror
  · rw [advance_eq_ok (inBounds_of_changes? h hchanges)] at hadvance
    cases hadvance

theorem exists_step (h : grid.Consistent) (hextents : Manageable grid.width grid.height)
    (hfamiliar : ∀ rule ∈ automaton.table.rules, ¬automaton.IsForeign rule) :
    ∃ outcome after, automaton.step? grid false = some (.ok (outcome, after)) := by
  obtain ⟨changes, hchanges⟩ :=
    exists_changes_of_familiar h hextents hfamiliar (Or.inl rfl)
  exact ⟨_, _, step?_of_changes? hchanges (inBounds_of_changes? h hchanges)⟩

theorem step?_ne_error (h : grid.Consistent)
    (hfamiliar : ∀ rule ∈ automaton.table.rules, ¬automaton.IsForeign rule)
    (error : StepError) : automaton.step? grid false ≠ some (.error error) := by
  rw [Ne, step?_eq_some_error_iff]
  rintro (hchanges | ⟨changes, hchanges, hadvance⟩)
  · exact changes?_ne_error hfamiliar (Or.inl rfl) error hchanges
  · rw [advance_eq_ok (inBounds_of_changes? h hchanges)] at hadvance
    cases hadvance

theorem step?_ne_cancelled : automaton.step? grid false ≠ some (.error .cancelled) := by
  rw [Ne, step?_eq_some_error_iff]
  rintro (hchanges | ⟨changes, -, hadvance⟩)
  · rcases changes?_eq_some_error_iff.mp hchanges with hfirst | ⟨-, hcancelled, -⟩
    · exact hfirst.isFault
    · cases hcancelled
  · unfold Grid.advance at hadvance
    split at hadvance
    · cases hadvance
    · split at hadvance <;> cases hadvance

/-- A generation reports a foreign rule if there is one, and the first of them, whatever
the grid holds.  Otherwise a stop that is requested is reported, if there is a rule to stop
at, and without a request nothing is, so that on manageable extents the generation
succeeds.  A step that does not succeed leaves the grid as it was, and it does not fail at
the grid. -/
theorem failing_step (automaton : Automaton) (grid : Grid) (cancelled : Bool) :
    ((∃ error : StepError, error.IsFault ∧
          automaton.changes? grid cancelled = some (.error error)) ↔
        ∃ rule ∈ automaton.table.rules, automaton.IsForeign rule) ∧
      (∀ error : StepError, error.IsFault →
        (automaton.changes? grid cancelled = some (.error error) ↔
          automaton.FirstFault 0 automaton.table.rules error)) ∧
      ((∀ rule ∈ automaton.table.rules, ¬automaton.IsForeign rule) →
        (cancelled = true → automaton.table.rules ≠ [] →
          automaton.changes? grid cancelled = some (.error .cancelled)) ∧
        (cancelled = false ∨ automaton.table.rules = [] →
          (∀ error, automaton.changes? grid cancelled ≠ some (.error error)) ∧
          (grid.isConsistent = true → Manageable grid.width grid.height →
            ∃ changes, automaton.changes? grid cancelled = some (.ok changes)))) ∧
      (∀ outcome after, automaton.stepInPlace cancelled grid = (some (.ok outcome), after) ↔
        automaton.step? grid cancelled = some (.ok (outcome, after))) ∧
      (∀ error after, automaton.stepInPlace cancelled grid = (some (.error error), after) ↔
        automaton.step? grid cancelled = some (.error error) ∧ after = grid) ∧
      (∀ after, automaton.stepInPlace cancelled grid = (none, after) ↔
        automaton.step? grid cancelled = none ∧ after = grid) ∧
      (grid.isConsistent = true →
        ∀ bounds, automaton.step? grid cancelled ≠ some (.error (.grid bounds))) := by
  have hfault : ∀ error : StepError, error.IsFault →
      (automaton.changes? grid cancelled = some (.error error) ↔
        automaton.FirstFault 0 automaton.table.rules error) := by
    intro error hfault
    rw [changes?_eq_some_error_iff, or_iff_left]
    rintro ⟨-, -, -, rfl⟩
    exact hfault
  refine ⟨?_, hfault, fun hfamiliar => ⟨fun hcancelled hsome => ?_, fun hgoing =>
    ⟨changes?_ne_error hfamiliar hgoing, fun hconsistent hextents => ?_⟩⟩,
    fun _ _ => stepInPlace_eq_ok_iff, fun _ _ => stepInPlace_eq_error_iff,
    fun _ => stepInPlace_eq_none_iff,
    fun hconsistent => step?_ne_grid (Grid.isConsistent_iff.mp hconsistent)⟩
  · refine Iff.trans ?_ (exists_firstFault_iff : (∃ error,
      automaton.FirstFault 0 automaton.table.rules error) ↔ _)
    constructor
    · rintro ⟨error, herror, hchanges⟩
      exact ⟨error, (hfault error herror).mp hchanges⟩
    · rintro ⟨error, hfirst⟩
      exact ⟨error, hfirst.isFault, (hfault error hfirst.isFault).mpr hfirst⟩
  · exact changes?_eq_some_error_iff.mpr (Or.inr ⟨hfamiliar, hcancelled, hsome, rfl⟩)
  · exact exists_changes_of_familiar (Grid.isConsistent_iff.mp hconsistent) hextents
      hfamiliar hgoing

/-- Only the north and the south are seen.  The second rule is foreign for two names
and a direction, the third one for two directions. -/
def strangers : Automaton :=
  ofTable trailStates (.ofList [.north, .south]) ⟨[
    .ofParts "FREE" "B" (some (.leaf ⟨.directions [.north], .leaf ⟨1, .equal, "A"⟩⟩)) 0,
    .ofParts "A" "C" (some (.leaf ⟨.directions [.west], .leaf ⟨1, .equal, "D"⟩⟩)) 29,
    .ofParts "A" "B" (some (.leaf ⟨.directions [.east, .west], .leaf ⟨1, .equal, "A"⟩⟩)) 58]⟩

theorem failing_step_strangers :
    strangers.changes? trailRow true = some (.error (.undeclaredState 1 29 "C")) ∧
      (strangers.stepInPlace true trailRow).2 = trailRow ∧
      ∀ bounds, strangers.step? trailRow true ≠ some (.error (.grid bounds)) := by
  obtain ⟨-, hfault, -, -, herror, -, hgrid⟩ := failing_step strangers trailRow true
  have hchanges : strangers.changes? trailRow true =
      some (.error (.undeclaredState 1 29 "C")) := by
    refine (hfault (.undeclaredState 1 29 "C") trivial).mpr
      ⟨[_], _, [_], rfl, ?_, .undeclared (by decide +kernel)⟩
    intro rule hmem
    rw [List.mem_singleton.mp hmem]
    exact not_isForeign (by decide +kernel)
      (strayDirection?_eq_none_iff.mp (by decide +kernel))
  have hstep : strangers.step? trailRow true =
      some (.error (.undeclaredState 1 29 "C")) :=
    step?_eq_some_error_iff.mpr (Or.inl hchanges)
  refine ⟨hchanges, ?_, hgrid (by decide)⟩
  rw [(herror _ trailRow).mpr ⟨hstep, rfl⟩]

def northward : Automaton :=
  ofTable trailStates .moore
    ⟨[.ofParts "FREE" "B" (some (.leaf ⟨.directions [.south], .leaf ⟨1, .equal, "A"⟩⟩)) 0]⟩

/-- A corner of extents that are words and whose product is none. -/
def vastGrid : Grid :=
  (Grid.empty 18446744073709551615 18446744073709551614).put ⟨0, 0⟩ ⟨1⟩

/-- The last column of the row is the last one that a signed word tells. -/
def edgeGrid : Grid :=
  (Grid.empty 9223372036854775808 1).put ⟨9223372036854775807, 0⟩ ⟨1⟩

/-- Nobody stops it and no rule is foreign, and still the generation does not succeed. -/
theorem changes?_eq_none :
    (∀ rule ∈ northward.table.rules, ¬northward.IsForeign rule) ∧
      (vastGrid.isConsistent = true ∧ northward.changes? vastGrid false = none) ∧
      edgeGrid.isConsistent = true ∧ northward.changes? edgeGrid false = none := by
  refine ⟨?_, ⟨by decide +kernel, by decide +kernel⟩, by decide +kernel, by decide +kernel⟩
  intro rule hmem
  rw [List.mem_singleton.mp hmem]
  exact not_isForeign (by decide +kernel)
    (strayDirection?_eq_none_iff.mp (by decide +kernel))

end Automaton

end Cellular
