import Cellular.Proofs.Automaton.Failure
import Cellular.Proofs.Rule.Compiled

/-!
# Generations taken back

The changes of a generation are an exact difference between two grids: no two of them
name one cell, and each tells the state of its cell before and after.  Such a difference
may be taken back (`Grid.Delta.reverse`), and since a consistent grid is determined by
what is seen of it, this restores the index too (`Grid.Delta.apply_eq`).  The source of a
change is that of its rule, so all of this rests on the listed cells being in the source
state, whichever way they are found (`takes_sweep`).
-/

namespace Cellular

def CellChange.reverse (change : CellChange) : CellChange :=
  ⟨change.target, change.source, change.position⟩

/-! ## Differences of grids -/

namespace Grid

variable {before after grid : Grid} {changes : List CellChange}

/-- The changes are all that is different between two grids. -/
structure Delta (before : Grid) (changes : List CellChange) (after : Grid) : Prop where
  width : after.width = before.width
  height : after.height = before.height
  distinct : (changes.map CellChange.position).Nodup
  inBounds : ∀ change ∈ changes, before.inBounds change.position = true
  source : ∀ change ∈ changes, before.get? change.position = some change.source
  target : ∀ change ∈ changes, after.get? change.position = some change.target
  frame : ∀ position ∉ changes.map CellChange.position,
    after.get? position = before.get? position

theorem delta_putAll (hdistinct : (changes.map CellChange.position).Nodup)
    (hsource : ∀ change ∈ changes, grid.get? change.position = some change.source) :
    grid.Delta changes (grid.putAll changes) where
  width := width_putAll changes
  height := height_putAll changes
  distinct := hdistinct
  inBounds := fun change hmem => Automaton.inBounds_of_get? (hsource change hmem)
  source := hsource
  target := fun change hmem =>
    get?_putAll_of_mem hdistinct hmem (Automaton.inBounds_of_get? (hsource change hmem))
  frame := fun _ hposition => get?_putAll_of_notMem hposition

theorem map_position_reverse :
    (changes.map CellChange.reverse).map CellChange.position =
      changes.map CellChange.position := by
  rw [List.map_map]
  rfl

theorem Delta.reverse (h : before.Delta changes after) :
    after.Delta (changes.map CellChange.reverse) before where
  width := h.width.symm
  height := h.height.symm
  distinct := by
    rw [map_position_reverse]
    exact h.distinct
  inBounds := List.forall_mem_map.mpr fun change hmem =>
    Automaton.inBounds_of_get? (h.target change hmem)
  source := List.forall_mem_map.mpr h.target
  target := List.forall_mem_map.mpr h.source
  frame := by
    rw [map_position_reverse]
    exact fun position hposition => (h.frame position hposition).symm

theorem Delta.apply_eq (h : before.Delta changes after) (hbefore : before.Consistent)
    (hafter : after.Consistent) : before.apply changes = .ok after := by
  rw [apply_eq_ok h.inBounds]
  refine congrArg Except.ok ((hbefore.putAll h.inBounds).ext hafter ?_ ?_ fun position => ?_)
  · rw [width_putAll, h.width]
  · rw [height_putAll, h.height]
  · by_cases hposition : position ∈ changes.map CellChange.position
    · obtain ⟨change, hmem, rfl⟩ := List.mem_map.mp hposition
      rw [get?_putAll_of_mem h.distinct hmem (h.inBounds change hmem), h.target change hmem]
    · rw [get?_putAll_of_notMem hposition, h.frame position hposition]

end Grid

/-! ## The changes of a generation -/

theorem Position.Precedes.ne {first second : Position} (h : first.Precedes second) :
    first ≠ second := by
  rintro rfl
  exact Std.Irrefl.irrefl first h

namespace Automaton

variable {automaton : Automaton} {grid after : Grid} {rule : Rule} {rules : List Rule}
  {resolved : ResolvedRule} {images : List ResolvedRule} {visited : PositionSet}
  {changes : List CellChange} {cancelled : Bool} {outcome : StepOutcome}

theorem of_mem_matchingCells (h : grid.Consistent) (haddressable : grid.Addressable)
    {position : Position} (hmem : position ∈ automaton.matchingCells grid resolved visited) :
    grid.get? position = some resolved.source ∧ position ∉ visited := by
  unfold matchingCells at hmem
  split at hmem
  · simpa [mem_sourceCells h haddressable, PositionSet.contains_eq_false_iff] using hmem
  · split at hmem
    · obtain ⟨hsource, hfresh, -⟩ := (mem_scanSources h haddressable).mp hmem
      exact ⟨hsource, hfresh⟩
    · exact (mem_candidates.mp (mem_scanNeighbors.mp hmem).1).2

/-- Some rules take cells that are in the state they start from and not visited before,
and none of them twice. -/
structure Takes (automaton : Automaton) (grid : Grid) (visited : PositionSet)
    (rules : List Rule) (changes : List CellChange) : Prop where
  distinct : (changes.map CellChange.position).Nodup
  fresh : ∀ change ∈ changes, change.position ∉ visited
  source : ∀ change ∈ changes, grid.get? change.position = some change.source
  rule : ∀ change ∈ changes, ∃ rule ∈ rules, automaton.ChangedBy change rule

theorem Takes.cons (h : grid.Consistent) (haddressable : grid.Addressable)
    (hresolves : automaton.Resolves rule resolved)
    (hothers : automaton.Takes grid
      (visited.insertMany (automaton.matchingCells grid resolved visited)) rules changes) :
    automaton.Takes grid visited (rule :: rules)
      ((automaton.matchingCells grid resolved visited).map
        (CellChange.mk resolved.source resolved.target) ++ changes) := by
  have hleft : ∀ change ∈ changes, change.position ∉ visited ∧
      change.position ∉ automaton.matchingCells grid resolved visited := by
    intro change hmem
    have hfresh := hothers.fresh change hmem
    rw [Std.ExtTreeSet.mem_insertMany_list, List.contains_iff_mem, not_or] at hfresh
    exact hfresh
  have hmatched : ∀ position ∈ automaton.matchingCells grid resolved visited,
      grid.get? position = some resolved.source ∧ position ∉ visited :=
    fun position => of_mem_matchingCells h haddressable
  constructor
  case distinct =>
    rw [List.map_append, List.map_map, List.nodup_append']
    refine ⟨?_, hothers.distinct, ?_⟩
    · rw [List.nodup_iff_pairwise_ne, List.pairwise_map]
      exact (pairwise_matchingCells haddressable).imp Position.Precedes.ne
    · intro position hposition hlater
      obtain ⟨change, hmem, rfl⟩ := List.mem_map.mp hlater
      exact (hleft change hmem).2 (by simpa using hposition)
  case fresh =>
    rw [List.forall_mem_append, List.forall_mem_map]
    exact ⟨fun position hmem => (hmatched position hmem).2,
      fun change hmem => (hleft change hmem).1⟩
  case source =>
    rw [List.forall_mem_append, List.forall_mem_map]
    exact ⟨fun position hmem => (hmatched position hmem).1, hothers.source⟩
  case rule =>
    rw [List.forall_mem_append, List.forall_mem_map]
    refine ⟨fun position _ => ⟨rule, List.mem_cons_self,
      hresolves.changedBy_iff.mpr ⟨rfl, rfl⟩⟩, fun change hmem => ?_⟩
    obtain ⟨other, hother, hchanged⟩ := hothers.rule change hmem
    exact ⟨other, List.mem_cons_of_mem _ hother, hchanged⟩

/-- A sweep takes such cells whatever the hints and the conditions of the rules are. -/
theorem takes_sweep (h : grid.Consistent) (haddressable : grid.Addressable)
    (hresolves : List.Forall₂ automaton.Resolves rules images)
    (hsweep : automaton.sweep grid false visited images = .ok changes) :
    automaton.Takes grid visited rules changes := by
  induction hresolves generalizing visited changes with
  | nil =>
      cases hsweep
      exact ⟨.nil, nofun, nofun, nofun⟩
  | cons hhead _ ih =>
      obtain ⟨others, hothers, hchanges⟩ := bind_eq_ok_iff.mp hsweep
      cases hchanges
      exact (ih hothers).cons h haddressable hhead

theorem takes_changes (h : grid.Consistent) (haddressable : grid.Addressable)
    (hchanges : automaton.changes? grid cancelled = some (.ok changes)) :
    automaton.Takes grid ∅ automaton.table.rules changes := by
  have hgoing := changes?_of_cancelled hchanges
  rw [changes?_eq h haddressable.manageable, Option.some.injEq] at hgoing
  obtain ⟨images, hresolve, hsweep⟩ := bind_eq_ok_iff.mp hgoing
  exact takes_sweep h haddressable (forall₂_resolves_of_resolveFrom hresolve) hsweep

theorem Takes.delta (h : automaton.Takes grid visited rules changes) :
    grid.Delta changes (grid.putAll changes) :=
  Grid.delta_putAll h.distinct h.source

/-! ## Steps that change nothing -/

def IsIdle (automaton : Automaton) (rule : Rule) : Prop :=
  ∃ state, automaton.states.id? rule.source = some state ∧
    automaton.states.id? rule.target = some state

theorem Takes.eq_nil (h : automaton.Takes grid visited rules changes)
    (hlively : ∀ rule ∈ rules, ¬automaton.IsIdle rule)
    (hsame : grid.putAll changes = grid) : changes = [] := by
  refine List.eq_nil_iff_forall_not_mem.mpr fun change hmem => ?_
  obtain ⟨rule, hrule, hsource, htarget⟩ := h.rule change hmem
  have hafter := h.delta.target change hmem
  rw [hsame, h.source change hmem] at hafter
  exact hlively rule hrule ⟨change.source, hsource, by rw [htarget, Option.some.inj hafter]⟩

theorem not_isIdle_of_isSound
    (h : rule.IsSound automaton.states automaton.neighborhood) : ¬automaton.IsIdle rule := by
  rintro ⟨state, hsource, htarget⟩
  have hname : ∀ {name : String}, name ∈ automaton.states.names →
      automaton.states.id? name = some state → automaton.states.name? state = some name := by
    intro name hmem hstate
    have hcanonical := (StateUniverse.isCanonicalName_of_mem hmem).upperCase_eq
    have hback := StateUniverse.bind_name?_id?_eq_some_iff.mpr ⟨hcanonical, hmem⟩
    rwa [hstate] at hback
  refine h.ne (Option.some.inj ?_)
  rw [← hname h.source hsource, hname h.target htarget]

theorem calls_of_finished (hstep : automaton.step? grid false = some (.ok (.finished, grid)))
    (count : Nat) :
    ∀ answer ∈ automaton.calls count grid, answer = (some (.ok .finished), grid) := by
  have hcall := call_of_step? hstep
  induction count with
  | zero => simp [calls]
  | succ count ih =>
      rw [calls, hcall, List.forall_mem_cons]
      exact ⟨rfl, ih⟩

/-- The changes of a generation lead to the grid after it and, taken back, to the one
before, by either scan and whatever the rules.  Unless a rule is idle, a step finishes
just if the grid stays as it was, and then nothing more changes.  No compiled rule is
idle. -/
theorem step_delta (automaton : Automaton) (grid : Grid)
    (hconsistent : grid.isConsistent = true) (haddressable : grid.Addressable) :
    (∀ cancelled changes after,
        automaton.step? grid cancelled = some (.ok (.changed changes, after)) →
          grid.Delta changes after ∧
            after.apply (changes.map CellChange.reverse) = .ok grid) ∧
      ((∀ rule ∈ automaton.table.rules, ¬automaton.IsIdle rule) →
        ∀ cancelled outcome after,
          automaton.step? grid cancelled = some (.ok (outcome, after)) →
            (outcome = .finished ↔ after = grid) ∧
              (outcome = .finished → ∀ count, ∀ answer ∈ automaton.calls count after,
                answer = (some (.ok .finished), after))) ∧
      ∀ compiler text, ∀ rule ∈ (Compiler.compile compiler text).table.rules,
        ¬(ofTable compiler.states compiler.neighborhood
          (compiler.compile text).table).IsIdle rule := by
  have h := Grid.isConsistent_iff.mp hconsistent
  refine ⟨fun cancelled changes after hstep => ?_,
    fun hlively cancelled outcome after hstep => ?_, fun compiler text rule hmem =>
      not_isIdle_of_isSound (Compiler.isSound_of_mem_compile hmem)⟩
  · obtain ⟨swept, hchanges, hbounds, houtcome, rfl⟩ := step?_eq_ok_iff.mp hstep
    cases eq_of_outcomeOf_eq_changed houtcome
    have hdelta := (takes_changes h haddressable hchanges).delta
    exact ⟨hdelta, hdelta.reverse.apply_eq (h.putAll hbounds) h⟩
  · obtain ⟨changes, hchanges, hbounds, rfl, rfl⟩ := step?_eq_ok_iff.mp hstep
    have htakes := takes_changes h haddressable hchanges
    have hfinished : outcomeOf changes = .finished ↔ grid.putAll changes = grid := by
      rw [outcomeOf_eq_finished_iff]
      constructor
      · rintro rfl
        rfl
      · exact htakes.eq_nil hlively
    refine ⟨hfinished, fun hdone => ?_⟩
    have hsame := hfinished.mp hdone
    rw [hdone, hsame] at hstep
    rw [hsame]
    exact calls_of_finished (step?_of_cancelled hstep)

theorem step_delta_trail :
    (∃ changes after, trail.step? trailRow false = some (.ok (.changed changes, after)) ∧
        changes.map CellChange.position = [⟨1, 0⟩, ⟨0, 0⟩, ⟨3, 0⟩] ∧
        after.apply (changes.map CellChange.reverse) = .ok trailRow) ∧
      ∀ count, ∀ answer ∈ northward.calls count (.empty 3 3),
        answer = (some (.ok .finished), .empty 3 3) := by
  constructor
  · have hchanges : trail.changes? trailRow false = some (.ok [⟨⟨0⟩, ⟨1⟩, ⟨1, 0⟩⟩,
        ⟨⟨1⟩, ⟨2⟩, ⟨0, 0⟩⟩, ⟨⟨2⟩, ⟨0⟩, ⟨3, 0⟩⟩]) := by decide +kernel
    have hstep := step?_of_changes? hchanges (by decide +kernel)
    exact ⟨_, _, hstep, rfl,
      ((step_delta trail trailRow (by decide) (by decide)).1 _ _ _ hstep).2⟩
  · have hlively : ∀ rule ∈ northward.table.rules, ¬northward.IsIdle rule := by
      rintro rule hmem ⟨state, hsource, htarget⟩
      rw [List.mem_singleton.mp hmem] at hsource htarget
      rw [← hsource] at htarget
      exact absurd htarget (by decide +kernel)
    have hstep : northward.step? (.empty 3 3) false =
        some (.ok (.finished, .empty 3 3)) := by
      decide +kernel
    exact ((step_delta northward (.empty 3 3) (by decide) (by decide)).2.1 hlively
      _ _ _ hstep).2 rfl

end Automaton

end Cellular
