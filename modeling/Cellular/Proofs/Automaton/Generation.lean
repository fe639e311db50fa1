import Cellular.Proofs.Automaton.FirstMatch
import Cellular.Proofs.State.Names

/-!
# Generations

A step makes all changes of a generation at once.  On a consistent grid with an
addressable area the changes name no cell twice, and every cell ends up in the target of
its first matching rule or stays as it was (`step_firstMatch`).
-/

namespace Cellular.Automaton

variable {automaton : Automaton} {grid : Grid} {rules : List Rule}
  {changes : List CellChange}

theorem Sweeps.inBounds {visited : PositionSet}
    (h : automaton.Sweeps grid visited rules changes) :
    ∀ change ∈ changes, grid.inBounds change.position = true := by
  intro change hmem
  obtain ⟨-, place, rule, ⟨-, ⟨⟨source, -, hsource⟩, -⟩, -⟩, -⟩ :=
    (h.mem_iff change).mp hmem
  exact inBounds_of_get? hsource

theorem Sweeps.nodup {visited : PositionSet}
    (h : automaton.Sweeps grid visited rules changes) :
    (changes.map CellChange.position).Nodup := by
  rw [List.nodup_iff_pairwise_ne, List.pairwise_map]
  exact h.ordered.imp ChangesBefore.position_ne

theorem Sweeps.exists_change (h : automaton.Sweeps grid ∅ rules changes)
    {images : List ResolvedRule}
    (hresolves : List.Forall₂ automaton.Resolves rules images) {place : Nat}
    {rule : Rule} {position : Position}
    (hfirst : automaton.FirstMatch grid rules place rule position) :
    ∃ change ∈ changes, change.position = position ∧
      automaton.ChangedBy change rule := by
  obtain ⟨resolved, -, hresolved⟩ :=
    exists_mem_of_forall₂ hresolves (List.mem_of_getElem? hfirst.1)
  have hby : automaton.ChangedBy ⟨resolved.source, resolved.target, position⟩
      rule := hresolved.changedBy_iff.mpr ⟨rfl, rfl⟩
  refine ⟨⟨resolved.source, resolved.target, position⟩, ?_, rfl, hby⟩
  rw [h.mem_iff]
  exact ⟨Std.ExtTreeSet.not_mem_empty, place, rule, hfirst, hby⟩

theorem Sweeps.mem_positions_iff (h : automaton.Sweeps grid ∅ rules changes)
    {images : List ResolvedRule}
    (hresolves : List.Forall₂ automaton.Resolves rules images)
    {position : Position} :
    position ∈ changes.map CellChange.position ↔
      ∃ rule ∈ rules, automaton.Matches grid rule position := by
  rw [← exists_firstMatch_iff, List.mem_map]
  constructor
  · rintro ⟨change, hmem, rfl⟩
    obtain ⟨-, place, rule, hfirst, -⟩ := (h.mem_iff change).mp hmem
    exact ⟨place, rule, hfirst⟩
  · rintro ⟨place, rule, hfirst⟩
    obtain ⟨change, hmem, hposition, -⟩ := h.exists_change hresolves hfirst
    exact ⟨change, hmem, hposition⟩

/-! ## The full scan -/

theorem resolveFrom_withFullScan (index : Nat) (rules : List Rule) :
    automaton.withFullScan.resolveFrom index rules =
      automaton.resolveFrom index rules := by
  induction rules generalizing index with
  | nil => rfl
  | cons rule rules ih =>
      rw [resolveFrom, resolveFrom, ih]
      rfl

theorem resolve_withFullScan :
    automaton.withFullScan.resolve = automaton.resolve :=
  resolveFrom_withFullScan 0 automaton.table.rules

/-- The full scan gives the synchronous first-match semantics: a cell is changed
exactly if some rule matches it, by the first such rule of the table, the changes
stand rule by rule and row by row, and the step leaves every other cell alone. -/
theorem step_firstMatch (automaton : Automaton) (grid : Grid)
    (hresolves : ∃ images, automaton.resolve = .ok images)
    (hconsistent : grid.isConsistent = true)
    (haddressable : grid.Addressable) :
    ∃ changes after,
      automaton.withFullScan.changes? grid false = some (.ok changes) ∧
      automaton.withFullScan.step? grid false = some (.ok (outcomeOf changes, after)) ∧
      (∀ position, position ∈ changes.map CellChange.position ↔
        ∃ rule ∈ automaton.table.rules, automaton.Matches grid rule position) ∧
      (∀ change ∈ changes, ∃ place rule,
        automaton.FirstMatch grid automaton.table.rules place rule
          change.position ∧ automaton.ChangedBy change rule) ∧
      (changes.map CellChange.position).Nodup ∧
      changes.Pairwise
        (automaton.ChangesBefore grid automaton.table.rules) ∧
      after.width = grid.width ∧ after.height = grid.height ∧
      ∀ position, grid.inBounds position = true →
        (∀ place rule,
          automaton.FirstMatch grid automaton.table.rules place rule position →
            ∃ target, automaton.states.id? rule.target = some target ∧
              after.get? position = some target) ∧
        ((∀ rule ∈ automaton.table.rules,
            ¬automaton.Matches grid rule position) →
          after.get? position = grid.get? position) := by
  obtain ⟨images, hresolve⟩ := hresolves
  have h := Grid.isConsistent_iff.mp hconsistent
  have hfull : automaton.withFullScan.resolve = .ok images :=
    resolve_withFullScan.trans hresolve
  obtain ⟨changes, hchanges, hsweeps⟩ :=
    exists_changes h haddressable hfull (Or.inl rfl)
  have hcomputed : automaton.withFullScan.changes? grid false = some (.ok changes) := by
    rw [changes?_eq h haddressable.manageable, hchanges]
  have himages := forall₂_resolves_of_resolveFrom hfull
  have hchanged : ∀ position, position ∈ changes.map CellChange.position ↔
      ∃ rule ∈ automaton.table.rules, automaton.Matches grid rule position :=
    fun position => hsweeps.mem_positions_iff himages
  refine ⟨changes, grid.putAll changes, hcomputed,
    step?_of_changes? hcomputed hsweeps.inBounds, hchanged, ?_, hsweeps.nodup,
    hsweeps.ordered, Grid.width_putAll changes, Grid.height_putAll changes, ?_⟩
  · intro change hmem
    exact ((hsweeps.mem_iff change).mp hmem).2
  · intro position hbounds
    refine ⟨?_, ?_⟩
    · intro place rule hfirst
      obtain ⟨change, hmem, rfl, hby⟩ := hsweeps.exists_change himages hfirst
      exact ⟨change.target, hby.2,
        Grid.get?_putAll_of_mem hsweeps.nodup hmem hbounds⟩
    · intro hnone
      refine Grid.get?_putAll_of_notMem ?_
      rw [hchanged]
      rintro ⟨rule, hmem, hmatches⟩
      exact hnone rule hmem hmatches

/-! ## A trail of two states -/

def trailStates : StateUniverse where
  userNames := ["A", "B"]
  canonical := by
    intro name hmem
    rcases List.mem_pair.mp hmem with rfl | rfl
    · exact isCanonicalName_of_all (by decide) (by decide) (by decide)
    · exact isCanonicalName_of_all (by decide) (by decide) (by decide)
  distinct := by decide
  free_notMem := by decide
  length_le := by decide

/-- An `A` moves to the east and leaves a `B` behind, which fades once no `A` is
near.  The third rule is always too late. -/
def trail : Automaton :=
  ofTable trailStates .moore ⟨[
    .ofParts "FREE" "A"
      (some (.leaf ⟨.directions [.west], .leaf ⟨1, .equal, "A"⟩⟩)) 0,
    .ofParts "A" "B" none 28,
    .ofParts "A" "FREE" none 36,
    .ofParts "B" "FREE" (some (.leaf ⟨.all, .leaf ⟨0, .equal, "A"⟩⟩)) 47]⟩

def trailRow : Grid :=
  ((Grid.empty 4 1).put ⟨0, 0⟩ ⟨1⟩).put ⟨3, 0⟩ ⟨2⟩

theorem step_firstMatch_trail :
    ∃ changes after,
      trail.withFullScan.step? trailRow false = some (.ok (outcomeOf changes, after)) ∧
      (∀ position, position ∈ changes.map CellChange.position ↔
        ∃ rule ∈ trail.table.rules, trail.Matches trailRow rule position) ∧
      (changes.map CellChange.position).Nodup ∧ after.width = 4 := by
  obtain ⟨changes, after, -, hstep, hchanged, -, hnodup, -, hwidth, -⟩ :=
    step_firstMatch trail trailRow (exists_ok_of_isOk (by decide +kernel))
      (by decide) (by decide)
  exact ⟨changes, after, hstep, hchanged, hnodup, hwidth⟩

end Cellular.Automaton
