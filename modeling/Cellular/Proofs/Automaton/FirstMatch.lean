import Cellular.Proofs.Automaton.Scan

/-!
# First-match semantics

The rules are tried one after the other and keep account of the cells that are
taken.  The outcome is that every cell is changed by the first rule that matches
it in the grid from before, and by no other.
-/

namespace Cellular.Automaton

variable {automaton : Automaton} {grid : Grid} {position : Position}
  {rule other : Rule} {rules : List Rule} {place : Nat}

/-! ## The first matching rule -/

theorem firstMatch_zero_iff :
    automaton.FirstMatch grid (rule :: rules) 0 other position ↔
      rule = other ∧ automaton.Matches grid rule position := by
  simp only [FirstMatch, List.getElem?_cons_zero, Option.some.injEq,
    Nat.not_lt_zero, false_implies, implies_true, and_true]
  constructor
  · rintro ⟨rfl, hmatches⟩
    exact ⟨rfl, hmatches⟩
  · rintro ⟨rfl, hmatches⟩
    exact ⟨rfl, hmatches⟩

theorem firstMatch_succ_iff :
    automaton.FirstMatch grid (rule :: rules) (place + 1) other position ↔
      ¬automaton.Matches grid rule position ∧
        automaton.FirstMatch grid rules place other position := by
  simp only [FirstMatch, List.getElem?_cons_succ]
  constructor
  · rintro ⟨hplace, hmatches, hearlier⟩
    refine ⟨hearlier 0 (Nat.succ_pos place) rule rfl, hplace, hmatches, ?_⟩
    intro earlier hlt
    exact hearlier (earlier + 1) (Nat.succ_lt_succ hlt)
  · rintro ⟨hrule, hplace, hmatches, hearlier⟩
    refine ⟨hplace, hmatches, ?_⟩
    intro earlier hlt candidate hcandidate
    cases earlier with
    | zero =>
        cases hcandidate
        exact hrule
    | succ earlier =>
        exact hearlier earlier (Nat.lt_of_succ_lt_succ hlt) candidate hcandidate

theorem exists_firstMatch_cons_iff {property : Rule → Prop} :
    (∃ place other, automaton.FirstMatch grid (rule :: rules) place other position ∧
        property other) ↔
      (automaton.Matches grid rule position ∧ property rule) ∨
        ¬automaton.Matches grid rule position ∧
          ∃ place other, automaton.FirstMatch grid rules place other position ∧
            property other := by
  constructor
  · rintro ⟨place, other, hfirst, hproperty⟩
    cases place with
    | zero =>
        obtain ⟨rfl, hmatches⟩ := firstMatch_zero_iff.mp hfirst
        exact Or.inl ⟨hmatches, hproperty⟩
    | succ place =>
        obtain ⟨hrule, hrest⟩ := firstMatch_succ_iff.mp hfirst
        exact Or.inr ⟨hrule, place, other, hrest, hproperty⟩
  · rintro (⟨hmatches, hproperty⟩ | ⟨hrule, place, other, hrest, hproperty⟩)
    · exact ⟨0, rule, firstMatch_zero_iff.mpr ⟨rfl, hmatches⟩, hproperty⟩
    · exact ⟨place + 1, other, firstMatch_succ_iff.mpr ⟨hrule, hrest⟩, hproperty⟩

theorem exists_firstMatch_iff :
    (∃ place rule, automaton.FirstMatch grid rules place rule position) ↔
      ∃ rule ∈ rules, automaton.Matches grid rule position := by
  induction rules with
  | nil => simp [FirstMatch]
  | cons rule rules ih =>
      have hcons := @exists_firstMatch_cons_iff automaton grid position rule
        rules fun _ => True
      simp only [and_true] at hcons
      rw [hcons, ih, List.exists_mem_cons_iff]
      by_cases hmatches : automaton.Matches grid rule position <;> simp [hmatches]

theorem FirstMatch.place_unique {second : Nat}
    (h : automaton.FirstMatch grid rules place rule position)
    (h' : automaton.FirstMatch grid rules second other position) :
    place = second := by
  obtain ⟨hplace, hmatches, hearlier⟩ := h
  obtain ⟨hsecond, hmatches', hearlier'⟩ := h'
  rcases Nat.lt_trichotomy place second with hlt | heq | hgt
  · exact absurd hmatches (hearlier' place hlt rule hplace)
  · exact heq
  · exact absurd hmatches' (hearlier second hgt other hsecond)

/-! ## The order of changes -/

/-- Changes stand in the order of their rules, and row by row for each rule. -/
def ChangesBefore (automaton : Automaton) (grid : Grid) (rules : List Rule)
    (first second : CellChange) : Prop :=
  ∃ earlier later rule other,
    automaton.FirstMatch grid rules earlier rule first.position ∧
      automaton.FirstMatch grid rules later other second.position ∧
      (earlier < later ∨
        earlier = later ∧ first.position.Precedes second.position)

theorem ChangesBefore.cons {first second : CellChange}
    (hfirst : ¬automaton.Matches grid rule first.position)
    (hsecond : ¬automaton.Matches grid rule second.position)
    (h : automaton.ChangesBefore grid rules first second) :
    automaton.ChangesBefore grid (rule :: rules) first second := by
  obtain ⟨earlier, later, one, two, hone, htwo, horder⟩ := h
  refine ⟨earlier + 1, later + 1, one, two,
    firstMatch_succ_iff.mpr ⟨hfirst, hone⟩,
    firstMatch_succ_iff.mpr ⟨hsecond, htwo⟩, ?_⟩
  rcases horder with hlt | ⟨heq, hprecedes⟩
  · exact Or.inl (Nat.succ_lt_succ hlt)
  · exact Or.inr ⟨congrArg (· + 1) heq, hprecedes⟩

theorem ChangesBefore.position_ne {first second : CellChange}
    (h : automaton.ChangesBefore grid rules first second) :
    first.position ≠ second.position := by
  obtain ⟨earlier, later, one, two, hone, htwo, horder⟩ := h
  intro heq
  rw [← heq] at htwo horder
  have hplaces := hone.place_unique htwo
  rcases horder with hlt | ⟨-, hprecedes⟩
  · omega
  · exact Std.Irrefl.irrefl first.position hprecedes

/-! ## The sweep over the rules -/

/-- The change that a rule makes to the cells that it takes. -/
def ChangedBy (automaton : Automaton) (change : CellChange) (rule : Rule) : Prop :=
  automaton.states.id? rule.source = some change.source ∧
    automaton.states.id? rule.target = some change.target

theorem Resolves.changedBy_iff {resolved : ResolvedRule}
    (h : automaton.Resolves rule resolved) {change : CellChange} :
    automaton.ChangedBy change rule ↔
      change.source = resolved.source ∧ change.target = resolved.target := by
  simp [ChangedBy, h.source, h.target, eq_comm]

/-- Under the full scan any rules may stand in the table, under the narrow one
solid rules. -/
def Admits (automaton : Automaton) (rules : List Rule) : Prop :=
  automaton.fullScan = true ∨ ∀ rule ∈ rules, rule.IsSolid

theorem Admits.head (h : automaton.Admits (rule :: rules)) :
    automaton.fullScan = true ∨ rule.IsSolid :=
  h.imp_right fun hsolid => hsolid rule List.mem_cons_self

theorem Admits.tail (h : automaton.Admits (rule :: rules)) :
    automaton.Admits rules :=
  h.imp_right fun hsolid other hmem => hsolid other (List.mem_cons_of_mem _ hmem)

/-- What the rules change, given the cells that are taken already. -/
structure Sweeps (automaton : Automaton) (grid : Grid) (visited : PositionSet)
    (rules : List Rule) (changes : List CellChange) : Prop where
  mem_iff : ∀ change, change ∈ changes ↔
    change.position ∉ visited ∧
      ∃ place rule, automaton.FirstMatch grid rules place rule change.position ∧
        automaton.ChangedBy change rule
  ordered : changes.Pairwise (automaton.ChangesBefore grid rules)

theorem mem_taken_iff (h : grid.Consistent) (haddressable : grid.Addressable)
    {resolved : ResolvedRule} (hresolves : automaton.Resolves rule resolved)
    (hscan : automaton.fullScan = true ∨ rule.IsSolid) {visited : PositionSet}
    {change : CellChange} :
    change ∈ (automaton.matchingCells grid resolved visited).map
        (CellChange.mk resolved.source resolved.target) ↔
      (automaton.Matches grid rule change.position ∧
        change.position ∉ visited) ∧ automaton.ChangedBy change rule := by
  rw [List.mem_map, hresolves.changedBy_iff]
  constructor
  · rintro ⟨position, hmem, rfl⟩
    exact ⟨(mem_matchingCells h haddressable hresolves hscan).mp hmem, rfl, rfl⟩
  · rintro ⟨hmem, hsource, htarget⟩
    refine ⟨change.position,
      (mem_matchingCells h haddressable hresolves hscan).mpr hmem, ?_⟩
    rw [← hsource, ← htarget]

theorem Sweeps.cons (h : grid.Consistent) (haddressable : grid.Addressable)
    {resolved : ResolvedRule} (hresolves : automaton.Resolves rule resolved)
    (hscan : automaton.fullScan = true ∨ rule.IsSolid) {visited : PositionSet}
    {others : List CellChange}
    (hothers : automaton.Sweeps grid
      (visited.insertMany (automaton.matchingCells grid resolved visited)) rules
      others) :
    automaton.Sweeps grid visited (rule :: rules)
      ((automaton.matchingCells grid resolved visited).map
        (CellChange.mk resolved.source resolved.target) ++ others) := by
  have hmatched : ∀ position,
      position ∈ automaton.matchingCells grid resolved visited ↔
        automaton.Matches grid rule position ∧ position ∉ visited :=
    fun position => mem_matchingCells h haddressable hresolves hscan
  have htaken : ∀ change : CellChange,
      change ∈ (automaton.matchingCells grid resolved visited).map
          (CellChange.mk resolved.source resolved.target) ↔
        (automaton.Matches grid rule change.position ∧
          change.position ∉ visited) ∧ automaton.ChangedBy change rule :=
    fun change => mem_taken_iff h haddressable hresolves hscan
  have hleft : ∀ change ∈ others, change.position ∉ visited ∧
      ¬automaton.Matches grid rule change.position := by
    intro change hmem
    have hfresh := ((hothers.mem_iff change).mp hmem).1
    rw [Std.ExtTreeSet.mem_insertMany_list, List.contains_iff_mem, not_or,
      hmatched] at hfresh
    exact ⟨hfresh.1, fun hmatches => hfresh.2 ⟨hmatches, hfresh.1⟩⟩
  constructor
  -- A cell is free for the rule, taken already, or left to the other rules.
  · intro change
    rw [List.mem_append, htaken, hothers.mem_iff, exists_firstMatch_cons_iff,
      Std.ExtTreeSet.mem_insertMany_list, List.contains_iff_mem, hmatched]
    by_cases hmatches : automaton.Matches grid rule change.position <;>
      by_cases hvisited : change.position ∈ visited <;>
        simp [hmatches, hvisited]
  · rw [List.pairwise_append]
    refine ⟨?_, ?_, ?_⟩
    · rw [List.pairwise_map]
      refine List.Pairwise.imp_of_mem ?_ (pairwise_matchingCells haddressable)
      intro first second hfirst hsecond hprecedes
      exact ⟨0, 0, rule, rule,
        firstMatch_zero_iff.mpr ⟨rfl, ((hmatched first).mp hfirst).1⟩,
        firstMatch_zero_iff.mpr ⟨rfl, ((hmatched second).mp hsecond).1⟩,
        Or.inr ⟨rfl, hprecedes⟩⟩
    · refine List.Pairwise.imp_of_mem ?_ hothers.ordered
      intro first second hfirst hsecond hbefore
      exact hbefore.cons (hleft first hfirst).2 (hleft second hsecond).2
    · intro first hfirst second hsecond
      obtain ⟨-, place, other, hother, -⟩ := (hothers.mem_iff second).mp hsecond
      exact ⟨0, place + 1, rule, other,
        firstMatch_zero_iff.mpr ⟨rfl, ((htaken first).mp hfirst).1.1⟩,
        firstMatch_succ_iff.mpr ⟨(hleft second hsecond).2, hother⟩,
        Or.inl (Nat.succ_pos place)⟩

/-- The sweep over resolved rules changes every cell by its first match. -/
theorem exists_sweep (h : grid.Consistent) (haddressable : grid.Addressable)
    {images : List ResolvedRule}
    (hresolves : List.Forall₂ automaton.Resolves rules images)
    (hadmits : automaton.Admits rules) (visited : PositionSet) :
    ∃ changes, automaton.sweep grid false visited images = .ok changes ∧
      automaton.Sweeps grid visited rules changes := by
  -- The grid stays as it was; what grows from rule to rule are the taken cells.
  induction hresolves generalizing visited with
  | nil => exact ⟨[], rfl, by simp [FirstMatch], .nil⟩
  | @cons rule resolved rules images hhead _ ih =>
      obtain ⟨others, hothers, hsweeps⟩ := ih hadmits.tail
        (visited.insertMany (automaton.matchingCells grid resolved visited))
      refine ⟨_, ?_, hsweeps.cons h haddressable hhead hadmits.head⟩
      simp only [sweep, hothers]
      rfl

theorem exists_changes (h : grid.Consistent) (haddressable : grid.Addressable)
    {images : List ResolvedRule} (hresolve : automaton.resolve = .ok images)
    (hadmits : automaton.Admits automaton.table.rules) :
    ∃ changes, automaton.changes grid false = .ok changes ∧
      automaton.Sweeps grid ∅ automaton.table.rules changes := by
  obtain ⟨changes, hsweep, hsweeps⟩ := exists_sweep h haddressable
    (forall₂_resolves_of_resolveFrom hresolve) hadmits ∅
  refine ⟨changes, ?_, hsweeps⟩
  rw [Automaton.changes, hresolve]
  exact hsweep

end Cellular.Automaton
