import Cellular.Proofs.Automaton.Scan

/-!
# Faults of a table

A rule is foreign to an automaton if it names a state that is not declared or lists
a direction outside the neighborhood.  Resolution fails exactly on the tables with a
foreign rule.  It reports the first of them, and of this rule the first undeclared
name, or the first stray direction where all names are declared
(`resolve_eq_error_iff`).
-/

namespace Cellular

/-! ## Directions in order -/

namespace Direction

/-- Row by row, and each row from west to east. -/
def Precedes (first second : Direction) : Prop :=
  first.southward < second.southward ∨
    first.southward = second.southward ∧ first.eastward < second.eastward

instance (first second : Direction) : Decidable (first.Precedes second) :=
  inferInstanceAs (Decidable (_ ∨ _))

theorem pairwise_all : all.Pairwise Precedes := by decide

theorem Precedes.asymm {first second : Direction} (h : first.Precedes second) :
    ¬second.Precedes first := by
  unfold Precedes at *
  omega

end Direction

/-! ## What a rule mentions -/

namespace Rule

variable {rule : Rule}

def names (rule : Rule) : List String :=
  rule.source :: rule.target :: rule.counts.map CountCondition.state

def Lists (rule : Rule) (direction : Direction) : Prop :=
  ∃ formula, rule.condition = some formula ∧ ∃ clause ∈ formula.leaves,
    ∃ listed, clause.scope = .directions listed ∧ direction ∈ listed

theorem contains_directions {direction : Direction} :
    rule.directions.contains direction = true ↔ rule.Lists direction := by
  unfold directions Lists
  cases rule.condition with
  | none => simp
  | some formula =>
      simp only [Neighborhood.contains_ofList, decide_eq_true_eq,
        List.mem_flatMap, Neighborhood.mem_toList, Option.some.injEq,
        exists_eq_left']
      refine exists_congr fun clause => and_congr_right fun _ => ?_
      cases clause.scope <;> simp [Scope.named]

theorem mem_names {formula : Formula Clause} {clause : Clause}
    {count : CountCondition String} (h : rule.condition = some formula)
    (hclause : clause ∈ formula.leaves)
    (hcount : count ∈ clause.condition.leaves) : count.state ∈ rule.names := by
  have hmem := mem_conditionStates h hclause hcount
  rw [conditionStates, mem_firstOccurrences] at hmem
  exact List.mem_cons_of_mem _ (List.mem_cons_of_mem _ hmem)

theorem find?_firstOccurrences {α : Type} [DecidableEq α] (p : α → Bool)
    (items : List α) : (firstOccurrences items).find? p = items.find? p := by
  have hfold : ∀ seen : List α,
      (items.foldl
          (fun seen item => if item ∈ seen then seen else seen ++ [item])
          seen).find? p = (seen ++ items).find? p := by
    induction items with
    | nil => simp
    | cons item items ih =>
        intro seen
        rw [List.foldl_cons, ih]
        split
        · rename_i hmem
          -- If the repeated item were found, it would be found before.
          rw [List.find?_append, List.find?_append, List.find?_cons]
          cases hitem : p item with
          | false => rfl
          | true =>
              have hsome : (seen.find? p).isSome = true :=
                List.find?_isSome.mpr ⟨item, hmem, hitem⟩
              obtain ⟨found, hfound⟩ := Option.isSome_iff_exists.mp hsome
              rw [hfound]
              rfl
        · rw [List.append_assoc, List.singleton_append]
  exact hfold []

end Rule

/-! ## Foreign rules -/

/-- The error tells of a foreign rule. -/
def StepError.IsFault : StepError → Prop
  | .undeclaredState .. | .undeclaredDirection .. => True
  | .grid _ | .cancelled => False

namespace Automaton

variable {automaton : Automaton} {rule : Rule} {rules : List Rule} {index : Nat}
  {error : StepError}

/-- The rule lists the direction, and the neighborhood lacks it. -/
def IsStray (automaton : Automaton) (rule : Rule) (direction : Direction) : Prop :=
  rule.Lists direction ∧ automaton.neighborhood.contains direction = false

def IsForeign (automaton : Automaton) (rule : Rule) : Prop :=
  (∃ name ∈ rule.names, automaton.states.contains name = false) ∨
    ∃ direction, automaton.IsStray rule direction

/-- What is reported of a foreign rule with a place in the table. -/
inductive Fault (automaton : Automaton) (index : Nat) (rule : Rule) :
    StepError → Prop
  | undeclared {name : String}
      (hfirst : rule.names.find? (fun name => !automaton.states.contains name) =
        some name) :
      Fault automaton index rule (.undeclaredState index rule.offset name)
  | stray {direction : Direction}
      (hdeclared : ∀ name ∈ rule.names, automaton.states.contains name = true)
      (hstray : automaton.IsStray rule direction)
      (hfirst : ∀ other, automaton.IsStray rule other →
        other = direction ∨ direction.Precedes other) :
      Fault automaton index rule
        (.undeclaredDirection index rule.offset direction)

/-- A fault of the first foreign rule among some that stand from a place on. -/
def FirstFault (automaton : Automaton) (index : Nat) (rules : List Rule)
    (error : StepError) : Prop :=
  ∃ before rule after, rules = before ++ rule :: after ∧
    (∀ other ∈ before, ¬automaton.IsForeign other) ∧
    automaton.Fault (index + before.length) rule error

theorem Fault.isForeign (h : automaton.Fault index rule error) :
    automaton.IsForeign rule := by
  cases h with
  | undeclared hfirst =>
      refine Or.inl ⟨_, List.mem_of_find?_eq_some hfirst, ?_⟩
      simpa using List.find?_some hfirst
  | stray _ hstray _ => exact Or.inr ⟨_, hstray⟩

theorem Fault.isFault (h : automaton.Fault index rule error) : error.IsFault := by
  cases h <;> exact trivial

theorem strayDirection?_eq_some {direction : Direction}
    (h : automaton.strayDirection? rule = some direction) :
    automaton.IsStray rule direction ∧
      ∀ other, automaton.IsStray rule other →
        other = direction ∨ direction.Precedes other := by
  rw [strayDirection?, Neighborhood.toList, List.find?_filter,
    List.find?_eq_some_iff_append] at h
  obtain ⟨hdirection, before, after, hall, hbefore⟩ := h
  simp only [decide_eq_true_eq, Bool.not_eq_true', Rule.contains_directions]
    at hdirection
  refine ⟨hdirection, fun other hstray => ?_⟩
  obtain ⟨hlists, hlacks⟩ := hstray
  have hordered := Direction.pairwise_all
  have hmem := other.mem_all
  rw [hall] at hordered hmem
  rcases List.mem_append.mp hmem with hearlier | hlater
  · have hnot := hbefore other hearlier
    simp [hlacks, Rule.contains_directions.mpr hlists] at hnot
  · rcases List.mem_cons.mp hlater with rfl | hafter
    · exact Or.inl rfl
    · have hrest := (List.pairwise_append.mp hordered).2.1
      exact Or.inr ((List.pairwise_cons.mp hrest).1 other hafter)

theorem strayDirection?_eq_none_iff :
    automaton.strayDirection? rule = none ↔
      ∀ direction, ¬automaton.IsStray rule direction := by
  simp [strayDirection?, List.find?_eq_none, Rule.contains_directions, IsStray]

/-! ## Resolution of a rule -/

theorem exists_resolveState (index : Nat) (rule : Rule) {name : String}
    (h : automaton.states.contains name = true) :
    ∃ state, automaton.resolveState index rule name = .ok state := by
  obtain ⟨state, hstate⟩ := Option.isSome_iff_exists.mp h
  exact ⟨state, resolveState_eq_ok.mpr hstate⟩

theorem resolveState_eq_error (index : Nat) (rule : Rule) {name : String}
    (h : automaton.states.contains name = false) :
    automaton.resolveState index rule name =
      .error (.undeclaredState index rule.offset name) := by
  have hnone : automaton.states.id? name = none := by
    simpa [StateUniverse.contains] using h
  simp only [resolveState, hnone]

theorem contains_of_not_isForeign (h : ¬automaton.IsForeign rule) :
    ∀ name ∈ rule.names, automaton.states.contains name = true := by
  intro name hname
  by_contra hlacks
  exact h (Or.inl ⟨name, hname, Bool.eq_false_iff.mpr hlacks⟩)

theorem not_isForeign
    (hdeclared : ∀ name ∈ rule.names, automaton.states.contains name = true)
    (hdirections : ∀ direction, ¬automaton.IsStray rule direction) :
    ¬automaton.IsForeign rule := by
  rintro (⟨name, hname, hlacks⟩ | ⟨direction, hstray⟩)
  · rw [hdeclared name hname] at hlacks
    cases hlacks
  · exact hdirections direction hstray

theorem Resolves.not_isForeign {resolved : ResolvedRule}
    (h : automaton.Resolves rule resolved) : ¬automaton.IsForeign rule := by
  have hcontains : ∀ {name : String} {state : StateId},
      automaton.states.id? name = some state →
        automaton.states.contains name = true :=
    fun hstate => Option.isSome_iff_exists.mpr ⟨_, hstate⟩
  refine Automaton.not_isForeign ?_ ?_
  · simp only [Rule.names, List.forall_mem_cons]
    refine ⟨hcontains h.source, hcontains h.target, fun name hname => ?_⟩
    obtain ⟨state, -, hstate⟩ := exists_mem_of_forall₂ h.conditionStates
      (Rule.mem_firstOccurrences.mpr hname)
    exact hcontains hstate
  · rintro direction ⟨hlists, hlacks⟩
    rw [h.directions direction (Rule.contains_directions.mpr hlists)] at hlacks
    cases hlacks

theorem exists_resolveStates (index : Nat)
    (h : ∀ name ∈ rule.names, automaton.states.contains name = true) :
    ∃ source target states,
      automaton.resolveState index rule rule.source = .ok source ∧
        automaton.resolveState index rule rule.target = .ok target ∧
        rule.conditionStates.mapM (automaton.resolveState index rule) = .ok states := by
  simp only [Rule.names, List.forall_mem_cons] at h
  obtain ⟨hsource, htarget, hcounts⟩ := h
  obtain ⟨source, hsource⟩ := exists_resolveState index rule hsource
  obtain ⟨target, htarget⟩ := exists_resolveState index rule htarget
  obtain ⟨states, hstates⟩ := exists_mapM_eq_ok fun name hname =>
    exists_resolveState index rule
      (hcounts name (Rule.mem_firstOccurrences.mp hname))
  exact ⟨source, target, states, hsource, htarget, hstates⟩

theorem exists_resolveClause (index : Nat) (rule : Rule) {clause : Clause}
    (h : ∀ count ∈ clause.condition.leaves,
      automaton.states.contains count.state = true) :
    ∃ image, automaton.resolveClause index rule clause = .ok image := by
  obtain ⟨condition, hcondition⟩ : ∃ condition,
      clause.condition.traverse (automaton.resolveCount index rule) =
        .ok condition := by
    refine Formula.exists_traverse_eq_ok fun count hmem => ?_
    obtain ⟨state, hstate⟩ := exists_resolveState index rule (h count hmem)
    exact ⟨_, bind_eq_ok_iff.mpr ⟨state, hstate, rfl⟩⟩
  exact ⟨_, bind_eq_ok_iff.mpr ⟨condition, hcondition, rfl⟩⟩

theorem mapM_resolveState_eq_error {names : List String} {name : String}
    (h : names.find? (fun name => !automaton.states.contains name) = some name) :
    names.mapM (automaton.resolveState index rule) =
      .error (.undeclaredState index rule.offset name) := by
  induction names with
  | nil => cases h
  | cons first names ih =>
      rw [List.find?_cons] at h
      rw [List.mapM_cons]
      cases hfirst : automaton.states.contains first with
      | false =>
          simp only [hfirst, Bool.not_false, Option.some.injEq] at h
          subst h
          rw [resolveState_eq_error index rule hfirst]
          rfl
      | true =>
          simp only [hfirst, Bool.not_true] at h
          obtain ⟨state, hstate⟩ := exists_resolveState index rule hfirst
          rw [hstate, ih h]
          rfl

theorem resolveRule_of_undeclared {name : String}
    (h : rule.names.find? (fun name => !automaton.states.contains name) =
      some name) :
    automaton.resolveRule index rule =
      .error (.undeclaredState index rule.offset name) := by
  -- The source, the target and the states of the condition are one list of names.
  have hnames : (rule.source :: rule.target :: rule.conditionStates).find?
      (fun name => !automaton.states.contains name) = some name := by
    rw [Rule.conditionStates, List.find?_cons, List.find?_cons,
      Rule.find?_firstOccurrences]
    exact h
  have hlookup : (rule.source :: rule.target :: rule.conditionStates).mapM
      (automaton.resolveState index rule) =
        .error (.undeclaredState index rule.offset name) :=
    mapM_resolveState_eq_error hnames
  simp only [List.mapM_cons, bind_eq_error_iff, pure, Except.pure, reduceCtorEq,
    and_false, exists_false, or_false] at hlookup
  rw [resolveRule]
  simp only [bind_eq_error_iff]
  rcases hlookup with hsource | ⟨source, hsource, htarget | ⟨target, htarget, hstates⟩⟩
  · exact Or.inl hsource
  · exact Or.inr ⟨source, hsource, Or.inl htarget⟩
  · exact Or.inr ⟨source, hsource, Or.inr ⟨target, htarget, Or.inl hstates⟩⟩

theorem resolveRule_of_stray {direction : Direction}
    (hdeclared : ∀ name ∈ rule.names, automaton.states.contains name = true)
    (h : automaton.strayDirection? rule = some direction) :
    automaton.resolveRule index rule =
      .error (.undeclaredDirection index rule.offset direction) := by
  obtain ⟨source, target, states, hsource, htarget, hstates⟩ :=
    exists_resolveStates index hdeclared
  simp only [resolveRule, hsource, htarget, hstates, h, bind, Except.bind]

theorem exists_resolveRule (index : Nat) (h : ¬automaton.IsForeign rule) :
    ∃ resolved, automaton.resolveRule index rule = .ok resolved := by
  have hdeclared := contains_of_not_isForeign h
  obtain ⟨source, target, states, hsource, htarget, hstates⟩ :=
    exists_resolveStates index hdeclared
  have hnone : automaton.strayDirection? rule = none :=
    strayDirection?_eq_none_iff.mpr fun direction hstray => h (Or.inr ⟨direction, hstray⟩)
  simp only [resolveRule, hsource, htarget, hstates, hnone, bind, Except.bind]
  cases hcondition : rule.condition with
  | none => exact ⟨_, rfl⟩
  | some formula =>
      -- The states of all leaves are names of the rule.
      obtain ⟨image, himage⟩ := Formula.exists_traverse_eq_ok fun clause hclause =>
        exists_resolveClause index rule fun count hcount =>
          hdeclared _ (Rule.mem_names hcondition hclause hcount)
      simp only [himage]
      exact ⟨_, rfl⟩

/-- Resolution of a rule fails just with its fault. -/
theorem resolveRule_eq_error_iff :
    automaton.resolveRule index rule = .error error ↔
      automaton.Fault index rule error := by
  constructor
  · intro herror
    cases hnames : rule.names.find? (fun name => !automaton.states.contains name) with
    | some name =>
        rw [resolveRule_of_undeclared hnames] at herror
        cases herror
        exact .undeclared hnames
    | none =>
        have hdeclared : ∀ name ∈ rule.names, automaton.states.contains name = true := by
          simpa using List.find?_eq_none.mp hnames
        cases hstray : automaton.strayDirection? rule with
        | some direction =>
            rw [resolveRule_of_stray hdeclared hstray] at herror
            cases herror
            obtain ⟨hlisted, hfirst⟩ := strayDirection?_eq_some hstray
            exact .stray hdeclared hlisted hfirst
        | none =>
            obtain ⟨resolved, hresolved⟩ := exists_resolveRule index
              (not_isForeign hdeclared (strayDirection?_eq_none_iff.mp hstray))
            rw [hresolved] at herror
            cases herror
  · intro h
    cases h with
    | undeclared hfirst => exact resolveRule_of_undeclared hfirst
    | stray hdeclared hstray hfirst =>
        refine resolveRule_of_stray hdeclared ?_
        cases hfound : automaton.strayDirection? rule with
        | none => exact absurd hstray (strayDirection?_eq_none_iff.mp hfound _)
        | some found =>
            -- Both stand before the other unless they are the same.
            obtain ⟨hlisted, hfirst'⟩ := strayDirection?_eq_some hfound
            rcases hfirst found hlisted with rfl | hprecedes
            · rfl
            · rcases hfirst' _ hstray with rfl | hprecedes'
              · rfl
              · exact absurd hprecedes hprecedes'.asymm

theorem exists_fault_iff (index : Nat) :
    (∃ error, automaton.Fault index rule error) ↔ automaton.IsForeign rule := by
  constructor
  · rintro ⟨error, h⟩
    exact h.isForeign
  · intro hforeign
    cases hresolve : automaton.resolveRule index rule with
    | error error => exact ⟨error, resolveRule_eq_error_iff.mp hresolve⟩
    | ok resolved => exact absurd hforeign (resolves_of_resolveRule hresolve).not_isForeign

/-! ## Resolution of a table -/

theorem firstFault_cons_iff :
    automaton.FirstFault index (rule :: rules) error ↔
      automaton.Fault index rule error ∨
        ¬automaton.IsForeign rule ∧ automaton.FirstFault (index + 1) rules error := by
  constructor
  · rintro ⟨before, other, after, hrules, hbefore, hfault⟩
    cases before with
    | nil =>
        cases hrules
        exact Or.inl hfault
    | cons first before =>
        cases hrules
        obtain ⟨hfirst, hbefore⟩ := List.forall_mem_cons.mp hbefore
        refine Or.inr ⟨hfirst, before, other, after, rfl, hbefore, ?_⟩
        rwa [List.length_cons, Nat.add_comm before.length, ← Nat.add_assoc] at hfault
  · rintro (hfault | ⟨hrule, before, other, after, rfl, hbefore, hfault⟩)
    · exact ⟨[], rule, rules, rfl, nofun, hfault⟩
    · refine ⟨rule :: before, other, after, rfl, List.forall_mem_cons.mpr ⟨hrule, hbefore⟩, ?_⟩
      rwa [List.length_cons, Nat.add_comm before.length, ← Nat.add_assoc]

theorem FirstFault.isFault (h : automaton.FirstFault index rules error) : error.IsFault := by
  obtain ⟨_, _, _, -, -, hfault⟩ := h
  exact hfault.isFault

theorem exists_firstFault_iff :
    (∃ error, automaton.FirstFault index rules error) ↔
      ∃ rule ∈ rules, automaton.IsForeign rule := by
  induction rules generalizing index with
  | nil => simp [FirstFault]
  | cons rule rules ih =>
      simp only [firstFault_cons_iff, exists_or, exists_and_left, exists_fault_iff, ih,
        List.exists_mem_cons_iff]
      tauto

theorem resolveFrom_eq_error_iff :
    automaton.resolveFrom index rules = .error error ↔
      automaton.FirstFault index rules error := by
  induction rules generalizing index with
  | nil => simp [resolveFrom, FirstFault]
  | cons rule rules ih =>
      rw [resolveFrom, firstFault_cons_iff, bind_eq_error_iff, resolveRule_eq_error_iff]
      refine or_congr_right ?_
      simp only [bind_eq_error_iff, ih, reduceCtorEq, and_false, exists_false, or_false]
      constructor
      · rintro ⟨resolved, hresolved, hlater⟩
        exact ⟨(resolves_of_resolveRule hresolved).not_isForeign, hlater⟩
      · rintro ⟨hrule, hlater⟩
        obtain ⟨resolved, hresolved⟩ := exists_resolveRule index hrule
        exact ⟨resolved, hresolved, hlater⟩

/-- Resolution fails just with a fault of the first foreign rule. -/
theorem resolve_eq_error_iff :
    automaton.resolve = .error error ↔
      automaton.FirstFault 0 automaton.table.rules error :=
  resolveFrom_eq_error_iff

theorem not_isForeign_of_resolve {images : List ResolvedRule}
    (h : automaton.resolve = .ok images) :
    ∀ rule ∈ automaton.table.rules, ¬automaton.IsForeign rule := by
  intro rule hmem
  obtain ⟨resolved, -, hresolves⟩ :=
    exists_mem_of_forall₂ (forall₂_resolves_of_resolveFrom h) hmem
  exact hresolves.not_isForeign

end Automaton

end Cellular
