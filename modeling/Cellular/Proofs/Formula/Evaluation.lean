import Cellular.Proofs.Rule.Grammar

/-!
# Evaluating formulas

Evaluation stops where the value is settled, and still gives the value of the
plain Boolean reading (`evaluate_pure`).  A conjunction tests its terms up to the
first false one and a disjunction up to the first true one (`trace_all`,
`trace_any`).  A formula made of groups therefore tests the groups up to the first
that is true throughout, and each of them up to its first false leaf
(`ofGroups_evaluates`).
-/

namespace Cellular.Formula

variable {α : Type} {formula : Formula α} {terms : List (Formula α)}
  {test : α → Bool}

/-! ## Values -/

theorem holds_iff_satisfied :
    formula.holds test = true ↔ formula.Satisfied fun value => test value = true := by
  induction formula with
  | leaf value => simp
  | all terms ih => simp +contextual [ih]
  | any terms ih =>
      simp only [holds_any, List.any_eq_true, satisfied_any]
      exact exists_congr fun term => and_congr_right fun hmem => ih term hmem

section

variable {m : Type → Type} [Monad m] [LawfulMonad m]

theorem evaluateAll_pure
    (h : ∀ term ∈ terms,
      term.evaluate (fun value => (pure (test value) : m Bool)) =
        pure (term.holds test)) :
    evaluateAll (fun value => (pure (test value) : m Bool)) terms =
      pure (terms.all (holds test)) := by
  induction terms with
  | nil => rfl
  | cons term terms ih =>
      simp only [List.forall_mem_cons] at h
      cases hterm : term.holds test <;> simp [evaluateAll, h.1, hterm, ih h.2]

theorem evaluateAny_pure
    (h : ∀ term ∈ terms,
      term.evaluate (fun value => (pure (test value) : m Bool)) =
        pure (term.holds test)) :
    evaluateAny (fun value => (pure (test value) : m Bool)) terms =
      pure (terms.any (holds test)) := by
  induction terms with
  | nil => rfl
  | cons term terms ih =>
      simp only [List.forall_mem_cons] at h
      cases hterm : term.holds test <;> simp [evaluateAny, h.1, hterm, ih h.2]

theorem evaluate_pure (formula : Formula α) (test : α → Bool) :
    formula.evaluate (fun value => (pure (test value) : m Bool)) =
      pure (formula.holds test) := by
  induction formula with
  | leaf value => rfl
  | all terms ih =>
      rw [holds_all, evaluate]
      exact evaluateAll_pure ih
  | any terms ih =>
      rw [holds_any, evaluate]
      exact evaluateAny_pure ih

end

/-! ## Tested leaves -/

/-- The items up to and including the first that is wanted. -/
def upTo {β : Type} (wanted : β → Bool) (items : List β) : List β :=
  items.takeWhile (fun item => !wanted item) ++ (items.find? wanted).toList

theorem upTo_cons {β : Type} (wanted : β → Bool) (item : β) (items : List β) :
    upTo wanted (item :: items) =
      if wanted item then [item] else item :: upTo wanted items := by
  cases h : wanted item <;> simp [upTo, h]

def recorded (test : α → Bool) (value : α) : StateM (List α) Bool := do
  modify (· ++ [value])
  pure (test value)

/-- The leaves that are tested, in order. -/
def tested (test : α → Bool) (formula : Formula α) : List α :=
  (formula.trace test).2

/-- The evaluation comes to the value of the formula and writes its tested leaves
behind what is there already. -/
def Tells (test : α → Bool) (formula : Formula α) : Prop :=
  ∀ seen, (formula.evaluate (recorded test)).run seen =
    (formula.holds test, seen ++ formula.tested test)

theorem pure_id_eq (outcome : Bool × List α) :
    (pure outcome : Id (Bool × List α)) = outcome := rfl

/-- What comes after a formula goes on from its value and its tested leaves. -/
theorem Tells.run_bind {formula : Formula α} (h : formula.Tells test)
    (next : Bool → StateM (List α) Bool) (seen : List α) :
    (formula.evaluate (recorded test) >>= next).run seen =
      (next (formula.holds test)).run (seen ++ formula.tested test) := by
  rw [StateT.run_bind, h seen]
  rfl

theorem run_evaluateAll (h : ∀ term ∈ terms, term.Tells test) (seen : List α) :
    (evaluateAll (recorded test) terms).run seen =
      (terms.all (holds test),
        seen ++ (upTo (fun term => !term.holds test) terms).flatMap (tested test)) := by
  induction terms generalizing seen with
  | nil => simp [evaluateAll, upTo, pure_id_eq]
  | cons term terms ih =>
      rw [List.forall_mem_cons] at h
      rw [evaluateAll, h.1.run_bind, upTo_cons]
      cases hterm : term.holds test with
      | false => simp [hterm, pure_id_eq]
      | true => simp [hterm, ih h.2]

theorem run_evaluateAny (h : ∀ term ∈ terms, term.Tells test) (seen : List α) :
    (evaluateAny (recorded test) terms).run seen =
      (terms.any (holds test),
        seen ++ (upTo (holds test) terms).flatMap (tested test)) := by
  induction terms generalizing seen with
  | nil => simp [evaluateAny, upTo, pure_id_eq]
  | cons term terms ih =>
      rw [List.forall_mem_cons] at h
      rw [evaluateAny, h.1.run_bind, upTo_cons]
      cases hterm : term.holds test with
      | false => simp [hterm, ih h.2]
      | true => simp [hterm, pure_id_eq]

theorem tells (test : α → Bool) (formula : Formula α) : formula.Tells test := by
  induction formula with
  | leaf value => exact fun seen => rfl
  | all terms ih =>
      have htested : (Formula.all terms).tested test =
          (upTo (fun term => !term.holds test) terms).flatMap (tested test) :=
        congrArg Prod.snd (run_evaluateAll ih [])
      intro seen
      rw [htested, holds_all]
      exact run_evaluateAll ih seen
  | any terms ih =>
      have htested : (Formula.any terms).tested test =
          (upTo (holds test) terms).flatMap (tested test) :=
        congrArg Prod.snd (run_evaluateAny ih [])
      intro seen
      rw [htested, holds_any]
      exact run_evaluateAny ih seen

theorem trace_eq (test : α → Bool) (formula : Formula α) :
    formula.trace test = (formula.holds test, formula.tested test) :=
  formula.tells test []

@[simp] theorem tested_leaf (test : α → Bool) (value : α) :
    (Formula.leaf value).tested test = [value] := rfl

theorem tested_all (test : α → Bool) (terms : List (Formula α)) :
    (Formula.all terms).tested test =
      (upTo (fun term => !term.holds test) terms).flatMap (tested test) :=
  congrArg Prod.snd (run_evaluateAll (fun term _ => term.tells test) [])

theorem tested_any (test : α → Bool) (terms : List (Formula α)) :
    (Formula.any terms).tested test =
      (upTo (holds test) terms).flatMap (tested test) :=
  congrArg Prod.snd (run_evaluateAny (fun term _ => term.tells test) [])

/-! ## Formulas made of groups -/

theorem upTo_map {β γ : Type} (wanted : γ → Bool) (f : β → γ) (items : List β) :
    upTo wanted (items.map f) = (upTo (fun item => wanted (f item)) items).map f := by
  induction items with
  | nil => rfl
  | cons item items ih =>
      rw [List.map_cons, upTo_cons, upTo_cons, ih]
      split <;> simp

theorem upTo_singleton {β : Type} (wanted : β → Bool) (item : β) :
    upTo wanted [item] = [item] := by
  rw [upTo_cons]
  simp [upTo]

theorem trace_collapse_all (test : α → Bool) (formulas : List (Formula α)) :
    (Grammar.collapse .all formulas).trace test = (Formula.all formulas).trace test := by
  unfold Grammar.collapse
  split
  · simp [trace_eq, tested_all, upTo_singleton]
  · rfl

theorem trace_collapse_any (test : α → Bool) (formulas : List (Formula α)) :
    (Grammar.collapse .any formulas).trace test = (Formula.any formulas).trace test := by
  unfold Grammar.collapse
  split
  · simp [trace_eq, tested_any, upTo_singleton]
  · rfl

theorem flatMap_tested_leaf (test : α → Bool) (values : List α) :
    (values.map Formula.leaf).flatMap (tested test) = values := by
  simp [List.flatMap_map]

theorem trace_group (test : α → Bool) (group : List α) :
    (Grammar.collapse .all (group.map Formula.leaf)).trace test =
      (group.all test, upTo (fun value => !test value) group) := by
  rw [trace_collapse_all, trace_eq, tested_all, upTo_map, flatMap_tested_leaf]
  simp [Function.comp_def]

theorem trace_treeOf (test : α → Bool) (groups : List (List α)) :
    (Grammar.treeOf groups).trace test =
      (groups.any fun group => group.all test,
        (upTo (fun group => group.all test) groups).flatMap
          (upTo fun value => !test value)) := by
  have hholds (group : List α) :
      (Grammar.collapse .all (group.map Formula.leaf)).holds test = group.all test :=
    congrArg Prod.fst ((trace_eq _ _).symm.trans (trace_group test group))
  have htested (group : List α) :
      (Grammar.collapse .all (group.map Formula.leaf)).tested test =
        upTo (fun value => !test value) group :=
    congrArg Prod.snd (trace_group test group)
  rw [Grammar.treeOf, trace_collapse_any, trace_eq, tested_any, upTo_map]
  simp [List.flatMap_map, Function.comp_def, hholds, htested]

def filled (groups : List (List α)) : List (List α) :=
  groups.filter fun group => !group.isEmpty

theorem mem_filled {groups : List (List α)} {group : List α} :
    group ∈ filled groups ↔ group ∈ groups ∧ group ≠ [] := by
  simp [filled]

theorem filled_eq_nil_iff {groups : List (List α)} :
    filled groups = [] ↔ ∀ group ∈ groups, group = [] := by
  simp [filled]

theorem flatten_filled (groups : List (List α)) :
    (filled groups).flatten = groups.flatten := by
  simp [filled, List.flatten_filter_not_isEmpty]

theorem ofGroups_filled (groups : List (List α)) :
    ofGroups (filled groups) = ofGroups groups := by
  simp [ofGroups, filled]

theorem ofGroups_eq_none_iff {groups : List (List α)} :
    ofGroups groups = none ↔ ∀ group ∈ groups, group = [] := by
  rw [← filled_eq_nil_iff, ← ofGroups_filled]
  constructor
  · intro h
    by_contra hsome
    rw [Grammar.ofGroups_eq_treeOf hsome fun group hmem => (mem_filled.mp hmem).2] at h
    simp at h
  · intro h
    simp [h, ofGroups]

theorem eq_treeOf_filled {groups : List (List α)}
    (h : ofGroups groups = some formula) :
    filled groups ≠ [] ∧ formula = Grammar.treeOf (filled groups) := by
  have hsome : filled groups ≠ [] := by
    intro hnil
    rw [filled_eq_nil_iff, ← ofGroups_eq_none_iff] at hnil
    simp [hnil] at h
  rw [← ofGroups_filled, Grammar.ofGroups_eq_treeOf hsome
    fun group hmem => (mem_filled.mp hmem).2] at h
  exact ⟨hsome, (Option.some.inj h).symm⟩

/-- Building and evaluating.  The built tree has the groups' leaves and no empty
node.  It is true where some group with a leaf is true throughout, and tests the
groups up to the first such one, each of them up to its first false leaf.  Every
tree, built so or not, evaluates to its plain Boolean reading. -/
theorem ofGroups_evaluates (groups : List (List α)) :
    (ofGroups groups = none ↔ ∀ group ∈ groups, group = []) ∧
      (∀ formula, ofGroups groups = some formula →
        formula.leaves = groups.flatten ∧ formula.NoEmptyNode ∧
        ∀ test : α → Bool,
          ((formula.trace test).1 = true ↔
            ∃ group ∈ groups, group ≠ [] ∧ ∀ value ∈ group, test value = true) ∧
          (formula.trace test).2 =
            (upTo (fun group => group.all test) (filled groups)).flatMap
              (upTo fun value => !test value)) ∧
      ∀ (formula : Formula α) (test : α → Bool),
        (formula.trace test).1 = formula.holds test ∧
        (∀ (m : Type → Type) [Monad m] [LawfulMonad m],
          formula.evaluate (fun value => (pure (test value) : m Bool)) =
            pure (formula.holds test)) ∧
        (formula.holds test = true ↔
          formula.Satisfied fun value => test value = true) := by
  refine ⟨ofGroups_eq_none_iff, ?built, fun formula test =>
    ⟨by rw [trace_eq], fun m _ _ => evaluate_pure formula test, holds_iff_satisfied⟩⟩
  intro formula h
  obtain ⟨hsome, rfl⟩ := eq_treeOf_filled h
  have hfilled : ∀ group ∈ filled groups, group ≠ [] :=
    fun group hmem => (mem_filled.mp hmem).2
  refine ⟨?leaves, Grammar.noEmptyNode_treeOf hsome hfilled, fun test => ⟨?value, ?tested⟩⟩
  case leaves => rw [Grammar.leaves_treeOf, flatten_filled]
  case value => simp [trace_treeOf, mem_filled, and_assoc]
  case tested => rw [trace_treeOf]

/-- The third leaf and the last group are not tested. -/
theorem ofGroups_evaluates_bits :
    ∃ formula, ofGroups [[true, false, true], [], [true], [false]] = some formula ∧
      formula.leaves = [true, false, true, true, false] ∧
      (formula.trace id).1 = true ∧ (formula.trace id).2 = [true, false, true] := by
  obtain ⟨-, hbuilt, -⟩ :=
    ofGroups_evaluates [[true, false, true], [], [true], [false]]
  obtain ⟨hleaves, -, htrace⟩ := hbuilt _ rfl
  obtain ⟨hvalue, htested⟩ := htrace id
  exact ⟨_, rfl, hleaves, hvalue.mpr ⟨[true], by simp⟩, htested.trans (by decide)⟩

end Cellular.Formula
