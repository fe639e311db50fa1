/-!
# And/or formulas

A formula is a tree over leaves.  A rule's condition is a formula over
neighborhood clauses, and a clause's condition is a formula over count
conditions, so both levels share the definitions of this file: the plain
Boolean reading `holds`, the short-circuiting `evaluate` that shows which leaves
are tested, the leaves in order, the traversal that stops at the first failure,
and the tree that a list of groups stands for.
-/

namespace Cellular

inductive Formula (α : Type) where
  | leaf (value : α)
  | all (terms : List (Formula α))
  | any (terms : List (Formula α))

namespace Formula

variable {α β ε σ : Type}

@[induction_eliminator] theorem induction {motive : Formula α → Prop}
    (leaf : ∀ value, motive (.leaf value))
    (all : ∀ terms, (∀ term ∈ terms, motive term) → motive (.all terms))
    (any : ∀ terms, (∀ term ∈ terms, motive term) → motive (.any terms))
    (formula : Formula α) : motive formula :=
  Formula.rec (motive_2 := fun terms => ∀ term ∈ terms, motive term)
    leaf all any (by simp)
    (fun _ _ hhead htail term hmem => by
      rcases List.mem_cons.mp hmem with rfl | h
      · exact hhead
      · exact htail term h)
    formula

/-! ## The Boolean reading -/

mutual

def holds (test : α → Bool) : Formula α → Bool
  | .leaf value => test value
  | .all terms => holdsAll test terms
  | .any terms => holdsAny test terms

def holdsAll (test : α → Bool) : List (Formula α) → Bool
  | [] => true
  | term :: terms => holds test term && holdsAll test terms

def holdsAny (test : α → Bool) : List (Formula α) → Bool
  | [] => false
  | term :: terms => holds test term || holdsAny test terms

end

theorem holdsAll_eq (test : α → Bool) (terms : List (Formula α)) :
    holdsAll test terms = terms.all (holds test) := by
  induction terms with
  | nil => rfl
  | cons term terms ih => simp [holdsAll, ih]

theorem holdsAny_eq (test : α → Bool) (terms : List (Formula α)) :
    holdsAny test terms = terms.any (holds test) := by
  induction terms with
  | nil => rfl
  | cons term terms ih => simp [holdsAny, ih]

@[simp] theorem holds_leaf (test : α → Bool) (value : α) :
    (Formula.leaf value).holds test = test value := rfl

@[simp] theorem holds_all (test : α → Bool) (terms : List (Formula α)) :
    (Formula.all terms).holds test = terms.all (holds test) :=
  holdsAll_eq test terms

@[simp] theorem holds_any (test : α → Bool) (terms : List (Formula α)) :
    (Formula.any terms).holds test = terms.any (holds test) :=
  holdsAny_eq test terms

/-! ## Leaves and their evaluation -/

mutual

def leaves : Formula α → List α
  | .leaf value => [value]
  | .all terms | .any terms => leavesOf terms

def leavesOf : List (Formula α) → List α
  | [] => []
  | term :: terms => leaves term ++ leavesOf terms

end

theorem leavesOf_eq (terms : List (Formula α)) :
    leavesOf terms = terms.flatMap leaves := by
  induction terms with
  | nil => rfl
  | cons term terms ih => simp [leavesOf, ih]

@[simp] theorem leaves_leaf (value : α) :
    (Formula.leaf value).leaves = [value] := rfl

@[simp] theorem leaves_all (terms : List (Formula α)) :
    (Formula.all terms).leaves = terms.flatMap leaves := leavesOf_eq terms

@[simp] theorem leaves_any (terms : List (Formula α)) :
    (Formula.any terms).leaves = terms.flatMap leaves := leavesOf_eq terms

mutual

/-- Evaluation with tests that have effects.  A conjunction stops at its first
false term, a disjunction at its first true one. -/
def evaluate {m : Type → Type} [Monad m] (test : α → m Bool) :
    Formula α → m Bool
  | .leaf value => test value
  | .all terms => evaluateAll test terms
  | .any terms => evaluateAny test terms

def evaluateAll {m : Type → Type} [Monad m] (test : α → m Bool) :
    List (Formula α) → m Bool
  | [] => pure true
  | term :: terms => do
      let value ← evaluate test term
      if value then evaluateAll test terms else pure false

def evaluateAny {m : Type → Type} [Monad m] (test : α → m Bool) :
    List (Formula α) → m Bool
  | [] => pure false
  | term :: terms => do
      let value ← evaluate test term
      if value then pure true else evaluateAny test terms

end

def trace (test : α → Bool) (formula : Formula α) : Bool × List α :=
  let recorded : α → StateM (List α) Bool := fun value => do
    modify (· ++ [value])
    pure (test value)
  (formula.evaluate recorded).run []

/-! ## Traversal -/

mutual

def traverse {m : Type → Type} [Monad m] (f : α → m β) :
    Formula α → m (Formula β)
  | .leaf value => do
      let image ← f value
      pure (.leaf image)
  | .all terms => do
      let images ← traverseList f terms
      pure (.all images)
  | .any terms => do
      let images ← traverseList f terms
      pure (.any images)

def traverseList {m : Type → Type} [Monad m] (f : α → m β) :
    List (Formula α) → m (List (Formula β))
  | [] => pure []
  | term :: terms => do
      let image ← traverse f term
      let images ← traverseList f terms
      pure (image :: images)

end

/-- Maps every leaf with a function that keeps a state and may fail; the first
failure ends the traversal. -/
def tryMap (f : α → ExceptT ε (StateM σ) β) (formula : Formula α) :
    ExceptT ε (StateM σ) (Formula β) :=
  formula.traverse f

/-! ## Formulas from groups -/

def ofGroup : List α → Formula α
  | [value] => .leaf value
  | values => .all (values.map .leaf)

/-- The disjunction of the groups' conjunctions.  Empty groups are dropped, a
single group stands alone, and no leaves at all give no formula. -/
def ofGroups (groups : List (List α)) : Option (Formula α) :=
  match (groups.filter fun group => !group.isEmpty).map ofGroup with
  | [] => none
  | [alternative] => some alternative
  | alternatives => some (.any alternatives)

/-! ## Rendering -/

mutual

def render (leafText : α → String) : Formula α → String
  | .leaf value => leafText value
  | .all terms => " & ".intercalate (renderList leafText terms)
  | .any terms => " | ".intercalate (renderList leafText terms)

def renderList (leafText : α → String) : List (Formula α) → List String
  | [] => []
  | term :: terms => render leafText term :: renderList leafText terms

end

theorem renderList_eq (leafText : α → String) (terms : List (Formula α)) :
    renderList leafText terms = terms.map (render leafText) := by
  induction terms with
  | nil => rfl
  | cons term terms ih => simp [renderList, ih]

end Formula

end Cellular
