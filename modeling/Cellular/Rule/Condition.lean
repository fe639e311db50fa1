import Cellular.Formula
import Cellular.Neighborhood

/-!
# Conditions of a rule

A count condition compares the number of neighbors in a state with a bound.  A
clause applies a formula of count conditions to the neighbors in its scope.
-/

namespace Cellular

inductive Comparator where
  | equal
  | less
  | more
  deriving DecidableEq, Repr

namespace Comparator

def test (comparator : Comparator) (occurrences count : Nat) : Bool :=
  match comparator with
  | .equal => occurrences = count
  | .less => occurrences < count
  | .more => count < occurrences

def sign : Comparator → String
  | .equal => ""
  | .less => "-"
  | .more => "+"

end Comparator

structure CountCondition (σ : Type) where
  count : Nat
  comparator : Comparator
  state : σ
  deriving DecidableEq, Repr

namespace CountCondition

variable {σ : Type}

def test (condition : CountCondition σ) (occurrences : Nat) : Bool :=
  condition.comparator.test occurrences condition.count

/-- Whether the condition is true of a cell without a neighbor in its state. -/
def holdsWhenAbsent (condition : CountCondition σ) : Bool :=
  match condition.comparator with
  | .less => true
  | .equal => condition.count = 0
  | .more => false

theorem holdsWhenAbsent_of_test_zero {condition : CountCondition σ}
    (h : condition.test 0 = true) : condition.holdsWhenAbsent = true := by
  cases condition with
  | mk count comparator state =>
      cases comparator with
      | equal =>
          simp only [test, Comparator.test, decide_eq_true_eq] at h
          simp [holdsWhenAbsent, ← h]
      | less => rfl
      | more => simp [test, Comparator.test] at h

def render (stateText : σ → String) (condition : CountCondition σ) : String :=
  condition.comparator.sign ++ toString condition.count ++ "#" ++
    stateText condition.state

end CountCondition

inductive Scope where
  | all
  | directions (listed : List Direction)
  deriving DecidableEq, Repr

namespace Scope

def named : Scope → Neighborhood
  | .all => .empty
  | .directions listed => .ofList listed

def render : Scope → String
  | .all => "ALL"
  | .directions [direction] => direction.name
  | .directions listed =>
      "[" ++ ",".intercalate (listed.map Direction.name) ++ "]"

end Scope

structure Clause where
  scope : Scope
  condition : Formula (CountCondition String)

def Clause.render (clause : Clause) : String :=
  "( " ++ clause.scope.render ++ " @ = " ++
    clause.condition.render (CountCondition.render id) ++ " )"

def countConditions (condition : Formula Clause) : List (CountCondition String) :=
  condition.leaves.flatMap fun clause => clause.condition.leaves

end Cellular
