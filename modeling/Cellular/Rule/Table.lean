import Cellular.Rule.Condition

/-!
# Rules and rule tables

A rule turns cells of a source state into a target state, under a condition or
always.  A table is a list of rules in order of precedence, and its text has one
rule per line.
-/

namespace Cellular

structure Rule where
  source : String
  target : String
  /-- Absent from a rule that always applies. -/
  condition : Option (Formula Clause)
  /-- A hint on cost: the rule may apply to cells without a neighbor in any
  state of its condition. -/
  matchesAll : Bool
  /-- Where the rule's first character stands in its text. -/
  offset : Nat

namespace Rule

/-- The hint is set unless every count condition needs a neighbor. -/
def mayMatchAll (condition : Option (Formula Clause)) : Bool :=
  match condition with
  | none => true
  | some formula =>
      (countConditions formula).any CountCondition.holdsWhenAbsent

def ofParts (source target : String) (condition : Option (Formula Clause))
    (offset : Nat) : Rule :=
  ⟨source, target, condition, mayMatchAll condition, offset⟩

def counts (rule : Rule) : List (CountCondition String) :=
  match rule.condition with
  | none => []
  | some formula => countConditions formula

def firstOccurrences {α : Type} [DecidableEq α] (items : List α) : List α :=
  items.foldl (fun seen item => if item ∈ seen then seen else seen ++ [item]) []

def conditionStates (rule : Rule) : List String :=
  firstOccurrences (rule.counts.map CountCondition.state)

def directions (rule : Rule) : Neighborhood :=
  match rule.condition with
  | none => .empty
  | some formula =>
      .ofList (formula.leaves.flatMap fun clause => clause.scope.named.toList)

/-- At most one rule of a compiled table has a given pair of states. -/
def signature (rule : Rule) : String × String := (rule.source, rule.target)

def render (rule : Rule) : String :=
  match rule.condition with
  | none => rule.source ++ " / " ++ rule.target ++ " ;"
  | some formula =>
      rule.source ++ " / " ++ rule.target ++ " : " ++
        formula.render Clause.render ++ " ;"

end Rule

structure RuleTable where
  rules : List Rule

namespace RuleTable

def size (table : RuleTable) : Nat := table.rules.length

def isEmpty (table : RuleTable) : Bool := table.rules.isEmpty

def get? (table : RuleTable) (index : Nat) : Option Rule := table.rules[index]?

def render (table : RuleTable) : String :=
  String.join (table.rules.map fun rule => rule.render ++ "\n")

end RuleTable

end Cellular
