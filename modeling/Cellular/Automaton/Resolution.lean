import Cellular.Grid.Basic
import Cellular.Rule.Table
import Cellular.State.Universe

/-!
# Automata and the resolution of their rules

An automaton binds a rule table to a state universe and a neighborhood.  Before a
generation is computed every name of every rule is looked up.  Of the faults in
the table the first rule's is reported: an undeclared state in preference to a
direction outside the neighborhood.
-/

namespace Cellular

inductive StepError where
  | undeclaredState (rule offset : Nat) (state : String)
  | undeclaredDirection (rule offset : Nat) (direction : Direction)
  | grid (error : OutOfBounds)
  | cancelled
  deriving DecidableEq, Repr

def StepError.message : StepError → String
  | .undeclaredState rule offset state =>
      "Rule " ++ toString (rule + 1) ++ " (offset " ++ toString offset ++
        ") references undeclared state '" ++ state ++ "'"
  | .undeclaredDirection rule offset direction =>
      "Rule " ++ toString (rule + 1) ++ " (offset " ++ toString offset ++
        ") references direction " ++ direction.name ++
        " outside the neighborhood"
  | .grid error => error.message
  | .cancelled => "Step cancelled"

structure ResolvedClause where
  directions : Neighborhood
  condition : Formula (CountCondition StateId)

structure ResolvedRule where
  source : StateId
  target : StateId
  condition : Option (Formula ResolvedClause)
  matchesAll : Bool
  conditionStates : List StateId

structure Automaton where
  states : StateUniverse
  neighborhood : Neighborhood
  table : RuleTable
  /-- Whether every rule is tried on all cells of its source state, also where
  looking around the condition's states would do. -/
  fullScan : Bool

namespace Automaton

def ofTable (states : StateUniverse) (neighborhood : Neighborhood)
    (table : RuleTable) : Automaton :=
  ⟨states, neighborhood, table, false⟩

def withFullScan (automaton : Automaton) : Automaton :=
  { automaton with fullScan := true }

def resolveState (automaton : Automaton) (index : Nat) (rule : Rule)
    (name : String) : Except StepError StateId :=
  match automaton.states.id? name with
  | some state => .ok state
  | none => .error (.undeclaredState index rule.offset name)

def resolveCount (automaton : Automaton) (index : Nat) (rule : Rule)
    (condition : CountCondition String) :
    Except StepError (CountCondition StateId) := do
  let state ← automaton.resolveState index rule condition.state
  .ok ⟨condition.count, condition.comparator, state⟩

def scopeDirections (automaton : Automaton) : Scope → Neighborhood
  | .all => automaton.neighborhood
  | .directions listed =>
      .ofList (listed.filter automaton.neighborhood.contains)

def resolveClause (automaton : Automaton) (index : Nat) (rule : Rule)
    (clause : Clause) : Except StepError ResolvedClause := do
  let condition ← clause.condition.traverse (automaton.resolveCount index rule)
  .ok ⟨automaton.scopeDirections clause.scope, condition⟩

def strayDirection? (automaton : Automaton) (rule : Rule) : Option Direction :=
  rule.directions.toList.find? fun direction =>
    !automaton.neighborhood.contains direction

def resolveRule (automaton : Automaton) (index : Nat) (rule : Rule) :
    Except StepError ResolvedRule := do
  let source ← automaton.resolveState index rule rule.source
  let target ← automaton.resolveState index rule rule.target
  let conditionStates ←
    rule.conditionStates.mapM (automaton.resolveState index rule)
  match automaton.strayDirection? rule with
  | some direction =>
      .error (.undeclaredDirection index rule.offset direction)
  | none =>
      let condition ← match rule.condition with
        | none => .ok none
        | some formula =>
            (formula.traverse (automaton.resolveClause index rule)).map some
      .ok ⟨source, target, condition, rule.matchesAll, conditionStates⟩

def resolveFrom (automaton : Automaton) (index : Nat) :
    List Rule → Except StepError (List ResolvedRule)
  | [] => .ok []
  | rule :: rules => do
      let resolved ← automaton.resolveRule index rule
      let others ← automaton.resolveFrom (index + 1) rules
      .ok (resolved :: others)

def resolve (automaton : Automaton) : Except StepError (List ResolvedRule) :=
  automaton.resolveFrom 0 automaton.table.rules

end Automaton

end Cellular
