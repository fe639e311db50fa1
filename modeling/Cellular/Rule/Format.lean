import Cellular.Json.Printer
import Cellular.Rule.Table
import Cellular.Word

/-!
# Rule tables as data

Rules as JSON, with their conditions spelled out as trees.  A table is read as it
stands: its trees may be empty, its states undeclared, and its hints may differ
from those computed from the conditions.
-/

namespace Cellular

namespace Formula

variable {α : Type}

mutual

/-- A formula is an object whose only member tells the kind of its root. -/
def toJson (leafJson : α → Json) : Formula α → Json
  | .leaf value => .ofMembers [("Leaf", leafJson value)]
  | .all terms => .ofMembers [("And", .array (toJsonList leafJson terms))]
  | .any terms => .ofMembers [("Or", .array (toJsonList leafJson terms))]

def toJsonList (leafJson : α → Json) : List (Formula α) → List Json
  | [] => []
  | term :: terms => toJson leafJson term :: toJsonList leafJson terms

end

mutual

def ofJson? (leaf? : Json → Option α) : Json → Option (Formula α)
  | .object [(some "Leaf", value)] => (leaf? value).map .leaf
  | .object [(some "And", .array terms)] => (ofJsonList? leaf? terms).map .all
  | .object [(some "Or", .array terms)] => (ofJsonList? leaf? terms).map .any
  | _ => none

def ofJsonList? (leaf? : Json → Option α) : List Json → Option (List (Formula α))
  | [] => some []
  | value :: values => do
      let term ← ofJson? leaf? value
      let terms ← ofJsonList? leaf? values
      some (term :: terms)

end

end Formula

namespace Comparator

def name : Comparator → String
  | .equal => "Equal"
  | .less => "Less"
  | .more => "More"

def ofName? (name : String) : Option Comparator :=
  [equal, less, more].find? fun comparator => comparator.name = name

end Comparator

namespace CountCondition

def toJson (condition : CountCondition String) : Json :=
  .ofMembers [
    ("count", .ofNat condition.count),
    ("comparator", .ofString condition.comparator.name),
    ("state", .ofString condition.state)]

def ofJson? (value : Json) : Option (CountCondition String) := do
  let record ← value.record? ["count", "comparator", "state"]
  some {
    count := ← record.required "count" Json.word?
    comparator :=
      ← record.required "comparator" (Json.variant? Comparator.ofName?)
    state := ← record.required "state" Json.text? }

end CountCondition

namespace Scope

def toJson : Scope → Json
  | .all => .ofString "All"
  | .directions listed =>
      .ofMembers [("Directions",
        .array (listed.map fun direction => .ofString direction.name))]

def ofJson? : Json → Option Scope
  | .object [(some "Directions", listed)] =>
      (listed.list? (Json.variant? Direction.ofName?)).map .directions
  | value => value.variant? fun name => if name = "All" then some .all else none

end Scope

namespace Clause

def toJson (clause : Clause) : Json :=
  .ofMembers [
    ("scope", clause.scope.toJson),
    ("condition", clause.condition.toJson CountCondition.toJson)]

def ofJson? (value : Json) : Option Clause := do
  let record ← value.record? ["scope", "condition"]
  some {
    scope := ← record.required "scope" Scope.ofJson?
    condition :=
      ← record.required "condition" (Formula.ofJson? CountCondition.ofJson?) }

end Clause

namespace Rule

def toJson (rule : Rule) : Json :=
  .ofMembers [
    ("source", .ofString rule.source),
    ("target", .ofString rule.target),
    ("condition",
      (rule.condition.map fun formula => formula.toJson Clause.toJson).getD .null),
    ("matches_all", .bool rule.matchesAll),
    ("offset", .ofNat rule.offset)]

def ofJson? (value : Json) : Option Rule := do
  let record ←
    value.record? ["source", "target", "condition", "matches_all", "offset"]
  let condition ← record.optional "condition" none
    (Json.orNull? (Formula.ofJson? Clause.ofJson?))
  some {
    source := ← record.required "source" Json.text?
    target := ← record.required "target" Json.text?
    condition := condition
    matchesAll := ← record.required "matches_all" Json.bool?
    offset := ← record.required "offset" Json.word? }

end Rule

namespace RuleTable

def toJson (table : RuleTable) : Json := .array (table.rules.map Rule.toJson)

def ofJson? (value : Json) : Option RuleTable :=
  (value.list? Rule.ofJson?).map RuleTable.mk

end RuleTable

end Cellular
