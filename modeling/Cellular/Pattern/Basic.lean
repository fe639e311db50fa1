import Cellular.Config.Automaton
import Cellular.Grid.Basic
import Cellular.Search.Chromosome

/-!
# Patterns

A pattern is a grid together with the automaton that it was found for, ready to
be kept in a file: states, rule text, neighborhood, and a summary that is of no
consequence.
-/

namespace Cellular

structure Pattern where
  settings : String
  states : StateUniverse
  rules : String
  neighborhood : Neighborhood
  grid : Grid
  deriving DecidableEq

namespace Pattern

def ofGrid (states : StateUniverse) (table : RuleTable)
    (neighborhood : Neighborhood) (grid : Grid) : Pattern :=
  ⟨"", states, table.render, neighborhood, grid⟩

def ofSnapshot? (states : StateUniverse) (table : RuleTable)
    (neighborhood : Neighborhood) (snapshot : ChromosomeSnapshot) :
    Option Pattern := do
  let grid ← Grid.ofPattern? snapshot.width snapshot.height snapshot.pattern
  some (ofGrid states table neighborhood grid)

def withSettings (pattern : Pattern) (settings : String) : Pattern :=
  { pattern with settings := settings }

def config (pattern : Pattern) : AutomatonConfig :=
  ⟨pattern.states, pattern.neighborhood, pattern.grid.width,
    pattern.grid.height, pattern.rules, .standard⟩

def compile (pattern : Pattern) : Compilation := pattern.config.compile

def cells? (pattern : Pattern) : Option (List StateId) := pattern.grid.toPattern?

end Pattern

end Cellular
