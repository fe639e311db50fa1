import Cellular.Text.Numeral
import Cellular.Word

/-!
# Commands

What the words of a command line ask for.  Words after those that a command
needs are passed over.
-/

namespace Cellular.Cli

open Text

def standardGenerations : Nat := 100

inductive Command where
  /-- Shows configurations to start from. -/
  | examples
  | check (automaton : String)
  | run (path : String) (generations : Nat)
  | evolve (automaton search : String) (output : Option String)
  deriving DecidableEq, Repr

/-- A number of generations; what is no number asks for the standard one. -/
def generationsOf (text : Option String) : Nat :=
  (text.bind fun text => unsigned? (Word.modulus - 1) text.toList).getD
    standardGenerations

def Command.ofWords? : List String → Option Command
  | "--example" :: _ => some .examples
  | "check" :: automaton :: _ => some (.check automaton)
  | "run" :: path :: rest => some (.run path (generationsOf rest.head?))
  | "evolve" :: automaton :: search :: rest =>
      some (.evolve automaton search rest.head?)
  | _ => none

end Cellular.Cli
