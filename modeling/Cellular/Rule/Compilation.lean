import Cellular.Rule.Statement

/-!
# Compiling rule text

Compilation never fails outright.  Every statement is read on its own: it gives
a rule, or a diagnostic, or nothing when an illegal character in it has already
been reported.  A second rule for the same pair of states is a diagnostic.  The
diagnostics come out in the order of their places in the text.
-/

namespace Cellular

structure Compilation where
  table : RuleTable
  diagnostics : List Diagnostic

namespace Compilation

def isOk (compilation : Compilation) : Bool := compilation.diagnostics.isEmpty

end Compilation

inductive Outcome where
  | rule (rule : Rule) (targetOffset : Nat)
  | fault (diagnostic : Diagnostic)
  /-- The statement fails, and an illegal character in it is to blame. -/
  | tainted

namespace Compiler

def readStatement (compiler : Compiler) (ending : Nat)
    (statement : List Token) : Outcome :=
  match compiler.rule ⟨statement, ending, 0⟩ with
  | .ok reading => .rule reading.rule reading.targetOffset
  | .error diagnostic =>
      if statement.any Token.isIllegal then .tainted else .fault diagnostic

/-- Sorts outcomes into rules and diagnostics.  A rule whose pair of states was
seen before becomes a diagnostic at its second state. -/
def collect (seen : List (String × String)) :
    List Outcome → List Rule × List Diagnostic
  | [] => ([], [])
  | .tainted :: outcomes => collect seen outcomes
  | .fault diagnostic :: outcomes =>
      let (rules, diagnostics) := collect seen outcomes
      (rules, diagnostic :: diagnostics)
  | .rule rule targetOffset :: outcomes =>
      if rule.signature ∈ seen then
        let (rules, diagnostics) := collect seen outcomes
        (rules, ⟨targetOffset, .duplicateRule⟩ :: diagnostics)
      else
        let (rules, diagnostics) := collect (rule.signature :: seen) outcomes
        (rule :: rules, diagnostics)

def readTokens (compiler : Compiler) (ending : Nat) (tokens : List Token) :
    List Rule × List Diagnostic :=
  collect [] ((statements tokens).map (compiler.readStatement ending))

def compileChars (compiler : Compiler) (text : List Char) : Compilation :=
  let tokens := Token.scan text
  let (rules, faults) := compiler.readTokens text.length tokens
  let diagnostics :=
    (tokens.filterMap Token.illegality? ++ faults).mergeSort
      fun first second => first.offset ≤ second.offset
  if compiler.limits.rulesMax < rules.length then
    ⟨⟨rules⟩, [⟨0, .ruleCountExceeded compiler.limits.rulesMax⟩]⟩
  else ⟨⟨rules⟩, diagnostics⟩

def compile (compiler : Compiler) (text : String) : Compilation :=
  compiler.compileChars text.toList

end Compiler

end Cellular
