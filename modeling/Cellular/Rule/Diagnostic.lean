import Cellular.Direction

/-!
# Diagnostics

A diagnostic is a complaint about rule text, anchored at the number of
characters before the place it speaks of.  `lineColumn` shows that place as a
line and a column, both counted from one.
-/

namespace Cellular

inductive Expected where
  | slash
  | colonOrSemicolon
  | openParen
  | neighborhood
  | direction
  | commaOrBracket
  | atSign
  | equals
  | condition
  | hash
  | connectiveOrCloseParen
  | connectiveOrSemicolon
  deriving DecidableEq, Repr

def Expected.message : Expected → String
  | .slash => "'/'"
  | .colonOrSemicolon => "either ':' or ';'"
  | .openParen => "'('"
  | .neighborhood => "'ALL', a direction or '['"
  | .direction => "a direction"
  | .commaOrBracket => "either ',' or ']'"
  | .atSign => "'@'"
  | .equals => "'='"
  | .condition => "a condition like '3#STATE'"
  | .hash => "'#'"
  | .connectiveOrCloseParen => "either '&', '|' or ')'"
  | .connectiveOrSemicolon => "either '&', '|' or ';'"

inductive DiagnosticKind where
  | illegalCharacter (character : Char)
  | invalidFirstState (text : String)
  | invalidSecondState (text : String)
  | invalidConditionState (text : String)
  | invalidDirection (text : String)
  | duplicateNeighbor (direction : Direction)
  | duplicateRule
  | illegalRule
  | sizeLimitExceeded
  | ruleCountExceeded (most : Nat)
  | expected (what : Expected)
  deriving DecidableEq, Repr

def DiagnosticKind.message : DiagnosticKind → String
  | .illegalCharacter character =>
      "illegal character '" ++ String.singleton character ++ "'"
  | .invalidFirstState text => "invalid first state '" ++ text ++ "'"
  | .invalidSecondState text => "invalid second state '" ++ text ++ "'"
  | .invalidConditionState text => "invalid condition state '" ++ text ++ "'"
  | .invalidDirection text => "invalid direction '" ++ text ++ "'"
  | .duplicateNeighbor direction =>
      "direction " ++ direction.name ++ " listed more than once"
  | .duplicateRule => "duplicate rule"
  | .illegalRule => "a state cannot transition to itself"
  | .sizeLimitExceeded => "size of rule surpasses maximum limit"
  | .ruleCountExceeded most =>
      "number of rules surpasses maximum limit of " ++ toString most
  | .expected what => "expected " ++ what.message

structure Diagnostic where
  /-- Characters before the place of the complaint. -/
  offset : Nat
  kind : DiagnosticKind
  deriving DecidableEq, Repr

def Diagnostic.message (diagnostic : Diagnostic) : String :=
  diagnostic.kind.message ++ " at offset " ++ toString diagnostic.offset

def advance (place : Nat × Nat) (c : Char) : Nat × Nat :=
  if c = '\n' then (place.1 + 1, 1) else (place.1, place.2 + 1)

/-- The line and column after `offset` characters.  An offset past the end means
the end. -/
def lineColumn (text : List Char) (offset : Nat) : Nat × Nat :=
  (text.take offset).foldl advance (1, 1)

end Cellular
