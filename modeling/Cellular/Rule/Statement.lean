import Cellular.Rule.Limits
import Cellular.Rule.Table
import Cellular.Rule.Token
import Cellular.State.Universe
import Cellular.Text.Numeral

/-!
# Statements of rule text

A statement is a run of tokens up to a semicolon, and a well-formed one is a
rule:

    rule         := STATE "/" STATE ( ";" | ":" clauses ";" )
    clauses      := clause ( ("&" | "AND" | "|" | "OR") clause )*
    clause       := "(" neighborhood "@" [ "=" ] conditions ")"
    neighborhood := "ALL" | DIRECTION | "[" DIRECTION ("," DIRECTION)* "]"
    conditions   := condition ( ("&" | "AND" | "|" | "OR") condition )*
    condition    := [ "+" | "-" ] [ NUMBER ] "#" STATE

The equals sign may be left out before a sign.  "And" binds tighter than "or".
Every production reads from the front of a cursor and returns what is left; the
first fault ends the statement.
-/

namespace Cellular

open Text

structure Compiler where
  states : StateUniverse
  neighborhood : Neighborhood
  limits : Limits

/-- The tokens still to be read, where the text ends, and how many characters
the statement has used so far. -/
structure Cursor where
  rest : List Token
  ending : Nat
  used : Nat
  deriving DecidableEq, Repr

namespace Cursor

def offset (cursor : Cursor) : Nat :=
  match cursor.rest with
  | [] => cursor.ending
  | token :: _ => token.offset

def atSymbol (cursor : Cursor) (character : Char) : Bool :=
  match cursor.rest with
  | [] => false
  | token :: _ => token.isSymbol character

def atWord (cursor : Cursor) (word : String) : Bool :=
  match cursor.rest with
  | [] => false
  | token :: _ => token.isWord word

def word? (cursor : Cursor) : Option (List Char) :=
  match cursor.rest with
  | ⟨.word letters, _, _⟩ :: _ => some letters
  | _ => none

def text (cursor : Cursor) : String :=
  match cursor.rest with
  | [] => ""
  | token :: _ => token.text

def fault (cursor : Cursor) (kind : DiagnosticKind) : Except Diagnostic α :=
  .error ⟨cursor.offset, kind⟩

def unexpected (cursor : Cursor) (what : Expected) : Except Diagnostic α :=
  cursor.fault (.expected what)

/-- Takes the next token, unless the statement becomes too long with it. -/
def take (cursor : Cursor) (limits : Limits) : Except Diagnostic Cursor :=
  match cursor.rest with
  | [] => .ok cursor
  | token :: rest =>
      if limits.ruleCharsMax < cursor.used + token.length then
        cursor.fault .sizeLimitExceeded
      else .ok { cursor with rest := rest, used := cursor.used + token.length }

def takeSymbol (cursor : Cursor) (limits : Limits) (character : Char)
    (what : Expected) : Except Diagnostic Cursor :=
  if cursor.atSymbol character then cursor.take limits
  else cursor.unexpected what

end Cursor

/-! ## Lists of terms -/

inductive Connective where
  | and
  | or
  deriving DecidableEq, Repr

def Cursor.connective? (cursor : Cursor) : Option Connective :=
  if cursor.atSymbol '&' || cursor.atWord "AND" then some .and
  else if cursor.atSymbol '|' || cursor.atWord "OR" then some .or
  else none

/-- The groups of a list of terms: "or" opens a group, "and" goes on with it. -/
def groupTerms {α : Type} (first : α) : List (Connective × α) → List (List α)
  | [] => [[first]]
  | (.or, next) :: terms => [first] :: groupTerms next terms
  | (.and, next) :: terms =>
      match groupTerms next terms with
      | [] => [[first]]
      | group :: groups => (first :: group) :: groups

def formulaOfTerms {α : Type} (first : α) (terms : List (Connective × α)) :
    Formula α :=
  (Formula.ofGroups (groupTerms first terms)).getD (.all [])

namespace Compiler

/-- Reads further terms up to and including the closing symbol.  The fuel only
has to be as large as the number of tokens left. -/
def terms {α : Type} (compiler : Compiler) (closing : Char) (what : Expected)
    (term : Cursor → Except Diagnostic (α × Cursor)) :
    Nat → Cursor → Except Diagnostic (List (Connective × α) × Cursor)
  | 0, cursor => cursor.unexpected what
  | fuel + 1, cursor =>
      if cursor.atSymbol closing then do
        let cursor ← cursor.take compiler.limits
        .ok ([], cursor)
      else
        match cursor.connective? with
        | none => cursor.unexpected what
        | some connective => do
            let cursor ← cursor.take compiler.limits
            let (next, cursor) ← term cursor
            let (others, cursor) ← terms compiler closing what term fuel cursor
            .ok ((connective, next) :: others, cursor)

def formula {α : Type} (compiler : Compiler) (closing : Char) (what : Expected)
    (term : Cursor → Except Diagnostic (α × Cursor)) (cursor : Cursor) :
    Except Diagnostic (Formula α × Cursor) := do
  let (first, cursor) ← term cursor
  let (others, cursor) ←
    compiler.terms closing what term cursor.rest.length cursor
  .ok (formulaOfTerms first others, cursor)

/-! ## Productions -/

def state (compiler : Compiler) (invalid : String → DiagnosticKind)
    (cursor : Cursor) : Except Diagnostic (String × Cursor) :=
  match cursor.word? with
  | none => cursor.fault (invalid cursor.text)
  | some letters =>
      let known := do
        let state ← compiler.states.id? (String.ofList letters)
        compiler.states.name? state
      match known with
      | some name =>
          if compiler.limits.admitsLength letters.length then do
            let cursor ← cursor.take compiler.limits
            .ok (name, cursor)
          else cursor.fault (invalid (String.ofList letters))
      | none => cursor.fault (invalid (String.ofList letters))

def countMax : Nat := 4294967295

def count (compiler : Compiler) (cursor : Cursor) :
    Except Diagnostic (Nat × Cursor) :=
  match cursor.word? with
  | some letters =>
      match digits? letters with
      | some number =>
          if number ≤ countMax then do
            let cursor ← cursor.take compiler.limits
            .ok (number, cursor)
          else cursor.fault .sizeLimitExceeded
      | none => cursor.unexpected .condition
  | none =>
      if cursor.atSymbol '#' then .ok (1, cursor)
      else cursor.unexpected .condition

def comparator (compiler : Compiler) (cursor : Cursor) :
    Except Diagnostic (Comparator × Cursor) :=
  if cursor.atSymbol '+' then do
    let cursor ← cursor.take compiler.limits
    .ok (.more, cursor)
  else if cursor.atSymbol '-' then do
    let cursor ← cursor.take compiler.limits
    .ok (.less, cursor)
  else .ok (.equal, cursor)

def condition (compiler : Compiler) (cursor : Cursor) :
    Except Diagnostic (CountCondition String × Cursor) := do
  let (comparator, cursor) ← compiler.comparator cursor
  let (count, cursor) ← compiler.count cursor
  let cursor ← cursor.takeSymbol compiler.limits '#' .hash
  let (state, cursor) ← compiler.state .invalidConditionState cursor
  .ok (⟨count, comparator, state⟩, cursor)

/-- Reads a direction of the neighborhood.  A word that names no direction at
all is only blamed where nothing but a direction could stand. -/
def direction (compiler : Compiler) (what : Expected) (cursor : Cursor) :
    Except Diagnostic (Direction × Cursor) :=
  match cursor.word? with
  | none => cursor.unexpected what
  | some letters =>
      match Direction.parse? (String.ofList letters) with
      | some direction =>
          if compiler.neighborhood.contains direction then do
            let cursor ← cursor.take compiler.limits
            .ok (direction, cursor)
          else cursor.fault (.invalidDirection (String.ofList letters))
      | none =>
          if what = .direction then
            cursor.fault (.invalidDirection (String.ofList letters))
          else cursor.unexpected what

/-- Reads directions up to and including the closing bracket, none of them
twice.  The fuel only has to be as large as the number of tokens left. -/
def directionList (compiler : Compiler) :
    Nat → List Direction → Cursor →
      Except Diagnostic (List Direction × Cursor)
  | 0, _, cursor => cursor.unexpected .direction
  | fuel + 1, seen, cursor => do
      let (direction, next) ← compiler.direction .direction cursor
      if direction ∈ seen then cursor.fault (.duplicateNeighbor direction)
      else if next.atSymbol ',' then do
        let next ← next.take compiler.limits
        compiler.directionList fuel (seen ++ [direction]) next
      else if next.atSymbol ']' then do
        let next ← next.take compiler.limits
        .ok (seen ++ [direction], next)
      else next.unexpected .commaOrBracket

def scope (compiler : Compiler) (cursor : Cursor) :
    Except Diagnostic (Scope × Cursor) :=
  if cursor.atWord "ALL" then do
    let cursor ← cursor.take compiler.limits
    .ok (.all, cursor)
  else if cursor.atSymbol '[' then do
    let cursor ← cursor.take compiler.limits
    let (listed, cursor) ←
      compiler.directionList cursor.rest.length [] cursor
    .ok (.directions listed, cursor)
  else do
    let (direction, cursor) ← compiler.direction .neighborhood cursor
    .ok (.directions [direction], cursor)

def equalsSign (compiler : Compiler) (cursor : Cursor) :
    Except Diagnostic Cursor :=
  if cursor.atSymbol '+' || cursor.atSymbol '-' then .ok cursor
  else cursor.takeSymbol compiler.limits '=' .equals

def clause (compiler : Compiler) (cursor : Cursor) :
    Except Diagnostic (Clause × Cursor) := do
  let cursor ← cursor.takeSymbol compiler.limits '(' .openParen
  let (scope, cursor) ← compiler.scope cursor
  let cursor ← cursor.takeSymbol compiler.limits '@' .atSign
  let cursor ← compiler.equalsSign cursor
  let (condition, cursor) ←
    compiler.formula ')' .connectiveOrCloseParen compiler.condition cursor
  .ok (⟨scope, condition⟩, cursor)

def ruleCondition (compiler : Compiler) (cursor : Cursor) :
    Except Diagnostic (Option (Formula Clause) × Cursor) :=
  if cursor.atSymbol ';' then do
    let cursor ← cursor.take compiler.limits
    .ok (none, cursor)
  else if cursor.atSymbol ':' then do
    let cursor ← cursor.take compiler.limits
    let (condition, cursor) ←
      compiler.formula ';' .connectiveOrSemicolon compiler.clause cursor
    .ok (some condition, cursor)
  else cursor.unexpected .colonOrSemicolon

/-- A rule that was read, where its second state stands, and what is left. -/
structure Reading where
  rule : Rule
  targetOffset : Nat
  rest : Cursor

def rule (compiler : Compiler) (cursor : Cursor) : Except Diagnostic Reading := do
  let (source, afterSource) ← compiler.state .invalidFirstState cursor
  let beforeTarget ← afterSource.takeSymbol compiler.limits '/' .slash
  let (target, afterTarget) ←
    compiler.state .invalidSecondState beforeTarget
  if source = target then beforeTarget.fault .illegalRule
  else do
    let (condition, rest) ← compiler.ruleCondition afterTarget
    .ok ⟨Rule.ofParts source target condition cursor.offset,
      beforeTarget.offset, rest⟩

end Compiler

/-! ## Splitting into statements -/

def splitStatements : List Token → List (List Token)
  | [] => []
  | token :: tokens =>
      if token.isSymbol ';' then [token] :: splitStatements tokens
      else
        match splitStatements tokens with
        | [] => [[token]]
        | statement :: statements => (token :: statement) :: statements

/-- The statements of a text: illegal tokens in front of one are passed over,
and a run of nothing else is no statement. -/
def statements (tokens : List Token) : List (List Token) :=
  ((splitStatements tokens).map (·.dropWhile Token.isIllegal)).filter
    fun statement => !statement.isEmpty

end Cellular
