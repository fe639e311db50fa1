import Cellular.Rule.Compilation

/-!
# Reading rules by place

The reader of this file walks along a stream of entries that ends with the end of the
text.  It keeps its place when a production fails, goes on behind the next semicolon,
and looks back at the entries that it has passed.  Nothing in it tells that its places
are in the stream or that its loops end: a place outside has no entry, and a loop has
no result once its budget is used up.
-/

namespace Cellular

inductive Entry where
  | token (item : Token)
  | ending (offset length : Nat)
  deriving DecidableEq, Repr

namespace Entry

def offset : Entry → Nat
  | .token item => item.offset
  | .ending offset _ => offset

def length : Entry → Nat
  | .token item => item.length
  | .ending _ length => length

def isEnding : Entry → Bool
  | .token _ => false
  | .ending .. => true

def isIllegal : Entry → Bool
  | .token item => item.isIllegal
  | .ending .. => false

def isSymbol (character : Char) : Entry → Bool
  | .token item => item.isSymbol character
  | .ending .. => false

def isWord (word : String) : Entry → Bool
  | .token item => item.isWord word
  | .ending .. => false

def word? : Entry → Option (List Char)
  | .token ⟨.word letters, _, _⟩ => some letters
  | _ => none

def text : Entry → String
  | .token item => item.text
  | .ending .. => ""

def connective? (entry : Entry) : Option Connective :=
  if entry.isSymbol '&' || entry.isWord "AND" then some .and
  else if entry.isSymbol '|' || entry.isWord "OR" then some .or
  else none

end Entry

/-- The place of the next entry, and how many characters the rule has used so far. -/
structure Head where
  place : Nat
  used : Nat
  deriving DecidableEq, Repr

/-- A walk along the stream.  A fault leaves the head where it is. -/
structure Walk (α : Type) where
  run : Head → Option (Except Diagnostic α × Head)

namespace Walk

variable {α β : Type}

instance : Monad Walk where
  pure value := ⟨fun head => some (.ok value, head)⟩
  bind walk next := ⟨fun head =>
    match walk.run head with
    | none => none
    | some (.error diagnostic, head) => some (.error diagnostic, head)
    | some (.ok value, head) => (next value).run head⟩

theorem run_bind (walk : Walk α) (next : α → Walk β) (head : Head) :
    (walk >>= next).run head =
      match walk.run head with
      | none => none
      | some (.error diagnostic, head) => some (.error diagnostic, head)
      | some (.ok value, head) => (next value).run head := rfl

def fault (diagnostic : Diagnostic) : Walk α :=
  ⟨fun head => some (.error diagnostic, head)⟩

def exhausted : Walk α := ⟨fun _ => none⟩

def head : Walk Head := ⟨fun head => some (.ok head, head)⟩

def moveTo (head : Head) : Walk Unit := ⟨fun _ => some (.ok (), head)⟩

def attempt (walk : Walk α) : Walk (Except Diagnostic α) :=
  ⟨fun head => (walk.run head).map fun (result, head) => (.ok result, head)⟩

theorem run_attempt_bind (walk : Walk α) (next : Except Diagnostic α → Walk β)
    (head : Head) :
    (walk.attempt >>= next).run head =
      match walk.run head with
      | none => none
      | some (result, head) => (next result).run head := by
  rw [run_bind]
  simp only [attempt]
  cases walk.run head <;> rfl

end Walk

/-- A compiler that reads a stream, with so many rounds for each of its loops. -/
structure Walker where
  compiler : Compiler
  entries : List Entry
  budget : Nat

namespace Walker

variable {α : Type}

/-! ## Single entries -/

/-- The next entry; the last one stays the next. -/
def peek (walker : Walker) : Walk Entry :=
  ⟨fun head => walker.entries[min head.place (walker.entries.length - 1)]?.map
    fun entry => (.ok entry, head)⟩

def unexpected (walker : Walker) (what : Expected) : Walk α := do
  let entry ← walker.peek
  .fault ⟨entry.offset, .expected what⟩

def take (walker : Walker) : Walk Unit := do
  let entry ← walker.peek
  let head ← .head
  if walker.compiler.limits.ruleCharsMax < head.used + entry.length then
    .fault ⟨entry.offset, .sizeLimitExceeded⟩
  else
    .moveTo ⟨if entry.isEnding then head.place else head.place + 1,
      head.used + entry.length⟩

def takeSymbol (walker : Walker) (character : Char) (what : Expected) :
    Walk Unit := do
  let entry ← walker.peek
  if entry.isSymbol character then walker.take else walker.unexpected what

/-! ## Lists of terms -/

def terms (walker : Walker) (closing : Char) (what : Expected) (term : Walk α) :
    Nat → Walk (List (Connective × α))
  | 0 => .exhausted
  | budget + 1 => do
      let entry ← walker.peek
      if entry.isSymbol closing then do
        walker.take
        pure []
      else
        match entry.connective? with
        | none => walker.unexpected what
        | some connective => do
            walker.take
            let next ← term
            let others ← terms walker closing what term budget
            pure ((connective, next) :: others)

def formula (walker : Walker) (closing : Char) (what : Expected) (term : Walk α) :
    Walk (Formula α) := do
  let first ← term
  let others ← walker.terms closing what term walker.budget
  pure (formulaOfTerms first others)

/-! ## Productions -/

def state (walker : Walker) (invalid : String → DiagnosticKind) : Walk String := do
  let entry ← walker.peek
  match entry.word? with
  | none => .fault ⟨entry.offset, invalid entry.text⟩
  | some letters =>
      let known := do
        let state ← walker.compiler.states.id? (String.ofList letters)
        walker.compiler.states.name? state
      match known with
      | some name =>
          if walker.compiler.limits.admitsLength letters.length then do
            walker.take
            pure name
          else .fault ⟨entry.offset, invalid (String.ofList letters)⟩
      | none => .fault ⟨entry.offset, invalid (String.ofList letters)⟩

def count (walker : Walker) : Walk Nat := do
  let entry ← walker.peek
  match entry.word? with
  | some letters =>
      match Text.digits? letters with
      | some number =>
          if number ≤ Compiler.countMax then do
            walker.take
            pure number
          else .fault ⟨entry.offset, .sizeLimitExceeded⟩
      | none => walker.unexpected .condition
  | none =>
      if entry.isSymbol '#' then pure 1
      else walker.unexpected .condition

def comparator (walker : Walker) : Walk Comparator := do
  let entry ← walker.peek
  if entry.isSymbol '+' then do
    walker.take
    pure .more
  else if entry.isSymbol '-' then do
    walker.take
    pure .less
  else pure .equal

def condition (walker : Walker) : Walk (CountCondition String) := do
  let comparator ← walker.comparator
  let count ← walker.count
  walker.takeSymbol '#' .hash
  let state ← walker.state .invalidConditionState
  pure ⟨count, comparator, state⟩

def direction (walker : Walker) (what : Expected) : Walk Direction := do
  let entry ← walker.peek
  match entry.word? with
  | none => walker.unexpected what
  | some letters =>
      match Direction.parse? (String.ofList letters) with
      | some direction =>
          if walker.compiler.neighborhood.contains direction then do
            walker.take
            pure direction
          else .fault ⟨entry.offset, .invalidDirection (String.ofList letters)⟩
      | none =>
          if what = .direction then
            .fault ⟨entry.offset, .invalidDirection (String.ofList letters)⟩
          else walker.unexpected what

def directionList (walker : Walker) : Nat → List Direction → Walk (List Direction)
  | 0, _ => .exhausted
  | budget + 1, seen => do
      let entry ← walker.peek
      let direction ← walker.direction .direction
      if direction ∈ seen then .fault ⟨entry.offset, .duplicateNeighbor direction⟩
      else do
        let next ← walker.peek
        if next.isSymbol ',' then do
          walker.take
          walker.directionList budget (seen ++ [direction])
        else if next.isSymbol ']' then do
          walker.take
          pure (seen ++ [direction])
        else walker.unexpected .commaOrBracket

def scope (walker : Walker) : Walk Scope := do
  let entry ← walker.peek
  if entry.isWord "ALL" then do
    walker.take
    pure .all
  else if entry.isSymbol '[' then do
    walker.take
    let listed ← walker.directionList walker.budget []
    pure (.directions listed)
  else do
    let direction ← walker.direction .neighborhood
    pure (.directions [direction])

def equalsSign (walker : Walker) : Walk Unit := do
  let entry ← walker.peek
  if entry.isSymbol '+' || entry.isSymbol '-' then pure ()
  else walker.takeSymbol '=' .equals

def clause (walker : Walker) : Walk Clause := do
  walker.takeSymbol '(' .openParen
  let scope ← walker.scope
  walker.takeSymbol '@' .atSign
  walker.equalsSign
  let condition ← walker.formula ')' .connectiveOrCloseParen walker.condition
  pure ⟨scope, condition⟩

def ruleCondition (walker : Walker) : Walk (Option (Formula Clause)) := do
  let entry ← walker.peek
  if entry.isSymbol ';' then do
    walker.take
    pure none
  else if entry.isSymbol ':' then do
    walker.take
    let condition ← walker.formula ';' .connectiveOrSemicolon walker.clause
    pure (some condition)
  else walker.unexpected .colonOrSemicolon

def rule (walker : Walker) : Walk (Rule × Nat) := do
  let start ← walker.peek
  let source ← walker.state .invalidFirstState
  walker.takeSymbol '/' .slash
  let second ← walker.peek
  let target ← walker.state .invalidSecondState
  if source = target then .fault ⟨second.offset, .illegalRule⟩
  else do
    let condition ← walker.ruleCondition
    pure (.ofParts source target condition start.offset, second.offset)

/-! ## All rules -/

def resync (walker : Walker) : Nat → Walk Unit
  | 0 => .exhausted
  | budget + 1 => do
      let entry ← walker.peek
      if entry.isEnding then pure ()
      else do
        let head ← .head
        .moveTo { head with place := head.place + 1 }
        if entry.isSymbol ';' then pure () else walker.resync budget

def passed (walker : Walker) (start : Nat) : Walk (List Entry) :=
  ⟨fun head =>
    if start ≤ head.place ∧ head.place ≤ walker.entries.length then
      some (.ok ((walker.entries.take head.place).drop start), head)
    else none⟩

/-- One round: an illegal entry is passed over, and anything else is read as a rule. -/
def turn (walker : Walker) : Walk (Option Outcome) := do
  let entry ← walker.peek
  let head ← .head
  if entry.isIllegal then do
    .moveTo { head with place := head.place + 1 }
    pure none
  else do
    .moveTo { head with used := 0 }
    let result ← walker.rule.attempt
    match result with
    | .ok (rule, targetOffset) => pure (some (.rule rule targetOffset))
    | .error diagnostic => do
        walker.resync walker.budget
        let entries ← walker.passed head.place
        pure (some (if entries.any Entry.isIllegal then .tainted else .fault diagnostic))

def rounds (walker : Walker) : Nat → Walk (List Outcome)
  | 0 => .exhausted
  | budget + 1 => do
      let entry ← walker.peek
      if entry.isEnding then pure []
      else do
        let outcome? ← walker.turn
        let others ← walker.rounds budget
        pure (outcome?.toList ++ others)

def readAll (walker : Walker) : Walk (List Outcome) :=
  walker.rounds walker.budget

end Walker

end Cellular
