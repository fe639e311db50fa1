import Cellular.State.Name

/-!
# Compiler limits

Bounds on the names, the length and the number of rules that a compiler takes.
-/

namespace Cellular

structure Limits where
  stateCharsMin : Nat
  stateCharsMax : Nat
  /-- The most characters of one rule, blanks and comments apart. -/
  ruleCharsMax : Nat
  rulesMax : Nat
  deriving DecidableEq, Repr

namespace Limits

def standard : Limits :=
  ⟨Cellular.stateCharsMin, Cellular.stateCharsMax, 1024, 1024⟩

def admitsLength (limits : Limits) (length : Nat) : Bool :=
  limits.stateCharsMin ≤ length && length ≤ limits.stateCharsMax

end Limits

end Cellular
