/-!
# Random draws

Everything random takes its draws from a source: a state that is passed along,
with a draw from the unit interval and a draw below a bound.  A draw below a
positive bound is below it, whatever the source; nothing else about a source is
ever used.  A loop that waits for lucky draws is given up after a number of rounds
that comes with the draws.
-/

namespace Cellular

structure Draws (σ : Type) where
  /-- A number from zero up to but not including one. -/
  unit : σ → Float × σ
  below : σ → Nat → Nat × σ
  below_lt : ∀ source bound, 0 < bound → (below source bound).1 < bound
  /-- How often coins are flipped for a whole population until it is full; half of
  them fall the right way. -/
  patience : Nat := 65536

namespace Draws

variable {σ : Type}

def chance (draws : Draws σ) (source : σ) (probability : Float) : Bool × σ :=
  let (value, source) := draws.unit source
  (value < probability, source)

/-- The ordered pair of distinct numbers that two draws stand for: the second
draw passes over the first number. -/
def spread (first second : Nat) : Nat × Nat :=
  (first, if first ≤ second then second + 1 else second)

def distinctPair (draws : Draws σ) (source : σ) (bound : Nat) :
    (Nat × Nat) × σ :=
  let (first, source) := draws.below source bound
  let (second, source) := draws.below source (bound - 1)
  (spread first second, source)

end Draws

end Cellular
